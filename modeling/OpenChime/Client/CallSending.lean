import Mathlib.Algebra.Group.Nat.Defs
import Mathlib.Data.List.Induction
import Mathlib.Data.List.Nodup
import Mathlib.Data.Nat.Basic
import Mathlib.Order.Basic

/-! The sending side of the call engine (`client/core/call/call_engine.c`): which key and which counter
each packet is sealed under. Audio, screen share and control packets all go through `send_pt`. -/

set_option autoImplicit false

namespace OpenChime.Client.CallSending

open List

variable {Key : Type}

def graceMs : Int := 1000

/-- An `oc_sframe_key` that is ready, by what `oc_sframe_key_init` made it of. -/
structure SendKey (Key : Type) where
  kid : BitVec 64
  base : Key
  deriving DecidableEq

/-- The engine's `tx`, `tx_ctr` and `tx_next` with `tx_next_at`, and what was sealed so far. -/
structure Sender (Key : Type) where
  tx : Option (SendKey Key)
  ctr : BitVec 64
  next : Option (SendKey Key × Int)
  packets : List (SendKey Key × BitVec 64)
  deriving DecidableEq

def Sender.start : Sender Key := ⟨none, 0, none, []⟩

/-- What reaches the engine. Whether mbedTLS derives or seals, and whether there is a path, comes with
the event. -/
inductive Event (Key : Type) where
  | txKey (now : Int) (epoch : BitVec 32) (slot : BitVec 8) (key : Key) (derives : Bool)
  | send (now : Int) (goesOut : Bool)
  | forget
  deriving DecidableEq

def kidOf (epoch : BitVec 32) (slot : BitVec 8) : BitVec 64 := (epoch.setWidth 64 <<< 8) ||| slot.setWidth 64

/-- The start of `send_pt`: a key that has waited long enough takes over. -/
def Sender.takeOver (s : Sender Key) (now : Int) : Sender Key :=
  match s.next with
  | some (key, due) => if due ≤ now then { s with tx := some key, ctr := 0, next := none } else s
  | none => s

/-- `m_tx_key`, `send_pt` and `forget_call` -/
def Sender.step (s : Sender Key) : Event Key → Sender Key
  | .txKey now epoch slot key derives =>
    if derives then
      match s.tx with
      | none => { s with tx := some ⟨kidOf epoch slot, key⟩, ctr := 0 }
      | some _ => { s with next := some (⟨kidOf epoch slot, key⟩, now + graceMs) }
    else s
  | .send now goesOut =>
    let s := s.takeOver now
    match s.tx with
    | none => s
    | some key =>
      if goesOut then { s with ctr := s.ctr + 1, packets := s.packets ++ [(key, s.ctr)] } else s
  | .forget => { s with tx := none, ctr := 0, next := none }

def run (events : List (Event Key)) : Sender Key := events.foldl Sender.step .start

def Sender.nonces (s : Sender Key) : List (Key × BitVec 64) := s.packets.map fun p => (p.1.base, p.2)

/-- The keys given to `m_tx_key`. -/
def installed : List (Event Key) → List Key
  | [] => []
  | .txKey _ _ _ key _ :: events => key :: installed events
  | _ :: events => installed events

theorem installed_append (events more : List (Event Key)) :
    installed (events ++ more) = installed events ++ installed more := by
  induction events with
  | nil => rfl
  | cons event events ih =>
    cases event with
    | txKey now epoch slot key derives => exact congrArg (key :: ·) ih
    | send now goesOut => exact ih
    | forget => exact ih

theorem nonces_replicate (s : Sender Key) {key : SendKey Key} (current : s.tx = some key)
    (alone : s.next = none) (n : Nat) :
    ((List.replicate n (.send 0 true)).foldl Sender.step s).nonces =
      s.nonces ++ (List.range n).map fun m => (key.base, s.ctr + BitVec.ofNat 64 m) := by
  induction n generalizing s with
  | zero => simp
  | succ n ih =>
    have step : s.step (.send 0 true) = { s with ctr := s.ctr + 1, packets := s.packets ++ [(key, s.ctr)] } := by
      simp only [Sender.step, Sender.takeOver, alone, current, if_true]
    have rest := ih { s with ctr := s.ctr + 1, packets := s.packets ++ [(key, s.ctr)] } current alone
    have later : ((fun m => (key.base, s.ctr + BitVec.ofNat 64 m)) ∘ Nat.succ) =
        fun m => (key.base, s.ctr + 1 + BitVec.ofNat 64 m) := by
      funext m
      rw [Function.comp_apply, Nat.succ_eq_one_add, BitVec.ofNat_add, BitVec.add_assoc]
      rfl
    rw [replicate_succ, foldl_cons, step, rest, range_succ_eq_map, map_cons, map_map, later]
    simp [Sender.nonces]

variable [DecidableEq Key]

def counters (nonces : List (Key × BitVec 64)) (key : Key) : List (BitVec 64) :=
  (nonces.filter fun p => p.1 = key).map Prod.snd

/-- Each key's counters go up from 0, the current key's next one is `tx_ctr`, and the waiting key has
not been used. -/
structure Counts (known : List Key) (s : Sender Key) : Prop where
  numbered : ∀ key, counters s.nonces key = (List.range (counters s.nonces key).length).map (BitVec.ofNat 64)
  covered : ∀ p ∈ s.nonces, p.1 ∈ known
  current : ∀ key, s.tx = some key → key.base ∈ known ∧ s.ctr = BitVec.ofNat 64 (counters s.nonces key.base).length
  waiting : ∀ key due, s.next = some (key, due) → key.base ∈ known ∧
    counters s.nonces key.base = [] ∧ ∀ current, s.tx = some current → current.base ≠ key.base

variable {known : List Key} {s : Sender Key}

theorem counters_of_new {nonces : List (Key × BitVec 64)} {key : Key}
    (covers : ∀ p ∈ nonces, p.1 ∈ known) (new : key ∉ known) : counters nonces key = [] := by
  rw [counters, map_eq_nil_iff, filter_eq_nil_iff]
  intro p member same
  exact new (of_decide_eq_true same ▸ covers p member)

theorem Counts.takeOver (counts : Counts known s) (now : Int) : Counts known (s.takeOver now) := by
  rw [Sender.takeOver]
  split
  · next key due waits =>
    obtain ⟨isKnown, unused, -⟩ := counts.waiting key due waits
    split
    · refine ⟨counts.numbered, counts.covered, ?_, nofun⟩
      intro current same
      cases same
      refine ⟨isKnown, ?_⟩
      change 0 = BitVec.ofNat 64 (counters s.nonces key.base).length
      rw [unused]
      rfl
    · exact counts
  · exact counts

theorem counters_append (nonces : List (Key × BitVec 64)) (key other : Key) (ctr : BitVec 64) :
    counters (nonces ++ [(key, ctr)]) other = counters nonces other ++ if key = other then [ctr] else [] := by
  rw [counters, filter_append, map_append, counters]
  split
  · next same => rw [filter_cons_of_pos (by simpa using same), filter_nil, map_singleton]
  · next differs => rw [filter_cons_of_neg (by simpa using differs), filter_nil, map_nil]

variable (counts : Counts known s)

include counts

theorem Counts.sealed {key : SendKey Key} (current : s.tx = some key) :
    Counts known { s with ctr := s.ctr + 1, packets := s.packets ++ [(key, s.ctr)] } := by
  obtain ⟨isKnown, next⟩ := counts.current key current
  have nonces : ({ s with ctr := s.ctr + 1, packets := s.packets ++ [(key, s.ctr)] } : Sender Key).nonces =
      s.nonces ++ [(key.base, s.ctr)] := by
    rw [Sender.nonces, map_append]
    rfl
  constructor
  · intro other
    rw [nonces, counters_append]
    split
    · next same =>
      rw [← same, length_append, length_singleton, range_succ, map_append, ← counts.numbered, map_singleton, next]
    · rw [append_nil]
      exact counts.numbered other
  · intro p member
    rw [nonces] at member
    cases mem_append.mp member with
    | inl earlier => exact counts.covered p earlier
    | inr this => exact mem_singleton.mp this ▸ isKnown
  · intro other same
    cases current.symm.trans same
    refine ⟨isKnown, ?_⟩
    rw [nonces, counters_append, if_pos rfl, length_append, BitVec.ofNat_add, ← next]
    rfl
  · intro waiting due waits
    obtain ⟨waitingKnown, none, apart⟩ := counts.waiting waiting due waits
    rw [nonces, counters_append, if_neg (apart key current), append_nil]
    exact ⟨waitingKnown, none, apart⟩

theorem Counts.widen {more : List Key} (wider : known ⊆ more) : Counts more s :=
  ⟨counts.numbered, fun p member => wider (counts.covered p member),
    fun key same => ⟨wider (counts.current key same).1, (counts.current key same).2⟩,
    fun key due waits => ⟨wider (counts.waiting key due waits).1, (counts.waiting key due waits).2⟩⟩

theorem Counts.given (now : Int) (epoch : BitVec 32) (slot : BitVec 8) {key : Key} (derives : Bool)
    (fresh : key ∉ known) : Counts (known ++ [key]) (s.step (.txKey now epoch slot key derives)) := by
  have unused := counters_of_new counts.covered fresh
  have wide := counts.widen (subset_append_left known [key])
  have isKnown : key ∈ known ++ [key] := mem_append_right known (mem_singleton_self key)
  rw [Sender.step]
  split
  · split
    · next first =>
      refine ⟨wide.numbered, wide.covered, ?_, ?_⟩
      · intro current same
        cases same
        refine ⟨isKnown, ?_⟩
        change 0 = BitVec.ofNat 64 (counters s.nonces key).length
        rw [unused]
        rfl
      · intro waiting due waits
        obtain ⟨inKnown, none, -⟩ := counts.waiting waiting due waits
        refine ⟨mem_append_left _ inKnown, none, ?_⟩
        intro current same
        cases same
        exact fun clash : key = waiting.base => fresh (clash ▸ inKnown)
    · next current present =>
      refine ⟨wide.numbered, wide.covered, wide.current, ?_⟩
      intro waiting due waits
      cases waits
      refine ⟨isKnown, unused, ?_⟩
      intro other same
      exact fun clash : other.base = key => fresh (clash ▸ (counts.current other same).1)
  · exact wide

theorem Counts.step (event : Event Key) (fresh : ∀ key ∈ installed [event], key ∉ known) :
    Counts (known ++ installed [event]) (s.step event) := by
  cases event with
  | txKey now epoch slot key derives =>
    exact counts.given now epoch slot derives (fresh key (mem_singleton_self key))
  | send now goesOut =>
    have ready := counts.takeOver now
    change Counts (known ++ []) _
    rw [append_nil, Sender.step]
    split
    · exact ready
    next key current =>
    split
    · exact ready.sealed current
    · exact ready
  | forget =>
    change Counts (known ++ []) _
    rw [append_nil]
    exact ⟨counts.numbered, counts.covered, nofun, nofun⟩

omit counts

theorem run_counts {events : List (Event Key)} (distinct : (installed events).Nodup) :
    Counts (installed events) (run events) := by
  induction events using List.reverseRecOn with
  | nil => exact ⟨fun _ => rfl, nofun, nofun, nofun⟩
  | append_singleton events event ih =>
    rw [installed_append] at distinct ⊢
    obtain ⟨before, -, apart⟩ := nodup_append.mp distinct
    rw [run, foldl_append]
    exact (ih before).step event fun key now earlier => apart key earlier key now rfl

/-- As long as no key seals more than `2 ^ 64` packets, no two packets have key and counter in common. -/
theorem call_nonces_distinct {events : List (Event Key)} (distinct : (installed events).Nodup)
    (few : ∀ key, (counters (run events).nonces key).length ≤ 2 ^ 64) : (run events).nonces.Nodup := by
  have counts := run_counts distinct
  rw [nodup_iff_sublist]
  rintro ⟨key, ctr⟩ twice
  have repeated : [ctr, ctr].Sublist (counters (run events).nonces key) := by
    have picked := (twice.filter fun p => p.1 = key).map Prod.snd
    rwa [filter_cons_of_pos (by simp), filter_cons_of_pos (by simp), filter_nil] at picked
  rw [counts.numbered] at repeated
  apply nodup_iff_sublist.mp _ ctr repeated
  apply List.Nodup.map_on _ nodup_range
  intro m inM n inN same
  have below := few key
  have equal := congrArg BitVec.toNat same
  rw [BitVec.toNat_ofNat, BitVec.toNat_ofNat, Nat.mod_eq_of_lt, Nat.mod_eq_of_lt] at equal
  · exact equal
  · exact (mem_range.mp inN).trans_le below
  · exact (mem_range.mp inM).trans_le below

/-- A key, a packet, a second key that takes over a second later, and a packet under it. -/
theorem call_nonces_distinct_rekeyed :
    (run [.txKey 0 1 0 true true, .send 0 true, .txKey 5 2 0 false true, .send 1005 true]).nonces =
        [(true, 0), (false, 0)] ∧
      (run [.txKey 0 1 0 true true, .send 0 true, .txKey 5 2 0 false true, .send 1005 true]).nonces.Nodup :=
  ⟨by decide, call_nonces_distinct (by decide) (by decide)⟩

/-- A key that seals one packet more than `tx_ctr` has values. -/
theorem call_nonce_wraps :
    ¬(run (.txKey 0 1 0 () true :: List.replicate (2 ^ 64 + 1) (.send 0 true))).nonces.Nodup := by
  intro distinct
  have all := nonces_replicate ((Sender.start : Sender Unit).step (.txKey 0 1 0 () true)) rfl rfl (2 ^ 64 + 1)
  rw [run, foldl_cons, all] at distinct
  have apart := inj_on_of_nodup_map (nodup_append.mp distinct).2.1
  have clash := apart (mem_range.mpr (Nat.succ_pos _)) (mem_range.mpr (Nat.lt_succ_self _)) rfl
  cases clash

/-- Under every key the packets are numbered from zero on, in the order they are sent. -/
theorem packets_are_numbered {events : List (Event Key)} (distinct : (installed events).Nodup) (key : Key) :
    counters (run events).nonces key = (range (counters (run events).nonces key).length).map (BitVec.ofNat 64) :=
  (run_counts distinct).numbered key

theorem packets_are_numbered_twice :
    counters (run [.txKey 0 1 0 true true, .send 0 true, .send 1 true]).nonces true = [0, 1] :=
  (packets_are_numbered (by decide) true).trans (by decide)

end OpenChime.Client.CallSending
