import OpenChime.Crypto.RatchetSession
import Mathlib.Data.List.Nodup

/-! Every message is opened exactly once. The invariant of a run says, for each
direction, how far the receiver has come in the sender's messages, that a key is kept
for exactly the passed ones that have not arrived, and which key each chain began
with. The two directions meet in the root key: the side that is behind derives the
other's newest chain from its own root key and ratchet key. -/

set_option autoImplicit false

namespace OpenChime.Crypto

open List Ratchet

variable {Key Nonce : Type} {pk : Key}

/-- How a sending chain came to be, by its ratchet public key. -/
structure Origin (Key : Type) where
  owner : Party
  sk : Key
  /-- The root key and the shared secret it was derived from. -/
  root : Key
  secret : Key
  /-- The other side's ratchet public key in that shared secret. -/
  peer : Key
  /-- The length of the owner's chain before it. -/
  pn : Nat

namespace Origin

structure Valid (prim : Primitives Key Nonce) (drawn : List Key) (owner : Party) (pk : Key)
    (o : Origin Key) : Prop where
  owner : o.owner = owner
  pair : prim.publicKey o.sk = pk
  peerPair : ∃ peerSk, prim.publicKey peerSk = o.peer
  agreed : prim.x25519 o.sk o.peer = some o.secret
  pkDrawn : pk ∈ drawn
  peerDrawn : o.peer ∈ drawn

theorem Valid.mono {prim : Primitives Key Nonce} {drawn : List Key} {owner : Party} {o : Origin Key}
    (valid : o.Valid prim drawn owner pk) (drawnPk : Key) : o.Valid prim (drawnPk :: drawn) owner pk :=
  { valid with
    pkDrawn := mem_cons_of_mem _ valid.pkDrawn
    peerDrawn := mem_cons_of_mem _ valid.peerDrawn }

def chainStart (prim : Primitives Key Nonce) (o : Origin Key) : Key := (prim.hkdfRoot o.root o.secret).2

end Origin

section
variable (prim : Primitives Key Nonce) (origin : Key → Origin Key)

def headerAt (pk : Key) (n : Nat) : Header Key := ⟨pk, UInt32.ofNat (origin pk).pn, UInt32.ofNat n⟩

def messageKey (header : Header Key) : Key := keyAt prim ((origin header.dh).chainStart prim) header.n.toNat

def keptKey (header : Header Key) : Skipped Key := ⟨header.dh, header.n.toNat, messageKey prim origin header⟩

end

structure Lane (Key : Type) where
  pk : Key
  len : Nat

def Lane.headers (origin : Key → Origin Key) (lane : Lane Key) (nr : Nat) : List (Header Key) :=
  (List.range' nr (lane.len - nr)).map (headerAt origin lane.pk)

/-- One direction: the headers the receiver has passed, the chain it is receiving, and
the chain the sender has turned to since. -/
structure Flow (Key : Type) where
  passed : List (Header Key)
  current : Option (Lane Key)
  next : Option (Lane Key)

namespace Flow

/-- The headers sent that the receiver, at `nr` of the current chain, has not passed. -/
def pending (origin : Key → Origin Key) (f : Flow Key) (nr : Nat) : List (Header Key) :=
  (f.current.toList.flatMap fun lane => lane.headers origin nr) ++
    f.next.toList.flatMap fun lane => lane.headers origin 0

/-- The headers before number `n` of the next chain that the receiver has not passed. -/
def skippedTo (origin : Key → Origin Key) (f : Flow Key) (next : Lane Key) (nr n : Nat) : List (Header Key) :=
  (f.current.toList.flatMap fun lane => lane.headers origin nr) ++ (List.range' 0 n).map (headerAt origin next.pk)

def seen (f : Flow Key) : List Key := f.passed.map (·.dh) ++ f.current.toList.map (·.pk)

def keys (f : Flow Key) : List Key := f.seen ++ f.next.toList.map (·.pk)

variable {lane : Lane Key} {f : Flow Key}

theorem seen_of_passing {more : List (Header Key)} (current : f.current = some lane) (own : ∀ h ∈ more, h.dh = lane.pk)
    (seen : pk ∈ { f with passed := f.passed ++ more }.seen) : pk ∈ f.seen := by
  simp only [Flow.seen, map_append, mem_append, mem_map] at seen ⊢
  rcases seen with (earlier | ⟨h, passed, rfl⟩) | now
  · exact .inl earlier
  · refine .inr ⟨lane, ?_, (own h passed).symm⟩
    simp [current]
  · exact .inr now

def live (f : Flow Key) : Option (Lane Key) := f.next.or f.current

theorem lane_of_live (isLive : f.live = some lane) : f.current = some lane ∨ f.next = some lane := by
  cases next : f.next with
  | none => exact .inl (by simpa [live, next] using isLive)
  | some last => exact .inr (by simpa [live, next] using isLive)

def extend (f : Flow Key) : Flow Key :=
  match f.next with
  | some lane => { f with next := some { lane with len := lane.len + 1 } }
  | none => { f with current := f.current.map fun lane => { lane with len := lane.len + 1 } }

@[simp] theorem passed_extend (f : Flow Key) : f.extend.passed = f.passed := by
  unfold extend
  split <;> rfl

@[simp] theorem seen_extend (f : Flow Key) : f.extend.seen = f.seen := by
  unfold extend
  split
  · rfl
  · cases current : f.current <;> simp [seen, current]

@[simp] theorem keys_extend (f : Flow Key) : f.extend.keys = f.keys := by
  have seen := f.seen_extend
  unfold keys
  rw [seen]
  unfold extend
  split <;> rename_i next <;> simp [next]

theorem live_extend (f : Flow Key) : f.extend.live = f.live.map fun lane => { lane with len := lane.len + 1 } := by
  unfold extend
  split <;> rename_i next <;> simp [live, next]

theorem lane_extend (which : f.extend.current = some lane ∨ f.extend.next = some lane) :
    (f.current = some lane ∨ f.next = some lane) ∨
      ∃ before, f.live = some before ∧ lane = { before with len := before.len + 1 } := by
  unfold extend at which
  split at which
  · rename_i last next
    rcases which with current | extended
    · exact .inl (.inl current)
    · exact .inr ⟨last, by simp [live, next], (Option.some.inj extended).symm⟩
  rename_i next
  rcases which with extended | isNext
  · obtain ⟨before, current, rfl⟩ := Option.map_eq_some_iff.mp extended
    exact .inr ⟨before, by simp [live, next, current], rfl⟩
  · exact .inl (.inr isNext)

end Flow

theorem Lane.headers_succ (origin : Key → Origin Key) (lane : Lane Key) {nr : Nat} (reached : nr ≤ lane.len) :
    ({ lane with len := lane.len + 1 } : Lane Key).headers origin nr =
      lane.headers origin nr ++ [headerAt origin lane.pk lane.len] := by
  unfold Lane.headers
  have count : lane.len + 1 - nr = (lane.len - nr) + 1 := by omega
  have last : nr + (lane.len - nr) = lane.len := by omega
  simp only [count, range'_1_concat, last, map_append, map_singleton]

variable {lane : Lane Key} {origin : Key → Origin Key} {prim : Primitives Key Nonce} {f : Flow Key}

theorem Flow.pending_extend (origin : Key → Origin Key) {nr : Nat}
    (live : f.live = some lane) (reached : ∀ lane, f.current = some lane → nr ≤ lane.len) :
    f.extend.pending origin nr = f.pending origin nr ++ [headerAt origin lane.pk lane.len] := by
  unfold Flow.extend
  split
  · rename_i last next
    obtain rfl : last = lane := by simpa [Flow.live, next] using live
    simp [Flow.pending, next, last.headers_succ origin (Nat.zero_le _)]
  · rename_i next
    have current : f.current = some lane := by simpa [Flow.live, next] using live
    simp [Flow.pending, next, current, lane.headers_succ origin (reached lane current)]

theorem Lane.headers_split (origin : Key → Origin Key) (lane : Lane Key) {nr n : Nat}
    (reached : nr ≤ n) (short : n < lane.len) :
    lane.headers origin nr = (List.range' nr (n - nr)).map (headerAt origin lane.pk) ++
      headerAt origin lane.pk n :: lane.headers origin (n + 1) := by
  unfold Lane.headers
  rw [← map_cons, ← map_append]
  congr 1
  have whole : lane.len - nr = (n - nr) + (lane.len - n) := by omega
  have tail : lane.len - n = (lane.len - (n + 1)) + 1 := by omega
  have start : nr + 1 * (n - nr) = n := by omega
  rw [whole, ← range'_append, start, tail, range'_succ]

theorem mem_headers {nr : Nat} {h : Header Key} (listed : h ∈ lane.headers origin nr) :
    ∃ n, nr ≤ n ∧ n < lane.len ∧ h = headerAt origin lane.pk n := by
  obtain ⟨n, range, rfl⟩ := mem_map.mp listed
  have := mem_range'_1.mp range
  exact ⟨n, by omega, by omega, rfl⟩

theorem headerAt_toNat {n : Nat} (small : n < UInt32.size) : (headerAt origin pk n).n.toNat = n := by
  rw [headerAt, UInt32.toNat_ofNat', Nat.mod_eq_of_lt small]

theorem keptKey_headerAt {n : Nat} (small : n < UInt32.size) : keptKey prim origin (headerAt origin pk n) =
      kept prim pk ((origin pk).chainStart prim) n := by
  simp only [keptKey, messageKey, headerAt_toNat small, kept]
  rfl

theorem map_kept_range {start count : Nat} (small : start + count ≤ UInt32.size) :
    (List.range' start count).map (kept prim pk ((origin pk).chainStart prim)) =
      ((List.range' start count).map (headerAt origin pk)).map (keptKey prim origin) := by
  rw [map_map]
  apply map_congr_left
  intro n range
  have := mem_range'_1.mp range
  exact (keptKey_headerAt (by omega)).symm

variable {origin' : Key → Origin Key}

theorem Lane.headers_congr (agree : origin' lane.pk = origin lane.pk)
    (nr : Nat) : lane.headers origin' nr = lane.headers origin nr := by
  apply map_congr_left
  intro n _
  simp only [headerAt, agree]

theorem Flow.pending_congr (agree : ∀ pk ∈ f.keys, origin' pk = origin pk) (nr : Nat) :
    f.pending origin' nr = f.pending origin nr := by
  unfold Flow.pending
  congr 1
  · apply flatMap_congr
    intro lane current
    exact Lane.headers_congr (agree _ (mem_append_left _ (mem_append_right _ (mem_map_of_mem current)))) nr
  · apply flatMap_congr
    intro lane next
    exact Lane.headers_congr (agree _ (mem_append_right _ (mem_map_of_mem next))) 0

structure Sends (prim : Primitives Key Nonce) (origin : Key → Origin Key) (drawn : List Key)
    (ad : Key) (owner : Party) (s : Ratchet Key) (sent : List (Sent Key)) (f : Flow Key) :
    Prop where
  unique : (sent.map (·.header)).Nodup
  shape : ∀ m ∈ sent, m.header = headerAt origin m.header.dh m.header.n.toNat
  sealed : ∀ m ∈ sent, m.ct = ciphertext prim (messageKey prim origin m.header) ad m.header m.pt
  numbered : ∀ m ∈ sent, m.header.dh = s.dhsPk → m.header.n.toNat < s.ns
  valid : ∀ pk ∈ f.keys, (origin pk).Valid prim drawn owner pk
  apart : ∀ pk ∈ f.keys, (origin pk).peer ≠ s.dhsPk ∧ s.dhr ≠ some pk
  live : ∀ lane, f.live = some lane → s.dhsPk = lane.pk ∧ s.ns = lane.len ∧ s.pn = (origin lane.pk).pn ∧
    s.cks = some (prim.hmacTwo^[lane.len] ((origin lane.pk).chainStart prim))
  idle : f.live = none → s.cks = none ∧ s.ns = 0
  bounded : ∀ lane, f.current = some lane ∨ f.next = some lane → lane.len < UInt32.size

theorem turn_apart (ideal : prim.Ideal) {drawn : List Key} {owner : Party} {r : Ratchet Key} {dhOut : Key}
    {o : Origin Key} {n : Nat} (pair : r.dhsPk = prim.publicKey r.dhsSk) (valid : o.Valid prim drawn owner pk)
    (apart : o.peer ≠ r.dhsPk) (agreed : prim.x25519 r.dhsSk pk = some dhOut) :
    keyAt prim (prim.hkdfRoot r.rk dhOut).2 n ≠ keyAt prim (o.chainStart prim) n := by
  intro same
  obtain ⟨-, sameSecret⟩ := ideal.hkdfRoot_injective (keyAt_injective ideal n same)
  obtain ⟨peerSk, peerPair⟩ := valid.peerPair
  apply apart
  rw [← peerPair, pair]
  apply ideal.x25519_injective o.sk
  rw [peerPair, valid.agreed, ← sameSecret, ← agreed, ← valid.pair]
  exact ideal.x25519_comm _ _

theorem Sends.eq_of_position {drawn : List Key} {ad : Key} {owner : Party} {s : Ratchet Key} {sent : List (Sent Key)}
    {m m' : Sent Key} (sends : Sends prim origin drawn ad owner s sent f) (sentHere : m ∈ sent) (sentHere' : m' ∈ sent)
    (dh : m.header.dh = m'.header.dh) (n : m.header.n.toNat = m'.header.n.toNat) : m = m' := by
  apply inj_on_of_nodup_map sends.unique sentHere sentHere'
  rw [sends.shape m sentHere, sends.shape m' sentHere', dh, n]

section
variable [DecidableEq Key]

def missing (delivered : List (Sent Key)) (passed : List (Header Key)) : List (Header Key) :=
  passed.filter (· ∉ delivered.map (·.header))

structure Hears (prim : Primitives Key Nonce) (origin : Key → Origin Key) (r : Ratchet Key)
    (sent delivered : List (Sent Key)) (f : Flow Key) : Prop where
  headers : sent.map (·.header) = f.passed ++ f.pending origin r.nr
  heard : ∀ m ∈ delivered, m ∈ sent ∧ m.header ∈ f.passed
  kept : r.skipped.entries.Perm ((missing delivered f.passed).map (keptKey prim origin))
  receiving : ∀ lane, f.current = some lane →
    Ratchet.Receives prim r lane.pk ((origin lane.pk).chainStart prim) ∧ r.nr ≤ lane.len ∧
    ∀ h ∈ f.passed, h.dh = lane.pk → h.n.toNat < r.nr
  silent : f.current = none → r.ckr = none ∧ r.nr = 0 ∧ f.passed = []
  ahead : ∀ lane, f.next = some lane → lane.pk ∉ f.seen ∧ r.dhr ≠ some lane.pk
  apart : ∀ pk ∈ f.seen, (origin pk).peer ≠ r.dhsPk

/-- How the side that is behind derives the other's newest chain. -/
structure Tie (prim : Primitives Key Nonce) (origin : Key → Origin Key) (ahead behind : Ratchet Key)
    (f : Flow Key) (lane : Lane Key) : Prop where
  next : f.next = some lane
  root : behind.rk = (origin lane.pk).root
  peer : behind.dhsPk = (origin lane.pk).peer
  rk : ahead.rk = (prim.hkdfRoot (origin lane.pk).root (origin lane.pk).secret).1
  sk : ahead.dhsSk = (origin lane.pk).sk
  pn : (origin lane.pk).pn = f.current.elim 0 (·.len)

structure Inv (prim : Primitives Key Nonce) (w : World Key Nonce) (ad : Key)
    (origin : Key → Origin Key) (flow : Party → Flow Key) (ahead : Party) : Prop where
  ads : ∀ p, (w.ratchet p).ad = ad
  pair : ∀ p, (w.ratchet p).dhsPk = prim.publicKey (w.ratchet p).dhsSk
  pkDrawn : ∀ p, (w.ratchet p).dhsPk ∈ w.drawn
  dhrDrawn : ∀ p pk, (w.ratchet p).dhr = some pk → pk ∈ w.drawn
  sends : ∀ p, Sends prim origin w.drawn ad p (w.ratchet p) (w.sent p) (flow p)
  hears : ∀ p, Hears prim origin (w.ratchet p) (w.sent p.other) (w.delivered p) (flow p.other)
  log : ∀ entry, entry ∈ w.log ↔ ∃ p, ∃ m ∈ w.sent p,
    entry = logEntry prim (messageKey prim origin m.header) ad m.header m.pt
  tie : ∃ lane, Tie prim origin (w.ratchet ahead) (w.ratchet ahead.other) (flow ahead) lane
  settled : (flow ahead.other).next = none

variable {prim : Primitives Key Nonce} {origin : Key → Origin Key} {r : Ratchet Key}
  {sent delivered : List (Sent Key)} {w : World Key Nonce} {flow : Party → Flow Key}
  {ahead : Party} {f : Flow Key}

theorem Hears.placed (hears : Hears prim origin r sent delivered f) :
    r.ckr = none ∨ ∃ pk start, Ratchet.Receives prim r pk start := by
  cases current : f.current with
  | none => exact .inl (hears.silent current).1
  | some lane => exact .inr ⟨_, _, (hears.receiving lane current).1⟩

variable {m : Sent Key} (hears : Hears prim origin r sent delivered f)

include hears

theorem Hears.mem_keys (sentHere : m ∈ sent) : m.header.dh ∈ f.keys := by
  have listed : m.header ∈ f.passed ++ f.pending origin r.nr := by
    rw [← hears.headers]
    exact mem_map_of_mem sentHere
  simp only [Flow.pending, Lane.headers, mem_append, mem_flatMap, Option.mem_toList, mem_map] at listed
  simp only [Flow.keys, Flow.seen, mem_append, mem_map, Option.mem_toList]
  rcases listed with passed | ⟨lane, current, n, -, same⟩ | ⟨lane, next, n, -, same⟩
  · exact .inl (.inl ⟨_, passed, rfl⟩)
  · exact .inl (.inr ⟨lane, current, by rw [← same]; rfl⟩)
  · exact .inr ⟨lane, next, by rw [← same]; rfl⟩

theorem Hears.of_kept {entry : Skipped Key} (held : entry ∈ r.skipped.entries) :
    ∃ m ∈ sent, m.header ∈ f.passed ∧ m.header ∉ delivered.map (·.header) ∧ entry = keptKey prim origin m.header := by
  have listed := hears.kept.mem_iff.mp held
  simp only [missing, mem_map, mem_filter, decide_eq_true_eq] at listed
  obtain ⟨h, ⟨passed, absent⟩, rfl⟩ := listed
  have sentHeader : h ∈ sent.map (·.header) := by
    rw [hears.headers]
    exact mem_append_left _ passed
  obtain ⟨m, sentHere, rfl⟩ := mem_map.mp sentHeader
  refine ⟨m, sentHere, passed, ?_, rfl⟩
  simpa using absent

omit hears

variable {ad : Key}

theorem Inv.refuses_reflected (ideal : prim.Ideal)
    (inv : Inv prim w ad origin flow ahead) {p : Party} (sentHere : m ∈ w.sent p)
    (source : Ratchet.KeySource prim (w.ratchet p) m.header (messageKey prim origin m.header)) :
    False := by
  have mine : m.header.dh ∈ (flow p).keys := by
    have hears := inv.hears p.other
    rw [Party.other_other] at hears
    exact hears.mem_keys sentHere
  have valid := (inv.sends p).valid _ mine
  obtain ⟨peerApart, dhrApart⟩ := (inv.sends p).apart _ mine
  generalize sourceKey : messageKey prim origin m.header = key at source
  cases source with
  | stored entry held dh n =>
    obtain ⟨m', sentThere, -, -, rfl⟩ := (inv.hears p).of_kept held
    have theirs := ((inv.sends p.other).valid _ ((inv.hears p).mem_keys sentThere)).owner
    rw [show m'.header.dh = m.header.dh from dh, valid.owner] at theirs
    exact Party.other_ne p theirs.symm
  | chain start receives reached => exact dhrApart receives.dhr
  | turn dhOut differs agreed =>
    exact turn_apart ideal (inv.pair p) valid peerApart agreed sourceKey.symm

theorem Inv.refuses_delivered (ideal : prim.Ideal) (inv : Inv prim w ad origin flow ahead) {p : Party}
    (arrived : m ∈ w.delivered p)
    (source : Ratchet.KeySource prim (w.ratchet p) m.header (messageKey prim origin m.header)) : False := by
  obtain ⟨sentHere, passed⟩ := (inv.hears p).heard m arrived
  have seen : m.header.dh ∈ (flow p.other).seen := mem_append_left _ (mem_map_of_mem passed)
  have valid := (inv.sends p.other).valid _ (mem_append_left _ seen)
  generalize sourceKey : messageKey prim origin m.header = key at source
  cases source with
  | stored entry held dh n =>
    obtain ⟨m', sentThere, -, absent, rfl⟩ := (inv.hears p).of_kept held
    have same := (inv.sends p.other).eq_of_position sentThere sentHere dh n
    exact absent (mem_map_of_mem (same ▸ arrived))
  | chain start receives reached =>
    cases current : (flow p.other).current with
    | none =>
      have nothing := ((inv.hears p).silent current).2.2
      simp [nothing] at passed
    | some lane =>
      obtain ⟨placed, -, behind⟩ := (inv.hears p).receiving lane current
      have samePk := Option.some.inj (receives.dhr.symm.trans placed.dhr)
      have := behind _ passed samePk
      omega
  | turn dhOut differs agreed =>
    exact turn_apart ideal (inv.pair p) valid ((inv.hears p).apart _ seen) agreed sourceKey.symm

variable [DecidableEq Nonce]

theorem Inv.sealed_of_open (ideal : prim.Ideal) (inv : Inv prim w ad origin flow ahead) {key : Key}
    {header : Header Key} {ct pt : List UInt8} (opened : openMessage prim w.log key ad header ct = some pt) :
    ∃ q, ∃ m ∈ w.sent q, m.header = header ∧ m.ct = ct ∧ key = messageKey prim origin m.header := by
  obtain ⟨logged, sealed⟩ := mem_of_openMessage opened
  obtain ⟨q, m, sentHere, entry⟩ := (inv.log _).mp logged
  obtain ⟨rfl, rfl, rfl⟩ := logEntry_injective ideal entry
  exact ⟨q, m, sentHere, rfl, ((inv.sends q).sealed m sentHere).trans sealed, rfl⟩

theorem Inv.refuses (ideal : prim.Ideal) (inv : Inv prim w ad origin flow ahead) {p : Party} {fresh : Key}
    {header : Header Key} {ct : List UInt8} (stale : ∀ m ∈ w.genuine p header ct, m ∈ w.delivered p) :
    (w.ratchet p).decryptInto prim w.log fresh header ct = none := by
  cases done : (w.ratchet p).decryptInto prim w.log fresh header ct with
  | none => rfl
  | some result =>
    obtain ⟨key, source, opened⟩ := keySource_of_decryptInto (inv.hears p).placed done
    rw [inv.ads p] at opened
    obtain ⟨q, m, sentHere, rfl, rfl, rfl⟩ := inv.sealed_of_open ideal opened
    rcases Party.eq_or_eq_other q p with rfl | rfl
    · exact (inv.refuses_reflected ideal sentHere source).elim
    · have arrived := stale m (by simp [World.genuine, sentHere])
      exact (inv.refuses_delivered ideal arrived source).elim

end

end OpenChime.Crypto
