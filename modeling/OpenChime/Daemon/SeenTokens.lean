import Mathlib.Algebra.Group.Nat.Defs
import Mathlib.Data.Finset.Card
import OpenChime.Lib.Slots

/-! The tokens a sign-in takes once (`seen_jti_claim` of `daemon/dbwriter.c`), behind the checks
`oc_jwt_verify` of `daemon/jwt.c` ends with. -/

set_option autoImplicit false

namespace OpenChime.Daemon.SeenTokens

open List Slots

def seenJtiCap : Nat := 4096
def leewaySecs : UInt64 := 60
def maxLifetimeSecs : UInt64 := 300

/-- What is kept of a token; a slot whose id is empty is free. -/
structure Entry where
  jti : List UInt8
  exp : UInt64
  deriving DecidableEq

structure Presented extends Entry where
  iat : UInt64
  nbf : UInt64
  ms : UInt64

def Presented.now (p : Presented) : UInt64 := p.ms / 1000

/-- The end of `oc_jwt_verify`. -/
def verify (p : Presented) : Bool :=
  !(p.jti.isEmpty || p.exp < p.iat || p.exp - p.iat > maxLifetimeSecs || p.now > p.exp + leewaySecs ||
    p.iat > p.now + leewaySecs || p.nbf > p.now + leewaySecs)

def Entry.live (e : Entry) (now : UInt64) : Bool := !(e.exp + 120 < now)

/-- The loop of `seen_jti_claim`: the slots it leaves, and whether it met the id. -/
def sweep (jti : List UInt8) (now : UInt64) : List (Option Entry) → List (Option Entry) × Bool
  | [] => ([], false)
  | cell :: cells =>
    match cell.filter (·.live now) with
    | none => ((none :: (sweep jti now cells).1), (sweep jti now cells).2)
    | some e =>
      if e.jti = jti then (cell :: cells, true)
      else (cell :: (sweep jti now cells).1, (sweep jti now cells).2)

/-- The slot it takes, `free_slot`, is the first that is free behind the loop. -/
def seenJtiClaim (cells : List (Option Entry)) (e : Entry) (now : UInt64) : Bool × List (Option Entry) :=
  match sweep e.jti now cells with
  | (after, true) => (false, after)
  | (after, false) =>
    match putFirst e after with
    | none => (false, after)
    | some taken => (true, taken)

structure World where
  accepted : List Entry
  cells : List (Option Entry)

def start : World := ⟨[], replicate seenJtiCap none⟩

@[simp] def World.accepts (w : World) (p : Presented) : Bool := (seenJtiClaim w.cells p.toEntry p.now).1

@[simp] def World.present (w : World) (p : Presented) : World where
  accepted := if w.accepts p then w.accepted ++ [p.toEntry] else w.accepted
  cells := (seenJtiClaim w.cells p.toEntry p.now).2

def run (presented : List Presented) : World := presented.foldl World.present start

/-- The table holds ids that were accepted, each once, and all that are not past their time. -/
structure Good (w : World) (now : UInt64) : Prop where
  length : w.cells.length = seenJtiCap
  held : ∀ e ∈ w.accepted, e.live now → e ∈ w.cells.filterMap id
  taken : w.cells.filterMap id ⊆ w.accepted
  once : ((w.cells.filterMap id).map Entry.jti).Nodup
  bounded : ∀ e ∈ w.accepted, e.exp.toNat + 120 < 2 ^ 64

variable {jti : List UInt8} {now : UInt64}

structure Swept (jti : List UInt8) (now : UInt64) (cells after : List (Option Entry)) (seen : Bool) : Prop where
  length : after.length = cells.length
  fewer : after.filterMap id <+ cells.filterMap id
  kept : (cells.filterMap id).filter (·.live now) <+ after.filterMap id
  met : if seen then ∃ e ∈ after.filterMap id, e.jti = jti
    else ∀ e ∈ after.filterMap id, e.jti ≠ jti ∧ e.live now

theorem swept_sweep (cells : List (Option Entry)) :
    Swept jti now cells (sweep jti now cells).1 (sweep jti now cells).2 := by
  fun_induction sweep jti now cells with
  | case1 => exact ⟨rfl, .refl _, .refl _, fun _ => nofun⟩
  | case2 cell cells stale ih =>
    obtain ⟨length, fewer, kept, met⟩ := ih
    cases cell with
    | none => exact ⟨by simp [length], by simpa using fewer, by simpa using kept, by simpa using met⟩
    | some e =>
      have past : ¬e.live now := by simpa [Option.filter] using stale
      exact ⟨by simp [length], by simpa using fewer.cons e, by simpa [past] using kept, by simpa using met⟩
  | case3 cell cells e isLive isHere =>
    obtain ⟨rfl, -⟩ := Option.filter_eq_some_iff.mp isLive
    exact ⟨rfl, .refl _, filter_sublist, e, mem_cons_self, isHere⟩
  | case4 cell cells e isLive isOther ih =>
    obtain ⟨rfl, live⟩ := Option.filter_eq_some_iff.mp isLive
    obtain ⟨length, fewer, kept, met⟩ := ih
    refine ⟨by simp [length], by simpa using fewer.cons_cons e, by simpa [live] using kept.cons_cons e, ?_⟩
    split
    · next seen =>
      obtain ⟨other, isHeld, same⟩ := (if_pos seen).mp met
      exact ⟨other, mem_cons_of_mem _ isHeld, same⟩
    · next unseen => exact forall_mem_cons.mpr ⟨⟨isOther, live⟩, (if_neg unseen).mp met⟩

variable {w : World} {p : Presented} {seen : Bool} {after : List (Option Entry)}

theorem Good.swept (good : Good w now) (swept : Swept jti now w.cells after seen) :
    Good { w with cells := after } now where
  length := swept.length.trans good.length
  held e isAccepted live := swept.kept.subset (mem_filter.mpr ⟨good.held e isAccepted live, live⟩)
  taken := Subset.trans swept.fewer.subset good.taken
  once := good.once.sublist (swept.fewer.map _)
  bounded := good.bounded

theorem Good.take {e : Entry} (good : Good w now) (put : putFirst e w.cells = some after)
    (bounded : e.exp.toNat + 120 < 2 ^ 64) (new : ∀ other ∈ w.cells.filterMap id, other.jti ≠ e.jti) :
    Good ⟨w.accepted ++ [e], after⟩ now := by
  have perm := putFirst_perm put
  refine ⟨(length_putFirst put).trans good.length, fun other isAccepted live => ?_, fun other isHeld => ?_, ?_, ?_⟩
  · rcases mem_append.mp isAccepted with old | isNew
    · exact perm.mem_iff.mpr (mem_cons_of_mem _ (good.held other old live))
    · exact perm.mem_iff.mpr (mem_cons.mpr (.inl (mem_singleton.mp isNew)))
  · rcases mem_cons.mp (perm.mem_iff.mp isHeld) with rfl | old
    · exact mem_concat_self
    · exact mem_append_left _ (good.taken old)
  · rw [(perm.map Entry.jti).nodup_iff, map_cons, nodup_cons]
    refine ⟨fun isHeld => ?_, good.once⟩
    obtain ⟨other, here, same⟩ := mem_map.mp isHeld
    exact new other here same
  · exact forall_mem_append.mpr ⟨good.bounded, forall_mem_singleton.mpr bounded⟩

theorem verify_times (verified : verify p) : p.exp.toNat + 120 < 2 ^ 64 ∧ p.now.toNat ≤ p.exp.toNat + 60 := by
  have clock := p.ms.toNat_lt
  have expiry := p.exp.toNat_lt
  simp [verify, Presented.now, leewaySecs, maxLifetimeSecs, UInt64.lt_iff_toNat_lt, UInt64.toNat_sub] at verified ⊢
  omega

/-- Where an id is refused that was never accepted, every slot is taken. -/
structure Ends (w : World) (p : Presented) : Prop where
  good : Good (w.present p) p.now
  accepts : w.accepts p → ∀ e ∈ w.accepted, e.jti = p.jti → ¬e.live p.now
  refuses : ¬w.accepts p → (∀ e ∈ w.accepted, e.jti ≠ p.jti) →
    ∃ entries ⊆ w.accepted, entries.length = seenJtiCap ∧ (entries.map Entry.jti).Nodup ∧ ∀ e ∈ entries, e.live p.now

theorem Good.ends (good : Good w p.now) (bounded : p.exp.toNat + 120 < 2 ^ 64) : Ends w p := by
  have swept := @swept_sweep p.jti p.now w.cells
  rcases isSwept : sweep p.jti p.now w.cells with ⟨after, seen⟩
  rw [isSwept] at swept
  have kept := good.swept swept
  have met := swept.met
  cases seen with
  | true =>
    have claim : seenJtiClaim w.cells p.toEntry p.now = (false, after) := by simp only [seenJtiClaim, isSwept]
    obtain ⟨e, isHeld, same⟩ := met
    refine ⟨by simpa [claim] using kept, by simp [claim], fun _ new => ?_⟩
    exact absurd same (new e (kept.taken isHeld))
  | false =>
    cases put : putFirst p.toEntry after with
    | none =>
      have claim : seenJtiClaim w.cells p.toEntry p.now = (false, after) := by simp only [seenJtiClaim, isSwept, put]
      refine ⟨by simpa [claim] using kept, by simp [claim], fun _ _ => ?_⟩
      refine ⟨after.filterMap id, kept.taken, ?_, kept.once, fun e isHeld => (met e isHeld).2⟩
      refine le_antisymm ((length_filterMap_le ..).trans kept.length.le) (kept.length ▸ not_lt.mp fun room => ?_)
      obtain ⟨cells, done⟩ := exists_putFirst p.toEntry room
      simp [put] at done
    | some cells =>
      have claim : seenJtiClaim w.cells p.toEntry p.now = (true, cells) := by simp only [seenJtiClaim, isSwept, put]
      refine ⟨?_, fun _ e isAccepted same live => ?_, by simp [claim]⟩
      · simpa [claim] using kept.take put bounded fun e isHeld => (met e isHeld).1
      · exact (met e (kept.held e isAccepted live)).1 same

theorem Good.later {later : UInt64} (good : Good w now) (forward : now ≤ later) : Good w later :=
  { good with held := fun e isAccepted live => good.held e isAccepted (by
      simp only [Entry.live, UInt64.lt_iff_toNat_lt, UInt64.le_iff_toNat_le, Bool.not_eq_true', decide_eq_false_iff_not]
        at *
      omega) }

theorem now_le {p q : Presented} (le : p.ms ≤ q.ms) : p.now ≤ q.now := by
  exact Nat.div_le_div_right le

theorem good_run {before : List Presented} (times : (before ++ [p]).Pairwise (·.ms ≤ ·.ms))
    (verified : ∀ q ∈ before, verify q) : Good (run before) p.now := by
  induction before using reverseRecOn generalizing p with
  | nil => exact ⟨length_replicate, nofun, by simp [run, start], by simp [run, start], nofun⟩
  | append_singleton before q ih =>
    obtain ⟨earlier, -, apart⟩ := pairwise_append.mp times
    obtain ⟨verified, isVerified⟩ := forall_mem_append.mp verified
    rw [run, foldl_append]
    have ends := (ih earlier verified).ends (verify_times (isVerified q mem_cons_self)).1
    exact ends.good.later (now_le (apart q (by simp) p mem_cons_self))

/-- An id is accepted again only of a token that expires later, and one never accepted is refused
only where as many ids as there are slots are kept. -/
theorem accepted_once (before : List Presented) (p : Presented) (times : (before ++ [p]).Pairwise (·.ms ≤ ·.ms))
    (verified : ∀ q ∈ before ++ [p], verify q) :
    ((run before).accepts p → ∀ e ∈ (run before).accepted, e.jti = p.jti → e.exp.toNat + 60 < p.exp.toNat) ∧
      (¬(run before).accepts p → (∀ e ∈ (run before).accepted, e.jti ≠ p.jti) →
        ∃ ids : Finset (List UInt8), ids.card = seenJtiCap ∧
          ∀ jti ∈ ids, ∃ e ∈ (run before).accepted, e.jti = jti ∧ p.now.toNat ≤ e.exp.toNat + 120) := by
  obtain ⟨others, isVerified⟩ := forall_mem_append.mp verified
  have good := good_run times others
  obtain ⟨bounded, inTime⟩ := verify_times (isVerified p mem_cons_self)
  obtain ⟨-, accepts, refuses⟩ := good.ends bounded
  have live (e : Entry) (isAccepted : e ∈ (run before).accepted) : e.live p.now ↔ p.now.toNat ≤ e.exp.toNat + 120 := by
    have fits := good.bounded e isAccepted
    simp only [Entry.live, UInt64.lt_iff_toNat_lt, UInt64.toNat_add, Bool.not_eq_true', decide_eq_false_iff_not,
      UInt64.toNat_ofNat]
    omega
  refine ⟨fun accepted e isAccepted same => ?_, fun refused new => ?_⟩
  · have past := accepts accepted e isAccepted same
    rw [live e isAccepted] at past
    omega
  · obtain ⟨entries, taken, length, once, all⟩ := refuses refused new
    refine ⟨(entries.map Entry.jti).toFinset, by rw [toFinset_card_of_nodup once, length_map, length], fun jti isId =>
      ?_⟩
    obtain ⟨e, isEntry, same⟩ := mem_map.mp (mem_toFinset.mp isId)
    exact ⟨e, taken isEntry, same, (live e (taken isEntry)).mp (all e isEntry)⟩

/-- The id comes again, in a token that expires later, when the first has been forgotten. -/
theorem accepted_once_later : (run [⟨⟨[1], 60⟩, 0, 0, 0⟩]).accepts ⟨⟨[1], 300⟩, 200, 200, 200000⟩ ∧
    ∃ e ∈ (run [⟨⟨[1], 60⟩, 0, 0, 0⟩]).accepted, e.jti = [1] ∧ e.exp.toNat + 60 < 300 := by
  have accepted : (run [⟨⟨[1], 60⟩, 0, 0, 0⟩]).accepts ⟨⟨[1], 300⟩, 200, 200, 200000⟩ := by decide +kernel
  have isAccepted : ⟨[1], 60⟩ ∈ (run [⟨⟨[1], 60⟩, 0, 0, 0⟩]).accepted := by decide +kernel
  exact ⟨accepted, _, isAccepted, rfl, (accepted_once _ _ (by simp) (by decide)).1 accepted _ isAccepted rfl⟩

/-- Two tokens of one id: the second is presented when the first has been forgotten. -/
theorem accepted_twice : (∀ p ∈ [(⟨⟨[1], 60⟩, 0, 0, 0⟩ : Presented), ⟨⟨[1], 300⟩, 200, 200, 200000⟩], verify p) ∧
    (run []).accepts ⟨⟨[1], 60⟩, 0, 0, 0⟩ ∧
    (run [⟨⟨[1], 60⟩, 0, 0, 0⟩]).accepts ⟨⟨[1], 300⟩, 200, 200, 200000⟩ := by
  refine ⟨by decide, by decide +kernel, by decide +kernel⟩

end OpenChime.Daemon.SeenTokens
