import Mathlib.Data.Fintype.Pi
import OpenChime.Lib.RingWindow

/-! The replay window of call packets (`shared/e2e_sframe.c`). -/

set_option autoImplicit false

namespace OpenChime.Crypto

open List Option BitVec

def replayWindow : Nat := 1024

def replayWords : Nat := replayWindow / 64

theorem word_lt (ctr : BitVec 64) : ctr.toNat % replayWindow / 64 < replayWords := by
  have small : ctr.toNat % replayWindow < 1024 := Nat.mod_lt _ (by decide)
  have words : replayWords = 16 := rfl
  omega

structure SframeReplay where
  top : BitVec 64
  seen : Fin replayWords → BitVec 64
  any : Bool

namespace SframeReplay

def word (ctr : BitVec 64) : Fin replayWords := ⟨ctr.toNat % replayWindow / 64, word_lt ctr⟩

def offset (ctr : BitVec 64) : Nat := ctr.toNat % replayWindow % 64

def clear (seen : Fin replayWords → BitVec 64) (ctr : BitVec 64) : Fin replayWords → BitVec 64 :=
  Function.update seen (word ctr) (seen (word ctr) &&& ~~~(1#64 <<< offset ctr))

def put (seen : Fin replayWords → BitVec 64) (ctr : BitVec 64) : Fin replayWords → BitVec 64 :=
  Function.update seen (word ctr) (seen (word ctr) ||| 1#64 <<< offset ctr)

def bit (w : SframeReplay) (ctr : BitVec 64) : Bool := (w.seen (word ctr) >>> offset ctr) &&& 1#64 = 1#64

def replayOk (w : SframeReplay) (ctr : BitVec 64) : Bool :=
  if !w.any ∨ ctr > w.top then true
  else if (w.top - ctr).toNat ≥ replayWindow then false
  else !w.bit ctr

/-- The loop that clears the slots from `c` up to `ctr`. Its counter wraps as the source's
does, so it may not end: `none` when the fuel runs out. -/
def slide : Nat → BitVec 64 → BitVec 64 → (Fin replayWords → BitVec 64) → Option (Fin replayWords → BitVec 64)
  | 0, _, _, _ => none
  | fuel + 1, c, ctr, seen => if c ≤ ctr then slide fuel (c + 1) ctr (clear seen c) else some seen

def replayMark (fuel : Nat) (w : SframeReplay) (ctr : BitVec 64) : Option SframeReplay :=
  if !w.any then some { top := ctr, seen := put (fun _ => 0) ctr, any := true }
  else if ctr > w.top then
    if (ctr - w.top).toNat ≥ replayWindow then some { w with top := ctr, seen := put (fun _ => 0) ctr }
    else (slide fuel (w.top + 1) ctr w.seen).map fun seen => { w with top := ctr, seen := put seen ctr }
  else if (w.top - ctr).toNat ≥ replayWindow then some w
  else some { w with seen := put w.seen ctr }

end SframeReplay

structure Receiver where
  window : SframeReplay
  accepted : List (BitVec 64)

namespace Receiver

def start : Receiver := ⟨⟨0, fun _ => 0, false⟩, []⟩

def receive (fuel : Nat) (r : Receiver) (ctr : BitVec 64) : Option Receiver :=
  if r.window.replayOk ctr then
    (r.window.replayMark fuel ctr).map fun window => ⟨window, r.accepted ++ [ctr]⟩
  else some r

def receiveAll (fuel : Nat) (counters : List (BitVec 64)) : Option Receiver := counters.foldlM (receive fuel) start

end Receiver

def newest (accepted : List (BitVec 64)) : Option Nat := (accepted.map BitVec.toNat).max?

def Accepts (accepted : List (BitVec 64)) (ctr : BitVec 64) : Prop :=
  ctr ∉ accepted ∧ ∀ top ∈ newest accepted, top < ctr.toNat + replayWindow

instance (accepted : List (BitVec 64)) (ctr : BitVec 64) : Decidable (Accepts accepted ctr) :=
  inferInstanceAs (Decidable (_ ∧ _))

def judged (counters : List (BitVec 64)) : List (BitVec 64) :=
  counters.foldl (fun accepted ctr => if Accepts accepted ctr then accepted ++ [ctr] else accepted) []

/-- The packets are handled, no counter is accepted twice, and each is accepted exactly when
it is new and inside the window. -/
def Exact (fuel : Nat) (counters : List (BitVec 64)) : Prop :=
  ∃ last, Receiver.receiveAll fuel counters = some last ∧ last.accepted.Nodup ∧
    ∀ front ctr back, counters = front ++ ctr :: back → ∃ r, Receiver.receiveAll fuel front = some r ∧
        (r.window.replayOk ctr = true ↔ Accepts r.accepted ctr)

def Stalls (accepted : List (BitVec 64)) (ctr : BitVec 64) : Prop :=
  ctr = allOnes 64 ∧ ∃ top ∈ newest accepted, 2 ^ 64 - 1 < top + replayWindow ∧ top ≠ 2 ^ 64 - 1

def NoStall (counters : List (BitVec 64)) : Prop :=
  ∀ front ctr back, counters = front ++ ctr :: back → ¬Stalls (judged front) ctr

namespace SframeReplay

def ring (seen : Fin replayWords → BitVec 64) (i : Nat) : Bool :=
  if here : i / 64 < replayWords then (seen ⟨i / 64, here⟩).getLsbD (i % 64) else false

theorem ring_word (seen : Fin replayWords → BitVec 64) (ctr : BitVec 64) :
    ring seen (ctr.toNat % replayWindow) = (seen (word ctr)).getLsbD (offset ctr) :=
  dif_pos (word_lt ctr)

theorem and_one_eq_one (x : BitVec 64) (k : Nat) : ((x >>> k) &&& 1#64 = 1#64) ↔ x.getLsbD k = true := by
  rw [← toNat_inj, toNat_and, toNat_ushiftRight, toNat_ofNat,
    getLsbD, Nat.testBit_eq_decide_div_mod_eq, Nat.shiftRight_eq_div_pow]
  simp [Nat.and_one_is_mod]

theorem bit_eq (w : SframeReplay) (ctr : BitVec 64) : w.bit ctr = ring w.seen (ctr.toNat % replayWindow) := by
  rw [ring_word, Bool.eq_iff_iff, ← and_one_eq_one]
  exact decide_eq_true_iff

variable {ctr : BitVec 64}

theorem ring_update {seen : Fin replayWords → BitVec 64} {new : BitVec 64}
    {value : Bool} (there : new.getLsbD (offset ctr) = value)
    (others : ∀ k < 64, k ≠ offset ctr → new.getLsbD k = (seen (word ctr)).getLsbD k) (i : Nat) :
    ring (Function.update seen (word ctr) new) i = if i = ctr.toNat % replayWindow then value else ring seen i := by
  split
  · next here =>
    rw [here, ring_word, Function.update_self, there]
  next apart =>
  unfold ring
  split
  · next inside =>
    by_cases same : (⟨i / 64, inside⟩ : Fin replayWords) = word ctr
    · have index : i / 64 = ctr.toNat % replayWindow / 64 := congrArg Fin.val same
      rw [same, Function.update_self]
      refine others _ (Nat.mod_lt _ (by decide)) ?_
      intro sameBit
      unfold offset at sameBit
      omega
    · rw [Function.update_of_ne same]
  · rfl

theorem offset_lt (ctr : BitVec 64) : offset ctr < 64 := Nat.mod_lt _ (by decide)

theorem getLsbD_other {k : Nat} (apart : k ≠ offset ctr) : (1#64 <<< offset ctr).getLsbD k = false := by
  simp
  omega

theorem ring_clear (seen : Fin replayWords → BitVec 64) (ctr : BitVec 64) (i : Nat) :
    ring (clear seen ctr) i = if i = ctr.toNat % replayWindow then false else ring seen i := by
  apply ring_update
  · simp [offset_lt ctr]
  · intro k inside apart
    rw [getLsbD_and, getLsbD_not, getLsbD_other apart]
    simp [inside]

theorem ring_put (seen : Fin replayWords → BitVec 64) (ctr : BitVec 64) (i : Nat) :
    ring (put seen ctr) i = if i = ctr.toNat % replayWindow then true else ring seen i := by
  apply ring_update
  · simp [offset_lt ctr]
  · intro k inside apart
    rw [getLsbD_or, getLsbD_other apart, Bool.or_false]

theorem ring_zero (i : Nat) : ring (fun _ => 0) i = false := by
  unfold ring
  split <;> simp

theorem toNat_succ {c : BitVec 64} (notLast : c.toNat < 2 ^ 64 - 1) : (c + 1).toNat = c.toNat + 1 := by
  have one : (1 : BitVec 64).toNat = 1 := rfl
  rw [toNat_add]
  omega

theorem slide_stalls (fuel : Nat) (c : BitVec 64) (seen : Fin replayWords → BitVec 64) :
    slide fuel c (allOnes 64) seen = none := by
  induction fuel generalizing c seen with
  | zero => rfl
  | succ fuel ih =>
    have below : c ≤ allOnes 64 := by
      rw [le_def, toNat_allOnes]
      omega
    rw [slide, if_pos below]
    exact ih _ _

theorem lt_last (notLast : ctr ≠ allOnes 64) : ctr.toNat < 2 ^ 64 - 1 := by
  have differs : ctr.toNat ≠ 2 ^ 64 - 1 := fun same =>
    notLast (toNat_inj.mp (same.trans toNat_allOnes.symm))
  omega

theorem slide_returns {fuel : Nat} {c ctr : BitVec 64} (seen : Fin replayWords → BitVec 64)
    (notLast : ctr ≠ allOnes 64) (enough : ctr.toNat + 1 < c.toNat + fuel)
    (near : c.toNat ≤ ctr.toNat + 1) : ∃ after, slide fuel c ctr seen = some after := by
  induction fuel generalizing c seen with
  | zero => omega
  | succ fuel ih =>
    unfold slide
    split
    · next goes =>
      have below : c.toNat ≤ ctr.toNat := goes
      have next := toNat_succ (below.trans_lt (lt_last notLast))
      exact ih _ (by omega) (by omega)
    · exact ⟨seen, rfl⟩

/-- Marking ends unless the loop has to reach the last counter of all. -/
theorem replay_mark_returns_iff (w : SframeReplay) (ctr : BitVec 64) :
    (∃ fuel after, w.replayMark fuel ctr = some after) ↔
      ¬(w.any = true ∧ ctr > w.top ∧ (ctr - w.top).toNat < replayWindow ∧ ctr = allOnes 64) := by
  constructor
  · rintro ⟨fuel, after, returned⟩ ⟨any, newer, near, rfl⟩
    rw [replayMark, if_neg (by rw [any]; decide), if_pos newer, if_neg (not_le.mpr near), slide_stalls] at returned
    cases returned
  · intro goesOn
    refine ⟨2 ^ 64 + 1, ?_⟩
    rw [replayMark]
    split
    · exact ⟨_, rfl⟩
    next any =>
    split
    · next newer =>
      split
      · exact ⟨_, rfl⟩
      next near =>
      have above : w.top.toNat < ctr.toNat := newer
      have next := @toNat_succ w.top (by omega)
      have notLast : ctr ≠ allOnes 64 := fun last =>
        goesOn ⟨by simpa using any, newer, not_le.mp near, last⟩
      obtain ⟨seen, done⟩ := @slide_returns (2 ^ 64 + 1) (w.top + 1) ctr w.seen notLast (by omega) (by omega)
      rw [done]
      exact ⟨_, rfl⟩
    · split
      · exact ⟨_, rfl⟩
      · exact ⟨_, rfl⟩

/-- The counter before the last has been seen, and the last is marked. -/
theorem replay_mark_stalls : ¬∃ fuel after, (⟨allOnes 64 - 1, fun _ => 0, true⟩ : SframeReplay).replayMark fuel
      (allOnes 64) = some after := by
  rintro ⟨fuel, after, returned⟩
  rw [replayMark, if_neg (by decide), if_pos (by decide), slide_stalls] at returned
  cases returned

theorem slide_clears {fuel : Nat} {c ctr : BitVec 64} {seen after : Fin replayWords → BitVec 64}
    (done : slide fuel c ctr seen = some after) :
    (∀ n, c.toNat ≤ n → n ≤ ctr.toNat → ring after (n % replayWindow) = false) ∧
    ∀ i, (∀ n, c.toNat ≤ n → n ≤ ctr.toNat → i ≠ n % replayWindow) → ring after i = ring seen i := by
  have notLast : ctr ≠ allOnes 64 := by
    rintro rfl
    rw [slide_stalls] at done
    cases done
  induction fuel generalizing c seen with
  | zero => cases done
  | succ fuel ih =>
    unfold slide at done
    split at done
    · next goes =>
      have below : c.toNat ≤ ctr.toNat := goes
      have next := toNat_succ (below.trans_lt (lt_last notLast))
      obtain ⟨cleared, others⟩ := ih done
      rw [next] at cleared others
      constructor
      · intro n since upTo
        rcases Nat.lt_or_ge c.toNat n with later | first
        · exact cleared n later upTo
        -- the slot of `c` is cleared now, and perhaps once more
        have same : n = c.toNat := by omega
        by_cases again : ∃ m, c.toNat + 1 ≤ m ∧ m ≤ ctr.toNat ∧ n % replayWindow = m % replayWindow
        · obtain ⟨m, later, before, equal⟩ := again
          rw [equal]
          exact cleared m later before
        · rw [others, ring_clear, if_pos (by rw [same])]
          intro m later before equal
          exact again ⟨m, later, before, equal⟩
      · intro i apart
        rw [others i (fun n since upTo => apart n (by omega) upTo), ring_clear,
          if_neg (apart c.toNat (le_rfl) below)]
    · next past =>
      cases done
      have empty : ctr.toNat < c.toNat := not_le.mp past
      exact ⟨fun n since upTo => by omega, fun i _ => rfl⟩

end SframeReplay

theorem newest_eq_some {accepted : List (BitVec 64)} {top : Nat} : newest accepted = some top ↔
      (∃ ctr ∈ accepted, ctr.toNat = top) ∧ ∀ ctr ∈ accepted, ctr.toNat ≤ top := by
  unfold newest
  rw [max?_eq_some_iff]
  simp

namespace Receiver

open SframeReplay

structure Keeps (r : Receiver) : Prop where
  once : r.accepted.Nodup
  any : r.window.any = true ↔ r.accepted ≠ []
  top : r.accepted ≠ [] → newest r.accepted = some r.window.top.toNat
  stands : r.accepted ≠ [] → RingWindow.Stands replayWindow (ring r.window.seen)
    r.window.top.toNat fun n => ∃ ctr ∈ r.accepted, ctr.toNat = n

variable {r : Receiver} {ctr : BitVec 64}

theorem start_keeps : start.Keeps := ⟨nodup_nil, by decide, nofun, nofun⟩

theorem Keeps.le_top (keeps : r.Keeps) {old : BitVec 64} (mem : old ∈ r.accepted) : old.toNat ≤ r.window.top.toNat :=
  (newest_eq_some.mp (keeps.top (ne_nil_of_mem mem))).2 old mem

theorem Keeps.replayOk_iff (keeps : r.Keeps) : r.window.replayOk ctr = true ↔ Accepts r.accepted ctr := by
  unfold replayOk
  by_cases empty : r.accepted = []
  · have fresh : r.window.any = false := by
      rw [← Bool.not_eq_true, keeps.any]
      exact not_not.mpr empty
    simp [fresh, empty, Accepts, newest]
  have isAny := keeps.any.mpr empty
  have isTop := keeps.top empty
  by_cases newer : r.window.top.toNat < ctr.toNat
  · rw [if_pos (.inr newer)]
    simp only [true_iff]
    refine ⟨fun mem => ?_, fun top isNewest => ?_⟩
    · exact absurd (keeps.le_top mem) (not_le.mpr newer)
    · rw [isTop] at isNewest
      cases isNewest
      omega
  have below : ctr.toNat ≤ r.window.top.toNat := not_lt.mp newer
  have notNewer : ¬((!r.window.any) = true ∨ ctr > r.window.top) := by
    rintro (fresh | above)
    · rw [isAny] at fresh
      cases fresh
    · exact newer above
  rw [if_neg notNewer, toNat_sub_of_le below]
  split
  · next old =>
    refine ⟨nofun, fun accepts => ?_⟩
    have inside := accepts.2 _ isTop
    omega
  next inside =>
  have window : r.window.top.toNat < ctr.toNat + replayWindow := by omega
  have isKept := keeps.stands empty ctr.toNat below window
  rw [bit_eq, Bool.not_eq_true', ← Bool.not_eq_true, isKept]
  constructor
  · intro missing
    refine ⟨fun mem => missing ⟨ctr, mem, rfl⟩, fun top isNewest => ?_⟩
    rw [isTop] at isNewest
    cases isNewest
    exact window
  · rintro accepts ⟨old, mem, same⟩
    rw [toNat_inj.mp same] at mem
    exact accepts.1 mem

theorem newest_append {accepted : List (BitVec 64)} {top : Nat} (ctr : BitVec 64)
    (isTop : newest accepted = some top) : newest (accepted ++ [ctr]) = some (max top ctr.toNat) := by
  obtain ⟨⟨old, mem, isOld⟩, bound⟩ := newest_eq_some.mp isTop
  refine newest_eq_some.mpr ⟨?_, ?_⟩
  · rcases Nat.le_total top ctr.toNat with newer | older
    · exact ⟨ctr, by simp, (Nat.max_eq_right newer).symm⟩
    · exact ⟨old, mem_append_left _ mem, isOld.trans (Nat.max_eq_left older).symm⟩
  · intro other isMem
    rcases mem_append.mp isMem with before | same
    · exact (bound other before).trans (Nat.le_max_left _ _)
    · rw [mem_singleton.mp same]
      exact Nat.le_max_right _ _

variable (keeps : r.Keeps)

include keeps

theorem Keeps.put {window : SframeReplay} {seen : Fin replayWords → BitVec 64} (accepts : Accepts r.accepted ctr)
    (isAny : window.any = true) (isSeen : window.seen = put seen ctr)
    (isTop : newest (r.accepted ++ [ctr]) = some window.top.toNat) (below : ctr.toNat ≤ window.top.toNat)
    (inside : window.top.toNat < ctr.toNat + replayWindow)
    (stands : RingWindow.Stands replayWindow (ring seen) window.top.toNat fun n => ∃ old ∈ r.accepted, old.toNat = n) :
    Keeps ⟨window, r.accepted ++ [ctr]⟩ where
  once := nodup_append.mpr ⟨keeps.once, nodup_singleton _, fun old mem other isOther same =>
    accepts.1 (mem_singleton.mp isOther ▸ same ▸ mem)⟩
  any := by simp [isAny]
  top := fun _ => isTop
  stands := by
    intro _
    have marked : RingWindow.Stands replayWindow (ring window.seen) window.top.toNat _ :=
      stands.mark below inside (by rw [isSeen, ring_put, if_pos rfl])
        (fun i apart => by rw [isSeen, ring_put, if_neg apart])
    refine marked.mono fun n => ?_
    simp only [mem_append, mem_singleton]
    constructor
    · rintro (rfl | ⟨old, mem, same⟩)
      · exact ⟨ctr, .inr rfl, rfl⟩
      · exact ⟨old, .inl mem, same⟩
    · rintro ⟨old, mem | rfl, same⟩
      · exact .inr ⟨old, mem, same⟩
      · exact .inl same.symm

theorem Keeps.mark {fuel : Nat} {window : SframeReplay} (accepts : Accepts r.accepted ctr)
    (marked : r.window.replayMark fuel ctr = some window) : Keeps ⟨window, r.accepted ++ [ctr]⟩ := by
  have size : replayWindow = 1024 := rfl
  have onlyOne : ctr.toNat < ctr.toNat + replayWindow := by omega
  unfold replayMark at marked
  by_cases empty : r.accepted = []
  · have fresh : (!r.window.any) = true := by
      rw [Bool.not_eq_true', ← Bool.not_eq_true, keeps.any]
      exact not_not.mpr empty
    rw [if_pos fresh] at marked
    cases marked
    refine keeps.put accepts rfl rfl ?_ (le_rfl) onlyOne ?_
    · rw [empty]
      rfl
    · refine RingWindow.Stands.empty ring_zero fun n isKept => ?_
      obtain ⟨old, mem, -⟩ := isKept
      rw [empty] at mem
      cases mem
  have isAny := keeps.any.mpr empty
  have isTop := keeps.top empty
  have isNewest := newest_append ctr isTop
  rw [if_neg (by simp [isAny])] at marked
  by_cases newer : ctr > r.window.top
  · have above : r.window.top.toNat < ctr.toNat := newer
    have bound : ∀ n, (∃ old ∈ r.accepted, old.toNat = n) → n ≤ r.window.top.toNat := by
      rintro n ⟨old, mem, rfl⟩
      exact keeps.le_top mem
    rw [Nat.max_eq_right (above.le)] at isNewest
    rw [if_pos newer, toNat_sub_of_le (above.le)] at marked
    split at marked
    · next far =>
      have past : r.window.top.toNat + replayWindow ≤ ctr.toNat := by omega
      cases marked
      refine keeps.put accepts isAny rfl isNewest (le_rfl) onlyOne ?_
      refine RingWindow.Stands.empty ring_zero fun n isKept => ?_
      exact (Nat.add_le_add_right (bound n isKept) _).trans past
    next near =>
    have reached : ctr.toNat < r.window.top.toNat + replayWindow := by omega
    obtain ⟨seen, done, isWindow⟩ := map_eq_some_iff.mp marked
    cases isWindow
    obtain ⟨cleared, others⟩ := slide_clears done
    rw [toNat_succ (by have := ctr.isLt; omega)] at cleared others
    refine keeps.put accepts isAny rfl isNewest (le_rfl) onlyOne ?_
    exact (keeps.stands empty).slide bound (above.le) reached cleared others
  · have below : ctr.toNat ≤ r.window.top.toNat := not_lt.mp newer
    have inside := accepts.2 _ isTop
    rw [Nat.max_eq_left below] at isNewest
    rw [if_neg newer, toNat_sub_of_le below, if_neg (by omega)] at marked
    cases marked
    exact keeps.put accepts isAny rfl isNewest below inside (keeps.stands empty)

theorem Keeps.receive {fuel : Nat} {after : Receiver} (done : r.receive fuel ctr = some after) :
    after.Keeps ∧ after.accepted = if Accepts r.accepted ctr then r.accepted ++ [ctr] else r.accepted := by
  unfold Receiver.receive at done
  split at done
  · next ok =>
    have accepts := keeps.replayOk_iff.mp ok
    obtain ⟨window, marked, isAfter⟩ := map_eq_some_iff.mp done
    cases isAfter
    exact ⟨keeps.mark accepts marked, (if_pos accepts).symm⟩
  · next refused =>
    cases done
    exact ⟨keeps, (if_neg fun accepts => refused (keeps.replayOk_iff.mpr accepts)).symm⟩

theorem Keeps.receive_returns (goesOn : ¬Stalls r.accepted ctr) :
    ∃ after, r.receive (replayWindow + 1) ctr = some after := by
  unfold Receiver.receive replayMark
  split
  · split
    · exact ⟨_, rfl⟩
    next isAny =>
    have nonempty : r.accepted ≠ [] := keeps.any.mp (by simpa using isAny)
    split
    · next newer =>
      have above : r.window.top.toNat < ctr.toNat := newer
      split
      · exact ⟨_, rfl⟩
      next near =>
      rw [toNat_sub_of_le (above.le)] at near
      have next := @toNat_succ r.window.top (by omega)
      have notLast : ctr ≠ allOnes 64 := by
        intro isLast
        have last : ctr.toNat = 2 ^ 64 - 1 := by
          rw [isLast]
          exact toNat_allOnes
        exact goesOn ⟨isLast, _, keeps.top nonempty, by omega, by omega⟩
      obtain ⟨seen, done⟩ := @slide_returns (replayWindow + 1) (r.window.top + 1) ctr
        r.window.seen notLast (by omega) (by omega)
      rw [done]
      exact ⟨_, rfl⟩
    · split
      · exact ⟨_, rfl⟩
      · exact ⟨_, rfl⟩
  · exact ⟨r, rfl⟩

theorem Keeps.receive_stalls (stalls : Stalls r.accepted ctr) (fuel : Nat) : r.receive fuel ctr = none := by
  obtain ⟨rfl, top, isTop, near, notLast⟩ := stalls
  have nonempty : r.accepted ≠ [] := by
    intro empty
    rw [empty] at isTop
    cases isTop
  have same := some.inj (mem_def.mp isTop ▸ keeps.top nonempty)
  have last : (allOnes 64).toNat = 2 ^ 64 - 1 := toNat_allOnes
  have newer : allOnes 64 > r.window.top := by
    change r.window.top.toNat < (allOnes 64).toNat
    omega
  have above : r.window.top.toNat < (allOnes 64).toNat := newer
  have ok : r.window.replayOk (allOnes 64) = true := if_pos (.inr newer)
  unfold Receiver.receive replayMark
  rw [if_pos ok, if_neg (by simp [keeps.any.mpr nonempty]), if_pos newer,
    toNat_sub_of_le (above.le), if_neg (by omega), slide_stalls]
  rfl

end Receiver

theorem receiveAll_append (fuel : Nat) (counters : List (BitVec 64)) (ctr : BitVec 64) :
    Receiver.receiveAll fuel (counters ++ [ctr]) =
      (Receiver.receiveAll fuel counters).bind (Receiver.receive fuel · ctr) := by
  unfold Receiver.receiveAll
  simp [List.foldlM]

variable {counters : List (BitVec 64)}

theorem receiveAll_keeps {fuel : Nat} {r : Receiver}
    (done : Receiver.receiveAll fuel counters = some r) : r.Keeps ∧ r.accepted = judged counters := by
  induction counters using List.reverseRecOn generalizing r with
  | nil =>
    cases done
    exact ⟨Receiver.start_keeps, rfl⟩
  | append_singleton front ctr ih =>
    rw [receiveAll_append] at done
    obtain ⟨before, isBefore, received⟩ := bind_eq_some_iff.mp done
    obtain ⟨keeps, isJudged⟩ := ih isBefore
    obtain ⟨keepsAfter, isAccepted⟩ := keeps.receive received
    rw [judged, foldl_append, foldl_cons, foldl_nil, ← judged, ← isJudged]
    exact ⟨keepsAfter, isAccepted⟩

theorem receiveAll_returns (noStall : NoStall counters) :
    ∃ r, Receiver.receiveAll (replayWindow + 1) counters = some r := by
  induction counters using List.reverseRecOn with
  | nil => exact ⟨_, rfl⟩
  | append_singleton front ctr ih =>
    obtain ⟨r, done⟩ := ih fun before other back split =>
      noStall before other (back ++ [ctr]) (by rw [split]; simp)
    obtain ⟨keeps, isJudged⟩ := receiveAll_keeps done
    rw [receiveAll_append, done]
    exact keeps.receive_returns (isJudged ▸ noStall front ctr [] rfl)

theorem receiveAll_front {fuel : Nat} {front back : List (BitVec 64)} {last : Receiver}
    (done : Receiver.receiveAll fuel (front ++ back) = some last) : ∃ r, Receiver.receiveAll fuel front = some r := by
  unfold Receiver.receiveAll at done ⊢
  rw [foldlM_append] at done
  obtain ⟨r, isFront, -⟩ := bind_eq_some_iff.mp done
  exact ⟨r, isFront⟩

/-- The window is exact for the sequences of counters in which the last counter of all does
not come from near below. -/
theorem sframe_replay_exact (counters : List (BitVec 64)) : (∃ fuel, Exact fuel counters) ↔ NoStall counters := by
  constructor
  · rintro ⟨fuel, last, done, -, -⟩ front ctr back split stalls
    subst split
    rw [append_cons] at done
    obtain ⟨r, isNext⟩ := receiveAll_front done
    rw [receiveAll_append] at isNext
    obtain ⟨before, isBefore, received⟩ := bind_eq_some_iff.mp isNext
    obtain ⟨keeps, isJudged⟩ := receiveAll_keeps isBefore
    rw [keeps.receive_stalls (isJudged ▸ stalls) fuel] at received
    cases received
  · intro noStall
    obtain ⟨last, done⟩ := receiveAll_returns noStall
    refine ⟨_, last, done, (receiveAll_keeps done).1.once, ?_⟩
    intro front ctr back split
    subst split
    obtain ⟨r, isFront⟩ := receiveAll_front done
    exact ⟨r, isFront, (receiveAll_keeps isFront).1.replayOk_iff⟩

/-- The last two counters, and then one that is new and inside the window: it is never
looked at. -/
theorem sframe_replay_stall : ¬∃ fuel, Exact fuel
      [.ofNat 64 (2 ^ 64 - 2), allOnes 64, .ofNat 64 (2 ^ 64 - 3)] := by
  rintro ⟨fuel, -, -, -, judges⟩
  obtain ⟨r, done, -⟩ := judges [.ofNat 64 (2 ^ 64 - 2), allOnes 64] _ [] rfl
  have first : Receiver.receiveAll fuel [.ofNat 64 (2 ^ 64 - 2)] = some
      ⟨⟨.ofNat 64 (2 ^ 64 - 2), SframeReplay.put (fun _ => 0) (.ofNat 64 (2 ^ 64 - 2)),
        true⟩, [.ofNat 64 (2 ^ 64 - 2)]⟩ := rfl
  have stalls : Stalls [.ofNat 64 (2 ^ 64 - 2)] (allOnes 64) :=
    ⟨rfl, 2 ^ 64 - 2, rfl, by decide, by decide⟩
  change Receiver.receiveAll fuel ([.ofNat 64 (2 ^ 64 - 2)] ++ [allOnes 64]) = some r at done
  rw [receiveAll_append, first, bind_some, (receiveAll_keeps first).1.receive_stalls stalls fuel] at done
  cases done

end OpenChime.Crypto
