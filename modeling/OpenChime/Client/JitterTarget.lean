import Mathlib.Data.List.GetD
import Mathlib.Data.Rat.Floor
import OpenChime.Client.Jitter

/-! The target delay of the jitter buffer, over the arrivals it is taken from. -/

set_option autoImplicit false

namespace OpenChime.Client.Jitter

open List

/-- How late a packet came, against the frame it carries; one that is too long is not looked at. -/
def Call.arrival : Call → Option Int
  | .put frame data now => if maxPacket < data.length then none else some (now - frame.toNat * frameMs)
  | .get _ => none

def recent (arrivals : List Int) : List Int := arrivals.drop (arrivals.length - hist)

/-- How much later than the earliest the slowest twentieth came. -/
def spread (arrivals : List Int) : Int :=
  let sorted := arrivals.insertionSort (· ≤ ·)
  sorted.getD (95 * arrivals.length / 100) 0 - sorted.getD 0 0

def spreadOf (calls : List Call) : Int := spread (recent (calls.filterMap Call.arrival))

def clamp (ms : Int) : Int := max minMs (min maxMs ms)

def framesOf (ms : Int) : Int := ⌈(ms : ℚ) / (frameMs : ℚ)⌉

theorem framesOf_eq (ms : Int) : framesOf ms = (ms + frameMs - 1) / frameMs := by
  have ceil : framesOf ms = -(-ms / 20) := Rat.ceil_intCast_div_natCast ms 20
  rw [frameMs]
  omega

def past (j : Buffer) : List Int × Nat × Nat × Nat := (j.delay, j.nDelay, j.iDelay, j.target)

variable (j : Buffer) {arrivals delay : List Int}

theorem past_get (quiet : Bool) : past (get j quiet).2 = past j := by
  unfold get playFrame conceal
  dsimp only
  repeat' split
  all_goals rfl

theorem past_put (frame : BitVec 32) {data : List UInt8} (now : Int) (fits : ¬maxPacket < data.length) :
    past (put j frame data now).2 = past (noteArrival j frame now) := by
  unfold put store setClock
  rw [if_neg fits]
  dsimp only
  repeat' split
  all_goals rfl

/-- The ring, the newest arrivals before the index and the oldest from it on. -/
def Ring (arrivals delay : List Int) (index : Nat) : Prop :=
  ∃ newer older, delay = newer ++ older ∧ newer.length = index ∧
    recent arrivals = (if arrivals.length < hist then [] else older) ++ newer

structure Remembers (arrivals : List Int) (j : Buffer) : Prop where
  length : j.delay.length = hist
  count : j.nDelay = min arrivals.length hist
  index : j.iDelay = arrivals.length % hist
  ring : Ring arrivals j.delay j.iDelay
  target : 2 ≤ arrivals.length → j.target = framesOf (clamp (toInt32 (spread (recent arrivals) + frameMs)))

theorem Ring.perm (length : delay.length = hist) (ring : Ring arrivals delay (arrivals.length % hist)) :
    delay.take (min arrivals.length hist) ~ recent arrivals := by
  obtain ⟨newer, older, rfl, isIndex, isRecent⟩ := ring
  rw [isRecent]
  split
  · next few =>
    rw [min_eq_left few.le, ← Nat.mod_eq_of_lt few, ← isIndex, take_left, nil_append]
  next many =>
  rw [min_eq_right (not_lt.mp many), ← length, take_length]
  exact perm_append_comm

theorem recent_append (late : Int) : recent (arrivals ++ [late]) =
    (if arrivals.length < hist then recent arrivals else (recent arrivals).tail) ++ [late] := by
  unfold recent
  rw [length_append, length_singleton]
  split
  · next few => rw [Nat.sub_eq_zero_of_le few, Nat.sub_eq_zero_of_le few.le, drop_zero, drop_zero]
  · next many =>
    rw [tail_drop, drop_append_of_le_length (by unfold hist; omega), Nat.sub_add_comm (not_lt.mp many)]

theorem Ring.note (late : Int) (length : delay.length = hist) (ring : Ring arrivals delay (arrivals.length % hist)) :
    Ring (arrivals ++ [late]) (delay.set (arrivals.length % hist) late) ((arrivals.length % hist + 1) % hist) := by
  obtain ⟨newer, older, rfl, isIndex, isRecent⟩ := ring
  have inside : newer.length < hist := isIndex ▸ Nat.mod_lt _ (by decide)
  rw [← isIndex, set_append_right _ _ le_rfl]
  cases older with
  | nil =>
    rw [append_nil] at length
    omega
  | cons oldest rest =>
    have whole : recent (arrivals ++ [late]) = (if arrivals.length < hist then [] else rest) ++ (newer ++ [late]) := by
      rw [recent_append, isRecent]
      split <;> simp
    have longer : (arrivals ++ [late]).length = arrivals.length + 1 := length_append
    rw [length_append, length_cons] at length
    rcases lt_or_eq_of_le (Nat.succ_le_of_lt inside) with more | last
    · refine ⟨newer ++ [late], rest, by simp, by simp [Nat.mod_eq_of_lt more], ?_⟩
      have few : arrivals.length < hist ↔ arrivals.length + 1 < hist := by
        unfold hist at *
        omega
      simp only [whole, longer, few]
    -- the index is back at the start, and the whole ring behind it
    obtain rfl : rest = [] := length_eq_zero_iff.mp (by omega)
    refine ⟨[], newer ++ [late], by simp, by simp [show newer.length + 1 = hist from last], ?_⟩
    have many : ¬arrivals.length + 1 < hist := by
      unfold hist at *
      omega
    simp [whole, many]

theorem spread_perm {arrivals' : List Int} (perm : arrivals ~ arrivals') : spread arrivals = spread arrivals' := by
  have same : arrivals.insertionSort (· ≤ ·) = arrivals'.insertionSort (· ≤ ·) := by
    refine Perm.eq_of_sortedLE sortedLE_insertionSort sortedLE_insertionSort ?_
    exact (perm_insertionSort _ _).trans (perm.trans (perm_insertionSort _ _).symm)
  rw [spread, spread, same, perm.length_eq]

theorem spread_nonneg (arrivals : List Int) : 0 ≤ spread arrivals := by
  rcases eq_or_ne arrivals [] with rfl | some
  · decide
  have positive := length_pos_iff.mpr some
  have length := length_insertionSort (· ≤ ·) arrivals
  unfold spread
  dsimp only
  rw [getD_eq_getElem _ _ (by omega), getD_eq_getElem _ _ (by omega), sub_nonneg]
  exact sortedLE_insertionSort.getElem_le_getElem_of_le (Nat.zero_le _)

variable {j}

theorem Remembers.retarget (length : j.delay.length = hist) (count : j.nDelay = min arrivals.length hist)
    (index : j.iDelay = arrivals.length % hist) (ring : Ring arrivals j.delay j.iDelay) :
    Remembers arrivals (retarget j) := by
  unfold Jitter.retarget
  dsimp only
  split
  · next few => exact ⟨length, count, index, ring, fun two => absurd few (by unfold hist at count; omega)⟩
  refine ⟨length, count, index, ring, fun two => ?_⟩
  have within : j.nDelay * 95 / 100 < j.nDelay := by omega
  have narrow (s : Int) : toInt32 (toInt32 s + frameMs) = toInt32 (s + frameMs) := by simp [toInt32]
  rw [if_pos within, narrow, ← spread_perm ((index ▸ ring).perm length), ← count, framesOf_eq, spread,
    length_take_of_le (by omega), mul_comm 95]
  generalize toInt32 _ = ms
  simp only [clamp, minMs, maxMs, frameMs]
  omega

theorem Remembers.note (remembers : Remembers arrivals j) (frame : BitVec 32) (now : Int) :
    Remembers (arrivals ++ [now - frame.toNat * frameMs]) (noteArrival j frame now) := by
  obtain ⟨length, count, index, ring, -⟩ := remembers
  rw [index] at ring
  apply Remembers.retarget
  · exact length_set.trans length
  · rw [length_append, length_singleton]
    dsimp only
    split <;> omega
  · simp only [length_append, length_singleton, index, Nat.mod_add_mod]
  · exact index ▸ ring.note _ length

theorem Remembers.congr {j' : Buffer} (remembers : Remembers arrivals j) (same : past j' = past j) :
    Remembers arrivals j' := by
  simp only [past, Prod.mk.injEq] at same
  obtain ⟨delay, nDelay, iDelay, target⟩ := same
  obtain ⟨_, _, _, _, _⟩ := remembers
  constructor <;> simpa only [delay, nDelay, iDelay, target]

theorem remembers_run (calls : List Call) : Remembers (calls.filterMap Call.arrival) (run init calls) := by
  induction calls using reverseRecOn with
  | nil => exact ⟨rfl, rfl, rfl, ⟨[], _, rfl, rfl, rfl⟩, fun two => absurd two (by decide)⟩
  | append_singleton calls call remembers =>
    rw [run_append, filterMap_append]
    cases call with
    | get quiet => exact (append_nil _).symm ▸ remembers.congr (past_get _ quiet)
    | put frame data now =>
      by_cases long : maxPacket < data.length
      · simpa [Call.arrival, run, step, put, long] using remembers
      · simpa [Call.arrival, run, step, long] using (remembers.note frame now).congr (past_put _ frame now long)

theorem target_iff (calls : List Call) (two : 2 ≤ (calls.filterMap Call.arrival).length) :
    (run init calls).target = framesOf (clamp (spreadOf calls + frameMs)) ↔
      spreadOf calls + frameMs < 2 ^ 31 ∨ 220 < toInt32 (spreadOf calls + frameMs) := by
  have nonneg : 0 ≤ spreadOf calls := spread_nonneg _
  rw [(remembers_run calls).target two, ← spreadOf]
  simp only [framesOf_eq, clamp, toInt32, minMs, maxMs, frameMs, Int.bmod_def]
  omega

theorem target_iff_twoPackets : spreadOf [.put 0 [] 0, .put 1 [] 50] = 30 ∧
    (run init [.put 0 [] 0, .put 1 [] 50]).target = framesOf (clamp (spreadOf [.put 0 [] 0, .put 1 [] 50] + frameMs)) :=
  ⟨by decide, (target_iff _ (by decide)).mpr (.inl (by decide))⟩

/-- Two packets whose frame numbers are as far apart as they can be: the spread does not fit. -/
theorem target_wraps : spreadOf [.put 0 [] 0, .put (BitVec.allOnes 32) [] 0] = 85899345900 ∧
    (run init [.put 0 [] 0, .put (BitVec.allOnes 32) [] 0]).target = 2 ∧
    framesOf (clamp (85899345900 + frameMs)) = 12 := by
  refine ⟨by decide, by decide, ?_⟩
  rw [framesOf_eq]
  decide

end OpenChime.Client.Jitter
