import Mathlib.Algebra.Order.Ring.Nat
import Mathlib.Algebra.Order.Sub.Basic
import Mathlib.Data.List.Basic
import Mathlib.Data.Nat.SuccPred

/-! Unordered arrays: an element is taken out by moving the last one into its place. -/

set_option autoImplicit false

variable {α β : Type}

/-- Take out the element at `i`; the last one moves there. -/
def List.swapRemove (l : List α) (i : Nat) : List α :=
  match l.getLast? with
  | some last => (l.set i last).dropLast
  | none => []

namespace List

open List

theorem exists_perm_set {l : List α} {i : Nat} {a : α} (here : l[i]? = some a) :
    ∃ rest, l.Perm (a :: rest) ∧ ∀ b, (l.set i b).Perm (b :: rest) := by
  obtain ⟨inside, rfl⟩ := List.getElem?_eq_some_iff.mp here
  have split : l = l.take i ++ l[i] :: l.drop (i + 1) := by
    rw [← drop_eq_getElem_cons inside, take_append_drop]
  refine ⟨l.take i ++ l.drop (i + 1), ?_, fun b => ?_⟩
  · conv_lhs => rw [split]
    exact perm_middle
  · rw [set_eq_take_append_cons_drop, if_pos inside]
    exact perm_middle

theorem swapRemove_perm {l : List α} {i : Nat} {a : α} (here : l[i]? = some a) : (a :: l.swapRemove i).Perm l := by
  obtain ⟨inside, isA⟩ := List.getElem?_eq_some_iff.mp here
  have nonempty : l ≠ [] := ne_nil_of_length_pos (by omega)
  obtain ⟨front, last, rfl⟩ : ∃ front last, l = front ++ [last] :=
    ⟨l.dropLast, l.getLast nonempty, (dropLast_append_getLast nonempty).symm⟩
  have isLast : (front ++ [last]).getLast? = some last := getLast?_concat
  unfold swapRemove
  rw [isLast]
  dsimp only
  rcases Nat.lt_or_ge i front.length with before | atEnd
  · have inFront : front[i]? = some a := by rwa [getElem?_append_left before] at here
    obtain ⟨rest, all, moved⟩ := exists_perm_set inFront
    rw [set_append_left _ _ before, dropLast_concat]
    refine ((moved last).cons a).trans ((List.Perm.swap ..).trans ?_)
    exact (all.symm.cons last).trans (perm_append_singleton last front).symm
  have isEnd : i = front.length := by
    simp only [length_append, length_singleton] at inside
    omega
  subst isEnd
  have same : last = a := by simpa using here
  rw [set_append_right _ _ (le_rfl), Nat.sub_self, set_cons_zero, dropLast_concat, same]
  exact (perm_append_singleton a front).symm

end List
