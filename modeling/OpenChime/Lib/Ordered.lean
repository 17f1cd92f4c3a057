import Mathlib.Data.List.DropRight
import Mathlib.Order.Lattice

/-! Lists kept in ascending order of a key, and putting one more entry in its place by
walking down from the end. -/

set_option autoImplicit false

namespace Ordered

open List

variable {α κ : Type} [LinearOrder κ] (key : α → κ)

def Ascending (entries : List α) : Prop := entries.Pairwise fun a b => key a < key b

/-- The entries before the place of `k`. -/
def before (k : κ) (entries : List α) : List α := entries.rdropWhile fun a => k < key a

def behind (k : κ) (entries : List α) : List α := entries.rtakeWhile fun a => k < key a

variable {key} {k : κ} {entries : List α}

theorem before_append_behind : before key k entries ++ behind key k entries = entries := rdropWhile_append_rtakeWhile

theorem lt_of_mem_behind {a : α} (member : a ∈ behind key k entries) : k < key a := by
  simpa using mem_rtakeWhile_imp member

theorem lt_of_mem_before (ascending : Ascending key entries) (absent : ∀ a ∈ entries, key a ≠ k)
    {a : α} (member : a ∈ before key k entries) : key a < k := by
  have nonempty : before key k entries ≠ [] := ne_nil_of_mem member
  have stops : ¬ k < key ((before key k entries).getLast nonempty) := fun less =>
    rdropWhile_last_not _ entries nonempty (decide_eq_true less)
  have within : before key k entries <+: entries := rdropWhile_prefix _ _
  have differs := absent _ (within.subset (getLast_mem nonempty))
  have last : key ((before key k entries).getLast nonempty) < k := lt_of_le_of_ne (not_lt.mp stops) differs
  have sorted : Ascending key (before key k entries) := ascending.sublist within.sublist
  rw [← dropLast_append_getLast nonempty] at member sorted
  rcases mem_append.mp member with earlier | final
  · have order := (pairwise_append.mp sorted).2.2 a earlier _ (mem_singleton_self _)
    exact lt_trans order last
  · exact mem_singleton.mp final ▸ last

theorem ascending_insert {new : α} (ascending : Ascending key entries) (absent : ∀ a ∈ entries, key a ≠ key new) :
    Ascending key (before key (key new) entries ++ new :: behind key (key new) entries) := by
  have halves := ascending
  have whole : before key (key new) entries ++ behind key (key new) entries = entries := before_append_behind
  rw [← whole] at halves
  obtain ⟨front, back, across⟩ := pairwise_append.mp halves
  refine pairwise_append.mpr ⟨front, pairwise_cons.mpr ⟨?_, back⟩, ?_⟩
  · intro later member
    exact lt_of_mem_behind member
  · intro earlier member later after
    rcases mem_cons.mp after with rfl | further
    · exact lt_of_mem_before ascending absent member
    · exact across earlier member later further

theorem before_eq_self (above : ∀ a ∈ entries, key a < k) : before key k entries = entries := by
  refine rdropWhile_eq_self_iff.mpr fun nonempty => ?_
  simpa using (above _ (getLast_mem nonempty)).le

theorem behind_eq_nil (above : ∀ a ∈ entries, key a < k) : behind key k entries = [] := by
  refine rtakeWhile_eq_nil_iff.mpr fun nonempty => ?_
  simpa using (above _ (getLast_mem nonempty)).le

theorem above_of_behind_eq_nil (ascending : Ascending key entries) (absent : ∀ a ∈ entries, key a ≠ k)
    (none : behind key k entries = []) : ∀ a ∈ entries, key a < k := by
  have whole : before key k entries ++ behind key k entries = entries := before_append_behind
  rw [none, append_nil] at whole
  intro a member
  exact lt_of_mem_before ascending absent (whole.symm ▸ member)

theorem split_unique {α κ : Type} (key : α → κ) {older older' newer newer' : List α} {entry entry' : α}
    (same : older ++ entry :: newer = older' ++ entry' :: newer') (sameKey : key entry = key entry')
    (apart : ∀ a ∈ older, key a ≠ key entry) (apart' : ∀ a ∈ older', key a ≠ key entry') :
    older = older' ∧ entry = entry' ∧ newer = newer' := by
  induction older generalizing older' with
  | nil =>
    cases older' with
    | nil => simpa using same
    | cons a older' =>
      rw [nil_append, cons_append, List.cons.injEq] at same
      exact absurd (same.1 ▸ sameKey) (apart' a mem_cons_self)
  | cons a older ih =>
    cases older' with
    | nil =>
      rw [nil_append, cons_append, List.cons.injEq] at same
      exact absurd (same.1 ▸ sameKey.symm) (apart a mem_cons_self)
    | cons a' older' =>
      rw [cons_append, cons_append, List.cons.injEq] at same
      obtain ⟨rfl, rest⟩ := same
      obtain ⟨rfl, rfl, rfl⟩ := ih rest (fun other member => apart other (mem_cons_of_mem _ member))
        (fun other member => apart' other (mem_cons_of_mem _ member))
      exact ⟨rfl, rfl, rfl⟩

end Ordered
