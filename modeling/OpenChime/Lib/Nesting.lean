import Mathlib.Data.Nat.Basic
import Mathlib.Order.Basic

/-! Ranges listed outermost first: every range is followed by the ranges inside it, then by those
behind it. A relation says which range may hold which. -/

set_option autoImplicit false

namespace Nesting

open List

variable {α : Type}

/-- The ranges of a list lie between two positions, each followed by those inside it. -/
inductive Nested (first past : α → Nat) (may : α → α → Prop) : Nat → Nat → List α → Prop where
  | nil {low high : Nat} : Nested first past may low high []
  | cons {low high : Nat} {item : α} {inner rest : List α} (after : low ≤ first item)
      (nonempty : first item < past item) (before : past item ≤ high)
      (holds : ∀ x ∈ inner, may item x)
      (inside : Nested first past may (first item) (past item) inner)
      (behind : Nested first past may (past item) high rest) :
      Nested first past may low high (item :: (inner ++ rest))

section Nested

variable {first past : α → Nat} {may : α → α → Prop} {low mid high low' high' : Nat} {items more : List α} {item : α}

theorem Nested.widen (nested : Nested first past may low high items) (lower : low' ≤ low)
    (higher : high ≤ high') : Nested first past may low' high' items := by
  induction nested generalizing low' with
  | nil => exact .nil
  | cons after nonempty before holds inside behind _ ih =>
    exact .cons (lower.trans after) nonempty (before.trans higher) holds inside (ih (le_refl _) higher)

theorem Nested.append (nested : Nested first past may low mid items) (lower : low ≤ mid) (higher : mid ≤ high)
    (others : Nested first past may mid high more) : Nested first past may low high (items ++ more) := by
  induction nested with
  | nil => exact others.widen lower (le_refl _)
  | cons after nonempty before holds inside behind _ ih =>
    rw [cons_append, append_assoc]
    exact .cons after nonempty (before.trans higher) holds inside (ih before higher others)

theorem Nested.one (after : low ≤ first item) (nonempty : first item < past item)
    (before : past item ≤ high) : Nested first past may low high [item] :=
  .cons after nonempty before (fun _ no => absurd no not_mem_nil) .nil .nil

theorem Nested.around (after : low ≤ first item) (nonempty : first item < past item) (before : past item ≤ high)
    (holds : ∀ x ∈ items, may item x) (inside : Nested first past may (first item) (past item) items) :
    Nested first past may low high (item :: items) := by
  have whole := Nested.cons after nonempty before holds inside .nil
  rwa [append_nil] at whole

variable (nested : Nested first past may low high items)

include nested

theorem Nested.between : ∀ x ∈ items, low ≤ first x ∧ first x < past x ∧ past x ≤ high := by
  induction nested with
  | nil => exact fun x member => absurd member not_mem_nil
  | cons after nonempty before holds inside behind innerIH restIH =>
    intro x member
    cases mem_cons.mp member with
    | inl same =>
      rw [same]
      exact ⟨after, nonempty, before⟩
    | inr member =>
      cases mem_append.mp member with
      | inl member =>
        obtain ⟨low, some, high⟩ := innerIH x member
        exact ⟨after.trans low, some, high.trans before⟩
      | inr member =>
        obtain ⟨low, some, high⟩ := restIH x member
        exact ⟨by omega, some, high⟩

/-- A later range is behind an earlier one, or inside it where that may hold it. -/
theorem Nested.pairwise : items.Pairwise fun x y =>
      past x ≤ first y ∨ (may x y ∧ first x ≤ first y ∧ past y ≤ past x) := by
  induction nested with
  | nil => exact List.Pairwise.nil
  | cons after nonempty before holds inside behind innerIH restIH =>
    apply pairwise_cons.mpr
    refine ⟨?_, pairwise_append.mpr ⟨innerIH, restIH, ?_⟩⟩
    · intro x member
      cases mem_append.mp member with
      | inl member =>
        obtain ⟨low, -, high⟩ := inside.between x member
        exact Or.inr ⟨holds x member, low, high⟩
      | inr member => exact Or.inl (behind.between x member).1
    · intro x innerMember y restMember
      exact Or.inl ((inside.between x innerMember).2.2.trans (behind.between y restMember).1)

end Nested

end Nesting
