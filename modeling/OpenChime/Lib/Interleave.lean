import Mathlib.Data.List.Basic

/-! Two sequences merged into one, each in its own order. -/

set_option autoImplicit false

variable {α : Type}

/-- Every element of `left` and of `right` is in `merged` once, in its order. -/
inductive Interleaves : List α → List α → List α → Prop where
  | nil : Interleaves [] [] []
  | fromLeft {left right merged : List α} (next : α) (before : Interleaves left right merged) :
      Interleaves (left ++ [next]) right (merged ++ [next])
  | fromRight {left right merged : List α} (next : α) (before : Interleaves left right merged) :
      Interleaves left (right ++ [next]) (merged ++ [next])

namespace Interleaves

variable {left right merged : List α} (h : Interleaves left right merged)

include h

theorem append_left (more : List α) : Interleaves (left ++ more) right (merged ++ more) := by
  induction more generalizing left merged with
  | nil => simpa using h
  | cons next more ih => simpa using ih (h.fromLeft next)

theorem append_right (more : List α) : Interleaves left (right ++ more) (merged ++ more) := by
  induction more generalizing right merged with
  | nil => simpa using h
  | cons next more ih => simpa using ih (h.fromRight next)

theorem mem_merged {x : α} (member : x ∈ merged) : x ∈ left ∨ x ∈ right := by
  induction h with
  | nil => cases member
  | fromLeft next before ih =>
    rcases List.mem_append.mp member with earlier | last
    · exact (ih earlier).imp_left (List.mem_append_left _)
    · exact .inl (List.mem_append_right _ last)
  | fromRight next before ih =>
    rcases List.mem_append.mp member with earlier | last
    · exact (ih earlier).imp_right (List.mem_append_left _)
    · exact .inr (List.mem_append_right _ last)

end Interleaves
