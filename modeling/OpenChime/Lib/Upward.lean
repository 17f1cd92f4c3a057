import Mathlib.Data.Nat.Basic
import Mathlib.Tactic.Push

/-! What is built on something that goes, and what is built on that. The closure of a set of
seeds under "built on", over a finite list, by rounds: no round after the last can add, since
each round that adds takes one more element of the list. -/

set_option autoImplicit false

namespace Upward

open List

variable {α : Type} (nodes : List α) (seed : α → Bool) (on : α → α → Bool)

/-- Reached within so many rounds; `on x y` says that `x` is built on `y`. -/
def reached : Nat → α → Bool
  | 0, x => seed x
  | rounds + 1, x => reached rounds x || nodes.any fun y => reached rounds y && on x y

def upward (x : α) : Bool := reached nodes seed on nodes.length x

variable {nodes seed on} {x : α} {rounds : Nat}

theorem reached_succ (held : reached nodes seed on rounds x) : reached nodes seed on (rounds + 1) x := by
  simp only [reached, held, Bool.true_or]

theorem reached_of_seed (rounds : Nat) (seeded : seed x) : reached nodes seed on rounds x := by
  induction rounds with
  | zero => exact seeded
  | succ rounds ih => exact reached_succ ih

theorem upward_of_seed (seeded : seed x) : upward nodes seed on x := reached_of_seed nodes.length seeded

theorem upward_mono {seed' : α → Bool} (more : ∀ x, seed x → seed' x)
    (held : upward nodes seed on x) : upward nodes seed' on x := by
  unfold upward at held ⊢
  generalize nodes.length = rounds at held ⊢
  induction rounds generalizing x with
  | zero => exact more x held
  | succ rounds ih =>
    rw [reached, Bool.or_eq_true, any_eq_true] at held ⊢
    rcases held with held | ⟨y, mem, held⟩
    · exact .inl (ih held)
    · rw [Bool.and_eq_true] at held
      exact .inr ⟨y, mem, by rw [Bool.and_eq_true]; exact ⟨ih held.1, held.2⟩⟩

def Settled (nodes : List α) (seed : α → Bool) (on : α → α → Bool) (rounds : Nat) : Prop :=
  ∀ x ∈ nodes, reached nodes seed on (rounds + 1) x → reached nodes seed on rounds x

theorem Settled.succ (settled : Settled nodes seed on rounds) : Settled nodes seed on (rounds + 1) := by
  intro x _ held
  rw [reached, Bool.or_eq_true, any_eq_true] at held
  rcases held with held | ⟨y, mem, held⟩
  · exact held
  rw [Bool.and_eq_true] at held
  rw [reached, Bool.or_eq_true, any_eq_true]
  exact .inr ⟨y, mem, by rw [Bool.and_eq_true]; exact ⟨settled y mem held.1, held.2⟩⟩

theorem countP_lt_of_mem {p q : α → Bool} (weaker : ∀ x, p x → q x) (mem : x ∈ nodes)
    (not : ¬ p x) (holds : q x) : nodes.countP p < nodes.countP q := by
  have split := countP_eq_countP_filter_add nodes q p
  have kept : (nodes.filter p).countP q = nodes.countP p := by
    rw [countP_filter, countP_congr]
    intro y _
    rw [Bool.and_eq_true]
    exact ⟨And.right, fun held => ⟨weaker y held, held⟩⟩
  have more : 0 < (nodes.filter fun y => !p y).countP q :=
    countP_pos_iff.mpr ⟨x, mem_filter.mpr ⟨mem, by simpa using not⟩, holds⟩
  omega

theorem countP_reached_lt (unsettled : ¬ Settled nodes seed on rounds) :
    nodes.countP (reached nodes seed on rounds) < nodes.countP (reached nodes seed on (rounds + 1)) := by
  unfold Settled at unsettled
  push Not at unsettled
  obtain ⟨x, mem, now, before⟩ := unsettled
  exact countP_lt_of_mem (fun y held => reached_succ held) mem before now

/-- Every unsettled round has taken at least one element more. -/
theorem settled_or_lt_countP (rounds : Nat) :
    Settled nodes seed on rounds ∨ rounds < nodes.countP (reached nodes seed on (rounds + 1)) := by
  induction rounds with
  | zero =>
    by_cases settled : Settled nodes seed on 0
    · exact .inl settled
    · exact .inr (Nat.zero_lt_of_lt (countP_reached_lt settled))
  | succ rounds ih =>
    rcases ih with settled | taken
    · exact .inl settled.succ
    by_cases settled : Settled nodes seed on (rounds + 1)
    · exact .inl settled
    · exact .inr (Nat.lt_of_le_of_lt taken (countP_reached_lt settled))

theorem settled_length : Settled nodes seed on nodes.length := by
  rcases settled_or_lt_countP nodes.length with settled | taken
  · exact settled
  · exact absurd taken (not_lt.mpr countP_le_length)

theorem upward_of_on {x y : α} (mem : x ∈ nodes) (below : y ∈ nodes)
    (held : upward nodes seed on y) (built : on x y) : upward nodes seed on x := by
  refine settled_length x mem ?_
  rw [reached, Bool.or_eq_true, any_eq_true]
  exact .inr ⟨y, below, by rw [Bool.and_eq_true]; exact ⟨held, built⟩⟩

end Upward
