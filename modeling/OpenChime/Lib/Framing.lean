import Mathlib.Data.List.Basic

/-! Self-delimiting streams. A format says of a buffer whether its front is a whole
frame, is still incomplete, or can never become a frame. Draining takes whole frames
off the front until the format says to wait. On a stream of well-formed frames, what
is drained after each chunk depends only on how far the stream has come, not on how
it was cut. -/

set_option autoImplicit false

namespace Framing

open List

variable {α : Type}

inductive Cut where
  | wait
  | refuse
  | frame (size : Nat)
  deriving DecidableEq

structure Format (α : Type) where
  cut : List α → Cut
  Whole : List α → Prop
  cut_nil : cut [] = .wait
  nonempty : ∀ {frame}, Whole frame → frame ≠ []
  cut_whole : ∀ {frame} (rest), Whole frame → cut (frame ++ rest) = .frame frame.length
  cut_short : ∀ {frame front}, Whole frame → front <+: frame → front.length < frame.length → cut front = .wait

inductive Drains (cut : List α → Cut) : List α → List (List α) → List α → Prop where
  | stop {bytes : List α} (wait : cut bytes = .wait) : Drains cut bytes [] bytes
  | step {bytes : List α} {size : Nat} {frames : List (List α)} {rest : List α}
      (found : cut bytes = .frame size) (within : size ≤ bytes.length) (positive : 0 < size)
      (tail : Drains cut (bytes.drop size) frames rest) :
      Drains cut bytes (bytes.take size :: frames) rest

/-- What a drained buffer may hold: nothing, or a proper front of the next frame. -/
inductive Held : List (List α) → List α → Prop where
  | clear (todo : List (List α)) : Held todo []
  | short {frame rest : List α} {todo : List (List α)} (front : rest <+: frame)
      (proper : rest.length < frame.length) : Held (frame :: todo) rest

variable {todo : List (List α)} {rest : List α} (held : Held todo rest)

include held

theorem Held.length_lt {limit : Nat} (small : ∀ frame ∈ todo, frame.length ≤ limit) (positive : 0 < limit) :
    rest.length < limit := by
  cases held with
  | clear => exact positive
  | short front proper => exact Nat.lt_of_lt_of_le proper (small _ mem_cons_self)

theorem Held.append (more : List (List α)) : Held (todo ++ more) rest := by
  cases held with
  | clear => exact .clear _
  | short front proper => exact .short front proper

theorem Held.done (filled : ∀ frame ∈ todo, frame ≠ []) (ended : rest = todo.flatten) : todo = [] ∧ rest = [] := by
  cases held with
  | clear =>
    refine ⟨?_, rfl⟩
    cases todo with
    | nil => rfl
    | cons frame more =>
      have empty := (flatten_eq_nil_iff.mp ended.symm) frame mem_cons_self
      exact absurd empty (filled frame mem_cons_self)
  | short front proper =>
    rw [ended, flatten_cons, length_append] at proper
    omega

omit held

variable (format : Format α)

/-- One chunk of a stream of whole frames: the frames it completes come off, and what
stays behind is a proper front of the next one. -/
theorem Format.drains_chunk (whole : ∀ frame ∈ todo, format.Whole frame) {bytes later : List α}
    (split : bytes ++ later = todo.flatten) :
    ∃ taken left rest, todo = taken ++ left ∧ Drains format.cut bytes taken rest ∧
      rest ++ later = left.flatten ∧ Held left rest := by
  induction todo generalizing bytes with
  | nil =>
    obtain ⟨rfl, rfl⟩ := append_eq_nil_iff.mp split
    exact ⟨[], [], [], rfl, .stop format.cut_nil, rfl, .clear []⟩
  | cons frame todo ih =>
    obtain ⟨frameWhole, todoWhole⟩ := forall_mem_cons.mp whole
    by_cases complete : frame.length ≤ bytes.length
    · obtain ⟨more, rfl⟩ : frame <+: bytes := prefix_of_prefix_length_le ⟨_, rfl⟩ ⟨later, split⟩ complete
      rw [append_assoc] at split
      obtain ⟨taken, left, rest, same, drains, behind, held⟩ := ih todoWhole (append_cancel_left split)
      refine ⟨frame :: taken, left, rest, by rw [same, cons_append], ?_, behind, held⟩
      have step := Drains.step (format.cut_whole more frameWhole) complete
        (length_pos_of_ne_nil (format.nonempty frameWhole))
        (by rw [drop_left]; exact drains)
      rwa [take_left] at step
    · have shorter : bytes.length < frame.length := Nat.not_le.mp complete
      have front : bytes <+: frame := prefix_of_prefix_length_le ⟨later, split⟩ ⟨_, rfl⟩ (Nat.le_of_lt shorter)
      exact ⟨[], frame :: todo, bytes, rfl, .stop (format.cut_short frameWhole front shorter),
        by rw [split], .short front shorter⟩

/-- A stream of whole frames is cut into frames in one way only. -/
theorem Format.flatten_split {front frames : List (List α)} {tail : List α}
    (frontWhole : ∀ frame ∈ front, format.Whole frame) (framesWhole : ∀ frame ∈ frames, format.Whole frame)
    (same : front.flatten ++ tail = frames.flatten) : ∃ more, frames = front ++ more ∧ tail = more.flatten := by
  induction front generalizing frames with
  | nil => exact ⟨frames, rfl, by simpa using same⟩
  | cons frame front ih =>
    obtain ⟨frameWhole, restWhole⟩ := forall_mem_cons.mp frontWhole
    rw [flatten_cons, append_assoc] at same
    cases frames with
    | nil =>
      have empty := (append_eq_nil_iff.mp same).1
      exact absurd empty (format.nonempty frameWhole)
    | cons head frames =>
      obtain ⟨headWhole, moreWhole⟩ := forall_mem_cons.mp framesWhole
      rw [flatten_cons] at same
      have size : frame.length = head.length := by
        have cut := format.cut_whole (front.flatten ++ tail) frameWhole
        rw [same, format.cut_whole frames.flatten headWhole] at cut
        exact (Cut.frame.inj cut).symm
      obtain ⟨rfl, rest⟩ := append_inj same size
      obtain ⟨more, rfl, ended⟩ := ih restWhole moreWhole rest
      exact ⟨more, rfl, ended⟩

theorem Format.held_whole {frames : List (List α)} (todoWhole : ∀ frame ∈ todo, format.Whole frame)
    (framesWhole : ∀ frame ∈ frames, format.Whole frame) (held : Held todo rest)
    (same : rest = frames.flatten) : rest = [] := by
  cases held with
  | clear => rfl
  | short front proper =>
    have waits := format.cut_short (todoWhole _ mem_cons_self) front proper
    cases frames with
    | nil => exact same
    | cons head frames =>
      simp [same, flatten_cons, format.cut_whole _ (framesWhole head mem_cons_self)] at waits

end Framing
