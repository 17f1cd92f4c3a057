import Mathlib.Data.List.Basic

/-! Runs of a state machine. A step may fail; a run is a list of events none of which
failed, each allowed in the state it met. -/

set_option autoImplicit false

namespace Machine

variable {State Event : Type}

inductive Run (step : State → Event → Option State) (allowed : State → Event → Prop)
    (start : State) : List Event → State → Prop where
  | nil : Run step allowed start [] start
  | snoc {events : List Event} {event : Event} {state after : State}
      (before : Run step allowed start events state) (permitted : allowed state event)
      (taken : step state event = some after) : Run step allowed start (events ++ [event]) after

variable {step : State → Event → Option State} {allowed : State → Event → Prop}
  {start : State} {events : List Event} {state : State}

/-- What holds at the start and is kept by every allowed step holds after every run. -/
theorem Run.invariant (Holds : List Event → State → Prop) (atStart : Holds [] start)
    (kept : ∀ events event state after, Holds events state → allowed state event →
      step state event = some after → Holds (events ++ [event]) after)
    (run : Run step allowed start events state) : Holds events state := by
  induction run with
  | nil => exact atStart
  | snoc before permitted taken ih => exact kept _ _ _ _ ih permitted taken

def follow (step : State → Event → Option State) (permits : State → Event → Bool) (state : State) :
    List Event → Option State
  | [] => some state
  | event :: events =>
    if permits state event then (step state event).bind (follow step permits · events) else none

theorem Run.of_follow {permits : State → Event → Bool} {more : List Event} {last : State}
    (sound : ∀ state event, permits state event = true → allowed state event)
    (run : Run step allowed start events state) (followed : follow step permits state more = some last) :
    Run step allowed start (events ++ more) last := by
  induction more generalizing events state with
  | nil =>
    cases followed
    rw [List.append_nil]
    exact run
  | cons event more ih =>
    unfold follow at followed
    split at followed
    · next permitted =>
      obtain ⟨after, taken, rest⟩ := Option.bind_eq_some_iff.mp followed
      rw [List.append_cons]
      exact ih (run.snoc (sound _ _ permitted) taken) rest
    · cases followed

end Machine
