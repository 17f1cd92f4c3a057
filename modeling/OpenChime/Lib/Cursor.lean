import Mathlib.Data.Nat.Basic

/-! Loops that move a position towards a limit. One turn of a loop stops it or goes on from a later
position; a loop whose turns all advance needs no more turns than there are positions left. -/

set_option autoImplicit false

namespace Cursor

inductive Turn (State Result : Type) where
  | stop (result : Result)
  | on (position : Nat) (state : State)

variable {State Result : Type}

def spin (turn : Nat → State → Turn State Result) (finish : Nat → State → Result) (limit : Nat) :
    Nat → Nat → State → Result
  | 0, position, state => finish position state
  | turns + 1, position, state =>
    if position < limit then
      match turn position state with
      | .stop result => result
      | .on next after => spin turn finish limit turns next after
    else finish position state

/-- The loop `while (position < limit) turn`, and what comes of it. -/
def run (turn : Nat → State → Turn State Result) (finish : Nat → State → Result)
    (limit position : Nat) (state : State) : Result :=
  spin turn finish limit (limit - position) position state

def Advancing (turn : Nat → State → Turn State Result) (limit : Nat) : Prop :=
  ∀ position state next after, position < limit → turn position state = .on next after → position < next

section Loop

variable {turn : Nat → State → Turn State Result} {finish : Nat → State → Result} {limit : Nat}

variable {position : Nat} {state : State}

theorem spin_turns (advancing : Advancing turn limit) {turns turns' : Nat}
    (enough : limit - position ≤ turns) (enough' : limit - position ≤ turns') :
    spin turn finish limit turns position state = spin turn finish limit turns' position state := by
  have ended (turns position : Nat) (state : State) (past : limit ≤ position) :
      spin turn finish limit turns position state = finish position state := by
    cases turns with
    | zero => rfl
    | succ turns => rw [spin, if_neg (not_lt.mpr past)]
  induction turns generalizing turns' position state with
  | zero =>
    rw [ended 0 position state (by omega), ended turns' position state (by omega)]
  | succ turns ih =>
    by_cases inside : position < limit
    · cases turns' with
      | zero => omega
      | succ turns' =>
        rw [spin, spin, if_pos inside, if_pos inside]
        cases taken : turn position state with
        | stop result => rfl
        | on next after =>
          have later := advancing position state next after inside taken
          exact ih (by omega) (by omega)
    · rw [ended _ position state (by omega), ended _ position state (by omega)]

theorem run_done (past : limit ≤ position) (state : State) :
    run turn finish limit position state = finish position state := by
  rw [run, Nat.sub_eq_zero_of_le past, spin]

theorem run_stop {result : Result} (inside : position < limit) (taken : turn position state = .stop result) :
    run turn finish limit position state = result := by
  obtain ⟨turns, left⟩ : ∃ turns, limit - position = turns + 1 := ⟨limit - position - 1, by omega⟩
  rw [run, left, spin, if_pos inside, taken]

theorem run_on (advancing : Advancing turn limit) {next : Nat} {after : State}
    (inside : position < limit) (taken : turn position state = .on next after) :
    run turn finish limit position state = run turn finish limit next after := by
  obtain ⟨turns, left⟩ : ∃ turns, limit - position = turns + 1 := ⟨limit - position - 1, by omega⟩
  have later := advancing position state next after inside taken
  rw [run, left, spin, if_pos inside, taken]
  exact spin_turns advancing (by omega) (le_refl _)

theorem run_holds (Holds : Nat → State → Prop) (Wanted : Result → Prop) (advancing : Advancing turn limit)
    (stops : ∀ position state result, position < limit → Holds position state →
      turn position state = .stop result → Wanted result)
    (goesOn : ∀ position state next after, position < limit → Holds position state →
      turn position state = .on next after → Holds next after)
    (ends : ∀ position state, limit ≤ position → Holds position state →
      Wanted (finish position state)) (holds : Holds position state) :
    Wanted (run turn finish limit position state) := by
  have reached (turns : Nat) : ∀ position state, limit - position ≤ turns → Holds position state →
      Wanted (run turn finish limit position state) := by
    induction turns with
    | zero =>
      intro position state few holds
      rw [run_done (by omega)]
      exact ends position state (by omega) holds
    | succ turns ih =>
      intro position state few holds
      by_cases inside : position < limit
      · cases taken : turn position state with
        | stop result =>
          rw [run_stop inside taken]
          exact stops position state result inside holds taken
        | on next after =>
          have later := advancing position state next after inside taken
          rw [run_on advancing inside taken]
          exact ih next after (by omega) (goesOn position state next after inside holds taken)
      · rw [run_done (by omega)]
        exact ends position state (by omega) holds
  exact reached (limit - position) position state (le_refl _) holds

end Loop

/-- The first position at or behind `position` that does not pass, or the limit. -/
def skip (passes : Nat → Bool) (limit position : Nat) : Nat :=
  run (fun position (_ : Unit) => if passes position then .on (position + 1) () else .stop position)
    (fun position _ => position) limit position ()

/-- The last position at or before `position` with no passing position just before it. -/
def back (passes : Nat → Bool) (low : Nat) : Nat → Nat
  | 0 => 0
  | position + 1 => if low < position + 1 ∧ passes position then back passes low position else position + 1

section Searches

variable {passes : Nat → Bool} {limit low position : Nat}

theorem advancing_skip : Advancing (fun position (_ : Unit) =>
    if passes position then (.on (position + 1) () : Turn Unit Nat) else .stop position) limit := by
  intro position state next after _ taken
  dsimp only at taken
  split at taken
  · cases taken
    exact Nat.lt_succ_self position
  · cases taken

theorem skip_done (past : limit ≤ position) : skip passes limit position = position := run_done past ()

theorem skip_stop (inside : position < limit) (fails : passes position = false) :
    skip passes limit position = position := by
  apply run_stop inside
  rw [fails]
  rfl

theorem skip_on (inside : position < limit) (pass : passes position = true) :
    skip passes limit position = skip passes limit (position + 1) := by
  apply run_on advancing_skip inside
  rw [pass]
  rfl

theorem skip_passes (passes : Nat → Bool) (inside : position ≤ limit) :
    position ≤ skip passes limit position ∧ skip passes limit position ≤ limit ∧
      (∀ p, position ≤ p → p < skip passes limit position → passes p = true) ∧
      (skip passes limit position < limit → passes (skip passes limit position) = false) := by
  induction left : limit - position generalizing position with
  | zero =>
    rw [skip_done (by omega)]
    refine ⟨le_refl _, inside, fun p low high => by omega, fun more => by omega⟩
  | succ turns ih =>
    cases pass : passes position with
    | false =>
      rw [skip_stop (by omega) pass]
      exact ⟨le_refl _, inside, fun p low high => by omega, fun _ => pass⟩
    | true =>
      obtain ⟨low, high, between, stopped⟩ := ih (show position + 1 ≤ limit by omega) (by omega)
      rw [skip_on (by omega) pass]
      refine ⟨by omega, high, ?_, stopped⟩
      intro p above below
      by_cases same : p = position
      · rw [same]
        exact pass
      · exact between p (by omega) below

end Searches

end Cursor
