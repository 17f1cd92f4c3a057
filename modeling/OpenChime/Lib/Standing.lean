import Mathlib.Data.List.Basic

/-! Pieces of a text that stand by themselves: whole names, whole numbers. -/

set_option autoImplicit false

namespace Standing

open List

variable {Char : Type}

/-- `piece` occurs in `text` with nothing of a word right before or after it. -/
def Stands (word : Char → Bool) (piece text : List Char) : Prop :=
  ∃ before after, text = before ++ piece ++ after ∧ before.getLast?.any word = false ∧ after.head?.any word = false

section Search

variable [BEq Char]

/-- Does `piece` stand at the front of `text`, after `prev`? -/
def standsHere (word : Char → Bool) (piece : List Char) (prev : Option Char) (text : List Char) :
    Bool :=
  piece.isPrefixOf text && !prev.any word && !(text.drop piece.length).head?.any word

def standsFrom (word : Char → Bool) (piece : List Char) : Option Char → List Char → Bool
  | prev, [] => standsHere word piece prev []
  | prev, c :: rest => standsHere word piece prev (c :: rest) || standsFrom word piece (some c) rest

def stands (word : Char → Bool) (piece text : List Char) : Bool := standsFrom word piece none text

variable [LawfulBEq Char] {word : Char → Bool} {piece text : List Char} {prev : Option Char}

theorem standsHere_iff : standsHere word piece prev text = true ↔
      ∃ after, text = piece ++ after ∧ prev.any word = false ∧ after.head?.any word = false := by
  unfold standsHere
  rw [Bool.and_eq_true, Bool.and_eq_true, isPrefixOf_iff_prefix, Bool.not_eq_true', Bool.not_eq_true']
  constructor
  · rintro ⟨⟨⟨after, rfl⟩, front⟩, back⟩
    rw [drop_left] at back
    exact ⟨after, rfl, front, back⟩
  · rintro ⟨after, rfl, front, back⟩
    rw [drop_left]
    exact ⟨⟨prefix_append piece after, front⟩, back⟩

theorem standsFrom_iff : standsFrom word piece prev text = true ↔ ∃ before after, text = before ++ piece ++ after ∧
        (before.getLast?.or prev).any word = false ∧ after.head?.any word = false := by
  induction text generalizing prev with
  | nil =>
    unfold standsFrom
    rw [standsHere_iff]
    constructor
    · rintro ⟨after, split, rest⟩
      exact ⟨[], after, split, rest⟩
    · rintro ⟨before, after, split, front, back⟩
      obtain ⟨nonePiece, noneAfter⟩ := append_eq_nil_iff.mp split.symm
      obtain ⟨rfl, rfl⟩ := append_eq_nil_iff.mp nonePiece
      exact ⟨after, noneAfter.symm, front, back⟩
  | cons c rest ih =>
    unfold standsFrom
    rw [Bool.or_eq_true, standsHere_iff, ih]
    constructor
    · rintro (⟨after, split, bounds⟩ | ⟨before, after, rfl, front, back⟩)
      · exact ⟨[], after, split, bounds⟩
      · refine ⟨c :: before, after, rfl, ?_, back⟩
        rw [getLast?_cons]
        cases last : before.getLast? with
        | none =>
          rwa [last] at front
        | some d =>
          rwa [last] at front
    · rintro ⟨before, after, split, front, back⟩
      cases before with
      | nil => exact .inl ⟨after, split, front, back⟩
      | cons d before =>
        cases split
        refine .inr ⟨before, after, rfl, ?_, back⟩
        rw [getLast?_cons] at front
        cases last : before.getLast? with
        | none =>
          rwa [last] at front
        | some d =>
          rwa [last] at front

theorem stands_iff : stands word piece text = true ↔ Stands word piece text := by
  unfold stands
  rw [standsFrom_iff]
  unfold Stands
  simp only [Option.or_none]

instance : Decidable (Stands word piece text) := decidable_of_iff _ stands_iff

end Search

theorem split_at {a b before after piece : List Char} {c : Char} (some : piece ≠ [])
    (notIn : c ∉ piece) (split : a ++ c :: b = before ++ (piece ++ after)) :
    (∃ after', a = before ++ piece ++ after' ∧ after = after' ++ c :: b) ∨
      ∃ before', b = before' ++ piece ++ after ∧ before = a ++ c :: before' := by
  rcases append_eq_append_iff.mp split with ⟨more, isBefore, rest⟩ | ⟨more, isA, rest⟩
  · cases more with
    | nil =>
      cases piece with
      | nil => exact absurd rfl some
      | cons d piece =>
        obtain ⟨rfl, -⟩ := List.cons.inj rest
        exact absurd mem_cons_self notIn
    | cons d more =>
      obtain ⟨rfl, rfl⟩ := List.cons.inj rest
      exact .inr ⟨more, (append_assoc _ _ _).symm, isBefore⟩
  rcases append_eq_append_iff.mp rest with ⟨gap, isMore, isAfter⟩ | ⟨gap, isPiece, tail⟩
  · refine .inl ⟨gap, ?_, isAfter⟩
    rw [isA, isMore, append_assoc]
  cases gap with
  | nil =>
    rw [append_nil] at isPiece
    refine .inl ⟨[], ?_, tail.symm⟩
    rw [isA, isPiece, append_nil]
  | cons d gap =>
    obtain ⟨rfl, -⟩ := List.cons.inj tail
    exact absurd (by rw [isPiece]; simp) notIn

section Bounds

variable {word : Char → Bool} {front back : List Char}

theorem head?_any_append (bound : (front ++ back).head?.any word = false) : front.head?.any word = false := by
  cases front with
  | nil => rfl
  | cons d front => exact bound

theorem getLast?_any_append (front : List Char) (bound : (front ++ back).getLast?.any word = false) :
    back.getLast?.any word = false := by
  cases last : back.getLast? with
  | none => rfl
  | some d =>
    rwa [getLast?_append, last] at bound

end Bounds

/-- The longest pieces of word characters, the first continuing `run`. -/
def runsFrom (word : Char → Bool) : List Char → List Char → List (List Char)
  | run, [] => if run.isEmpty then [] else [run]
  | run, c :: rest =>
    if word c then runsFrom word (run ++ [c]) rest
    else if run.isEmpty then runsFrom word [] rest else run :: runsFrom word [] rest

def runs (word : Char → Bool) (text : List Char) : List (List Char) := runsFrom word [] text

section Runs

variable {word : Char → Bool} {piece text run : List Char}

variable {before after : List Char}

theorem eq_nil_of_getLast? (all : ∀ c ∈ before, word c = true)
    (last : before.getLast?.any word = false) : before = [] := by
  cases found : before.getLast? with
  | none => exact getLast?_eq_none_iff.mp found
  | some c =>
    simp [found, Option.any_some, all c (mem_of_getLast? found)] at last

theorem eq_nil_of_head? (all : ∀ c ∈ after, word c = true) (first : after.head?.any word = false) : after = [] := by
  cases after with
  | nil => rfl
  | cons c after =>
    rw [head?_cons, Option.any_some, all c mem_cons_self] at first
    cases first

theorem eq_of_run (all : ∀ c ∈ run, word c = true) (split : run = before ++ piece ++ after)
    (front : before.getLast?.any word = false) (back : after.head?.any word = false) : piece = run := by
  have noneBefore : before = [] := by
    apply eq_nil_of_getLast? (fun c mem => all c ?_) front
    rw [split]
    exact mem_append_left _ (mem_append_left _ mem)
  have noneAfter : after = [] := by
    apply eq_nil_of_head? (fun c mem => all c ?_) back
    rw [split]
    exact mem_append_right _ mem
  rw [split, noneBefore, noneAfter, nil_append, append_nil]

theorem mem_runsFrom (all : ∀ c ∈ run, word c = true) (some : piece ≠ []) (ofWord : ∀ c ∈ piece, word c = true)
    (split : run ++ text = before ++ piece ++ after) (front : before.getLast?.any word = false)
    (back : after.head?.any word = false) : piece ∈ runsFrom word run text := by
  induction text generalizing run before with
  | nil =>
    rw [append_nil] at split
    cases eq_of_run all split front back
    unfold runsFrom
    rw [if_neg (by simpa using some)]
    exact mem_singleton.mpr rfl
  | cons c rest ih =>
    unfold runsFrom
    split
    · next isWord =>
      refine ih ?_ (by rw [← split, append_assoc]; rfl) front
      intro d mem
      rcases mem_append.mp mem with old | isNew
      · exact all d old
      · rw [mem_singleton.mp isNew]
        exact isWord
    next notWord =>
    have notIn : c ∉ piece := fun mem => notWord (ofWord c mem)
    rw [append_assoc] at split
    rcases split_at some notIn split with ⟨after', isRun, rfl⟩ | ⟨before', isRest, rfl⟩
    · cases eq_of_run all isRun front (head?_any_append back)
      rw [if_neg (by simpa using some)]
      exact mem_cons_self
    have later : piece ∈ runsFrom word [] rest :=
      ih (by simp) isRest (getLast?_any_append (run ++ [c]) (by simpa using front))
    split
    · exact later
    · exact mem_cons_of_mem _ later

theorem mem_runs (some : piece ≠ []) (ofWord : ∀ c ∈ piece, word c = true)
    (stands : Stands word piece text) : piece ∈ runs word text := by
  obtain ⟨before, after, split, front, back⟩ := stands
  exact mem_runsFrom (by simp) some ofWord split front back

end Runs

section Join

variable {word : Char → Bool} {piece : List Char} {gap : Char} {texts : List (List Char)}

theorem Stands.of_join (some : piece ≠ []) (notIn : gap ∉ piece)
    (stands : Stands word piece ([gap].intercalate texts)) :
    ∃ text ∈ texts, Stands word piece text := by
  induction texts with
  | nil =>
    obtain ⟨before, after, split, -⟩ := stands
    have noPiece : before ++ piece = [] := (append_eq_nil_iff.mp split.symm).1
    exact absurd (append_eq_nil_iff.mp noPiece).2 some
  | cons first texts ih =>
    cases texts with
    | nil => exact ⟨first, mem_singleton.mpr rfl, by simpa using stands⟩
    | cons second texts =>
      obtain ⟨before, after, split, front, back⟩ := stands
      rw [intercalate_cons_cons, append_assoc, append_assoc] at split
      rcases split_at some notIn split with ⟨after', isFirst, rfl⟩ | ⟨before', isRest, rfl⟩
      · exact ⟨first, mem_cons_self, before, after', isFirst, front, head?_any_append back⟩
      obtain ⟨text, mem, inText⟩ := ih ⟨before', after, isRest,
        getLast?_any_append (first ++ [gap]) (by simpa using front), back⟩
      exact ⟨text, mem_cons_of_mem _ mem, inText⟩

end Join

end Standing
