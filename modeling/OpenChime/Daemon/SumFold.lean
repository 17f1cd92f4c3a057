import Mathlib.Data.List.Chain
import OpenChime.Daemon.SumText

/-! The lines of a chunk (`oc_sum_chunk_lines`): neighbouring messages that say the same but for
their numbers become one line. No allocation fails. -/

set_option autoImplicit false

namespace OpenChime.Daemon.Sum

open OpenChime.Shared List

/-- `oc_sum_msg`; a missing text is the empty one. -/
structure ChunkMsg where
  id : Int
  parentId : Int
  author : Text
  text : Text

structure ChunkLine extends SumLine where
  indent : Bool

def ChunkMsg.isReply (m : ChunkMsg) : Bool := m.parentId != 0

/-- What `same_key` writes: `begun` is whether it wrote anything, `sp` and `dig` are its flags. -/
def keyFrom (begun sp dig : Bool) : Text → Text
  | [] => []
  | c :: rest =>
    if isSpace c then
      (if !sp && begun then [ascii ' '] else []) ++ keyFrom begun true false rest
    else if isDigit c then
      (if dig then [] else [ascii '#']) ++ keyFrom true false true rest
    else lower c :: keyFrom true false false rest

/-- The string in `same_key`'s buffer: where nothing is written, what it held before. -/
def sameKey (s held : Text) : Text :=
  let key := keyFrom false false false s
  if key.isEmpty then held else key

def authorOf (m : ChunkMsg) : Text :=
  if m.author.isEmpty then text "someone" else m.author

/-- The line of a run, which `m` begins. -/
def chunkLine (m : ChunkMsg) (run : List ChunkMsg) : ChunkLine where
  text := authorOf m ++ text ": " ++ m.text ++
    if 1 < run.length then text " (x" ++ text (toString run.length) ++ text ")" else []
  byAuthors := (text "\n").intercalate (addAll [] (run.map authorOf))
  refs := (run.map (·.id)).take citesMax
  all := run.map (·.id)
  kind := 0
  indent := m.isReply

/-- The loop from a run on that `m` began; `k0` and `k1` are what the two buffers hold. -/
def linesFrom (m : ChunkMsg) (run : List ChunkMsg) (k0 k1 : Text) : List ChunkMsg → List ChunkLine
  | [] => [chunkLine m run]
  | x :: rest =>
    let k1 := sameKey x.text k1
    if x.isReply != m.isReply || k0 != k1 then
      chunkLine m run :: linesFrom x [x] (sameKey x.text k0) k1 rest
    else linesFrom m (run ++ [x]) k0 k1 rest

def chunkLines : List ChunkMsg → List ChunkLine
  | [] => []
  | m :: rest => linesFrom m [m] (sameKey m.text []) [] rest

/-! What two messages have to agree in. -/

def mark (c : UInt8) : UInt8 :=
  if isSpace c then ascii ' ' else if isDigit c then ascii '#' else lower c

/-- The byte goes on a run of blanks or of digits. -/
def continues (previous : Option UInt8) (c : UInt8) : Bool :=
  previous.any isSpace && isSpace c || previous.any isDigit && isDigit c

def normalFrom (previous : Option UInt8) : Text → Text
  | [] => []
  | c :: rest => (if continues previous c then [] else [mark c]) ++ normalFrom (some c) rest

/-- A text in lower case, without the blanks it begins with, a mark for each run of digits and a
blank for each other run of blanks. -/
def normal (s : Text) : Text := normalFrom none (s.dropWhile isSpace)

structure ChunkMsg.Same (a b : ChunkMsg) : Prop where
  reply : a.isReply = b.isReply
  text : normal a.text = normal b.text

theorem not_isDigit {c : UInt8} (space : isSpace c = true) : isDigit c = false := by
  by_contra digit
  simp [isSpace, isDigit, ascii, UInt8.le_iff_toNat_le, ← UInt8.toNat_inj] at space digit
  omega

theorem keyFrom_begun (s : Text) (previous : Option UInt8) :
    keyFrom true (previous.any isSpace) (previous.any isDigit) s = normalFrom previous s := by
  induction s generalizing previous with
  | nil => rfl
  | cons c s ih =>
    have rest := ih (some c)
    simp only [keyFrom, normalFrom, continues, mark, ← rest]
    by_cases space : isSpace c = true
    · by_cases after : previous.any isSpace = true <;> simp [space, not_isDigit space, after]
    by_cases digit : isDigit c = true
    · by_cases after : previous.any isDigit = true <;> simp [space, digit, after]
    · simp [space, digit]

theorem keyFrom_eq (s : Text) (sp : Bool) : keyFrom false sp false s = normal s := by
  induction s generalizing sp with
  | nil => rfl
  | cons c s ih =>
    unfold normal
    by_cases space : isSpace c = true
    · rw [dropWhile_cons_of_pos space, keyFrom, if_pos space, Bool.and_false]
      exact ih true
    rw [dropWhile_cons_of_neg space, normalFrom, ← keyFrom_begun]
    by_cases digit : isDigit c = true
    · simp [keyFrom, space, digit, continues, mark]
    · simp [keyFrom, space, digit, continues, mark]

/-- What is written by a text that says something does not depend on what the buffer held. -/
theorem sameKey_eq {s : Text} (said : normal s ≠ []) (held : Text) : sameKey s held = normal s := by
  rw [sameKey, keyFrom_eq]
  exact if_neg (by simpa using said)

def ChunkMsg.Said (m : ChunkMsg) : Prop :=
  normal m.text ≠ []

/-- The lines are those of the runs, each its first message and the others, into which the messages
fall. A message that said nothing may stand in any run, and next to a run of such messages. -/
structure Folded (msgs : List ChunkMsg) (lines : List ChunkLine) (runs : List (ChunkMsg × List ChunkMsg)) : Prop where
  lines : lines = runs.map fun r => chunkLine r.1 (r.1 :: r.2)
  whole : (runs.flatMap fun r => r.1 :: r.2) = msgs
  reply : ∀ r ∈ runs, ∀ x ∈ r.1 :: r.2, x.isReply = r.1.isReply
  same : ∀ r ∈ runs, ∀ x ∈ r.1 :: r.2, ∀ y ∈ r.1 :: r.2, x.Said → y.Said → normal x.text = normal y.text
  apart : runs.IsChain fun r next => ∀ x ∈ r.1 :: r.2, x.Said ∨ next.1.Said → ¬next.1.Same x

theorem agree {run : List ChunkMsg} {key : Text} (keyed : ∀ x ∈ run, x.Said → normal x.text = key) :
    ∀ x ∈ run, ∀ y ∈ run, x.Said → y.Said → normal x.text = normal y.text := by
  intro x isX y isY saidX saidY
  rw [keyed x isX saidX, keyed y isY saidY]

theorem linesFrom_folded (m : ChunkMsg) (before msgs : List ChunkMsg) (k0 k1 : Text)
    (reply : ∀ x ∈ m :: before, x.isReply = m.isReply) (keyed : ∀ x ∈ m :: before, x.Said → normal x.text = k0) :
    ∃ later runs, Folded (m :: (before ++ msgs)) (linesFrom m (m :: before) k0 k1 msgs) ((m, later) :: runs) := by
  induction msgs generalizing m before k0 k1 with
  | nil => exact ⟨before, [], rfl, by simp, by simpa using reply, by simpa using agree keyed, isChain_singleton _⟩
  | cons x msgs ih =>
    unfold linesFrom
    dsimp only
    split
    · next differs =>
      have keyedX : ∀ y ∈ [x], y.Said → normal y.text = sameKey x.text k0 :=
        forall_mem_singleton.mpr fun said => (sameKey_eq said k0).symm
      obtain ⟨later, runs, rest⟩ := ih x [] (sameKey x.text k0) (sameKey x.text k1) (by simp) keyedX
      refine ⟨before, (x, later) :: runs, ?_, ?_, forall_mem_cons.mpr ⟨reply, rest.reply⟩,
        forall_mem_cons.mpr ⟨agree keyed, rest.same⟩, isChain_cons_cons.mpr ⟨?_, rest.apart⟩⟩
      · rw [rest.lines]
        rfl
      · rw [flatMap_cons, rest.whole]
        rfl
      · -- one that said something has the key it was compared by
        intro y isY said agrees
        have saidX : x.Said := said.elim (fun saidY => by rwa [ChunkMsg.Said, agrees.text]) id
        have saidY : y.Said := by rwa [ChunkMsg.Said, ← agrees.text]
        rw [sameKey_eq saidX, agrees.text, keyed y isY saidY, agrees.reply, reply y isY] at differs
        simp at differs
    · next agrees =>
      simp only [Bool.or_eq_true, bne_iff_ne, not_or, not_not] at agrees
      have keyedX (saidX : x.Said) : normal x.text = k0 := (sameKey_eq saidX k1).symm.trans agrees.2.symm
      have folded := ih m (before ++ [x]) k0 (sameKey x.text k1)
        (forall_mem_append.mpr ⟨reply, forall_mem_singleton.mpr agrees.1⟩)
        (forall_mem_append.mpr ⟨keyed, forall_mem_singleton.mpr keyedX⟩)
      rwa [append_assoc] at folded

theorem all_linesFrom (m : ChunkMsg) (run msgs : List ChunkMsg) (k0 k1 : Text) :
    (linesFrom m run k0 k1 msgs).flatMap (·.all) = (run ++ msgs).map (·.id) := by
  induction msgs generalizing m run k0 k1 with
  | nil => simp [linesFrom, chunkLine]
  | cons x msgs ih =>
    unfold linesFrom
    dsimp only
    split <;> simp [ih, chunkLine]

/-- No message is lost, and the lines are runs of messages that say the same. -/
theorem chunkLines_fold (msgs : List ChunkMsg) : (chunkLines msgs).flatMap (·.all) = msgs.map (·.id) ∧
    ∃ runs, Folded msgs (chunkLines msgs) runs := by
  cases msgs with
  | nil => exact ⟨rfl, [], rfl, rfl, by simp, by simp, isChain_nil⟩
  | cons m msgs =>
    refine ⟨all_linesFrom m [m] msgs _ _, ?_⟩
    obtain ⟨later, runs, folded⟩ := linesFrom_folded m [] msgs (sameKey m.text []) [] (by simp)
      (forall_mem_singleton.mpr fun said => (sameKey_eq said []).symm)
    exact ⟨_, folded⟩

/-- Blanks at the start do not count, and a message without a text is taken for the one before it. -/
theorem chunkLines_fold_others :
    (chunkLines [⟨1, 0, text "a", text " hi"⟩, ⟨2, 0, text "b", text "hi"⟩]).map (·.all) = [[1, 2]] ∧
    (chunkLines [⟨1, 0, text "a", text "no"⟩, ⟨2, 0, text "b", []⟩, ⟨3, 0, text "c", text "no"⟩]).map (·.all) =
      [[1], [2, 3]] := by
  decide +kernel

end OpenChime.Daemon.Sum
