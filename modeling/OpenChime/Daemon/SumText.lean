import Mathlib.Algebra.GroupWithZero.Nat
import Mathlib.Data.List.DropRight
import Mathlib.Data.List.Infix
import OpenChime.Lib.Standing
import OpenChime.Shared.Text

/-! Reading a model's answer: its citations, its sentences, and what the lines it cites say. -/

set_option autoImplicit false

namespace OpenChime.Daemon.Sum

open OpenChime.Shared List

def isAlpha (c : UInt8) : Bool := isLower c || isUpper c
def isAlnum (c : UInt8) : Bool := isAlpha c || isDigit c

/-- A numbered line of a prompt: its text, its authors (one to a line), the messages to show
for it and every one behind it, and a note's kind. -/
structure SumLine where
  text : Text
  byAuthors : Text
  refs : List Int
  all : List Int
  kind : UInt8

def startsWith (needle s : Text) : Bool := needle.isPrefixOf s

/-- The pieces of a text between `c`s: `strchr` over and over. -/
def splitAt (c : UInt8) : Text → List Text
  | [] => [[]]
  | d :: rest =>
    if d == c then [] :: splitAt c rest
    else match splitAt c rest with
      | [] => [[d]]
      | first :: more => (d :: first) :: more

/-- The names in a newline-separated list, each cut to its first 255 bytes. -/
def namesOf (list : Text) : List Text := ((splitAt (ascii '\n') list).map (·.take 255)).filter (!·.isEmpty)

/-- `by_add`, and `ints_add` and `idset_add` alike: once each, in the order met. -/
def addOnce {Item : Type} [BEq Item] (list : List Item) (item : Item) : List Item :=
  if list.contains item then list else list ++ [item]

def addAll {Item : Type} [BEq Item] (list items : List Item) : List Item := items.foldl addOnce list

/-- `strtol` on digits. -/
def strtol (digits : Text) : Nat := min (decimal digits) (2 ^ 63 - 1)

/-- `cite_range`: at most a thousand lines from `a`, those that exist. -/
def citeRange (count a z : Nat) (cited : List Nat) : List Nat :=
  addAll cited ((((List.range (min (z + 1 - a) 1000)).map (a + ·)).filter fun v => 1 ≤ v && v ≤ count).map (· - 1))

def skipSpaces (s : Text) : Text := s.dropWhile (· == ascii ' ')

def enDash : Text := [0xe2, 0x80, 0x93]
def emDash : Text := [0xe2, 0x80, 0x94]

/-- The second number of a range, when a dash and a number follow, and what is left. -/
def rangeEnd (dashes : List Text) (first : Nat) (s : Text) : Nat × Text :=
  let r := skipSpaces s
  match dashes.find? (startsWith · r) with
  | none => (first, s)
  | some dash =>
    let r := skipSpaces (r.drop dash.length)
    let digits := r.takeWhile isDigit
    if digits.isEmpty then (first, s) else (strtol digits, r.drop digits.length)

/-- The numbers at the start of `q`, "12", "12-15", "12, 15", and the text after them. Every
round reads a digit, so `fuel` is the length of `q`. -/
def bareNumbers (count : Nat) : Nat → Text → List Nat → List Nat × Text
  | 0, q, cited => (cited, q)
  | fuel + 1, q, cited =>
    let digits := q.takeWhile isDigit
    let first := strtol digits
    let ended := rangeEnd [text "-", enDash, emDash] first (q.drop digits.length)
    let cited := citeRange count first ended.1 cited
    let q := ended.2
    let r := skipSpaces (q.drop 1)
    if q.head? == some (ascii ',') && r.head?.any isDigit then bareNumbers count fuel r cited
    else (cited, q)

def afterMark (s : Text) : Text :=
  let s := skipSpaces s
  if s.head?.any (fun c => c == ascii '-' || c == ascii '*') then skipSpaces (s.drop 1) else s

def afterColon (q : Text) : Text :=
  if q.head? == some (ascii ':') then q.drop 1 else q

/-- `take_bare_cites`: citations without brackets at the start, after a bullet mark. -/
def takeBareCites (count : Nat) (s : Text) : Text × List Nat :=
  let p := afterMark s
  if !p.head?.any isDigit then (s, [])
  else
    let read := bareNumbers count p.length p []
    let q := afterColon read.2
    if q.head?.any (· != ascii ' ') then (s, [])
    else (s.take (s.length - p.length) ++ skipSpaces q, read.1)

/-- The numbers and ranges between two brackets. Every round drops a byte. -/
def bracketNumbers (count : Nat) : Nat → Text → List Nat → List Nat
  | 0, _, cited => cited
  | fuel + 1, q, cited =>
    match q with
    | [] => cited
    | c :: rest =>
      if !isDigit c then bracketNumbers count fuel rest cited
      else
        let digits := q.takeWhile isDigit
        let first := strtol digits
        -- blanks after the number are passed over whether or not a dash follows
        let q := skipSpaces (q.drop digits.length)
        if q.head? == some (ascii '-') then
          let r := skipSpaces (q.drop 1)
          let second := r.takeWhile isDigit
          let last := if second.isEmpty then first else strtol second
          bracketNumbers count fuel (r.drop second.length) (citeRange count first last cited)
        else bracketNumbers count fuel q (citeRange count first first cited)

/-- The inside of a bracketed citation the text after a `[` begins with. -/
def bracketed (rest : Text) : Option Text :=
  let inside := rest.takeWhile fun c =>
    isDigit c || c == ascii ' ' || c == ascii ',' || c == ascii '-'
  if inside.any isDigit && (rest.drop inside.length).head? == some (ascii ']') then some inside
  else none

/-- The text without its bracketed citations; `skip` bytes are still to be passed over. -/
def takeBracketed (count : Nat) : Nat → Text → List Nat → Text × List Nat
  | _, [], cited => ([], cited)
  | skip + 1, _ :: rest, cited => takeBracketed count skip rest cited
  | 0, c :: rest, cited =>
    match if c == ascii '[' then bracketed rest else none with
    | some inside =>
      takeBracketed count (inside.length + 1) rest (bracketNumbers count inside.length inside cited)
    | none =>
      let taken := takeBracketed count 0 rest cited
      (c :: taken.1, taken.2)

def takeCites (count : Nat) (s : Text) : Text × List Nat :=
  let bare := takeBareCites count s
  takeBracketed count 0 bare.1 bare.2

def isBlank (c : UInt8) : Bool := c == ascii ' ' || c == ascii '\t' || c == ascii '\r' || c == ascii '\n'

/-- One blank for a run of them, and none before punctuation; `written` is in reverse. -/
def squeeze : Bool → Text → Text → Text
  | _, written, [] => written.reverse
  | blank, written, c :: rest =>
    if isBlank c then squeeze true (if blank then written else ascii ' ' :: written) rest
    else
      let closing := blank && (text ".,;:!?)").contains c
      squeeze false (c :: if closing then written.drop 1 else written) rest

def bullet : Text := [0xe2, 0x80, 0xa2]

/-- What is left when one mark (after blanks) is taken off the front, if there is one. -/
def dropMark (s : Text) : Option Text :=
  let s := skipSpaces s
  let digits := s.takeWhile isDigit
  let after := s.drop digits.length
  if s.head?.any (fun c => c == ascii '-' || c == ascii '*' || c == ascii '#') &&
      !(s.drop 1).head?.any isDigit then some (s.drop 1)
  else if startsWith bullet s then some (s.drop 3)
  else if !digits.isEmpty && after.head?.any (fun c => c == ascii '.' || c == ascii ')') &&
      (after.drop 1).head? == some (ascii ' ') then some (after.drop 2)
  else none

def dropMarks : Nat → Text → Text
  | 0, s => skipSpaces s
  | fuel + 1, s =>
    match dropMark s with
    | some rest => dropMarks fuel rest
    | none => skipSpaces s

def tidy (s : Text) : Text :=
  let squeezed := squeeze false [] s
  (dropMarks squeezed.length squeezed).rdropWhile ((text " -*#,;:|").contains ·)

variable (lines : List SumLine)

def citedLines (cited : List Nat) : List SumLine := cited.filterMap (lines[·]?)

def numbersOk (cited : List Nat) (s : Text) : Bool :=
  (Standing.runs isDigit s).all fun run =>
    (citedLines lines cited).any fun cites => decide (run <:+: cites.text)

def hasName (s name : Text) : Bool := Standing.stands isAlnum name s

def allNames : List Text := addAll [] (lines.flatMap fun one => namesOf one.byAuthors)

def peopleOk (names : List Text) (lines : List SumLine) (cited : List Nat) (s : Text) : Bool :=
  names.all fun name =>
    name.length < 2 || !hasName s name || (citedLines lines cited).any fun cites =>
        hasName cites.text name || hasName cites.byAuthors name

/-- A full stop, or its like, that a blank or the end follows. -/
def endsSentence (c : UInt8) (rest : Text) : Bool :=
  (c == ascii '.' || c == ascii '!' || c == ascii '?') && rest.head?.all (· == ascii ' ')

/-- The sentences, the first continuing `current`; `between`: the blanks before one are being
passed over. -/
def sentencesFrom : Bool → Text → Text → List Text
  | _, current, [] => if current.isEmpty then [] else [current]
  | between, current, c :: rest =>
    if between && c == ascii ' ' then sentencesFrom true current rest
    else if endsSentence c rest then (current ++ [c]) :: sentencesFrom true [] rest
    else sentencesFrom false (current ++ [c]) rest

def sentences (s : Text) : List Text := sentencesFrom false [] s

/-- The sentences of `s` that pass both checks. -/
def checked (names : List Text) (lines : List SumLine) (cited : List Nat) (s : Text) : List Text :=
  (sentences s).filter fun one => numbersOk lines cited one && peopleOk names lines cited one

def glue (kept : List Text) : Text := [ascii ' '].intercalate kept

/-- `keep_checked`: the text, written over `s`, and how many sentences were dropped. -/
def keepChecked (names : List Text) (lines : List SumLine) (cited : List Nat) (s : Text) : Text × Nat :=
  let kept := checked names lines cited s
  (fitted (s.length + 1) (glue kept), (sentences s).length - kept.length)

/-- At most 1022 bytes, lower case, with blanks for what is no letter or digit. -/
def plainWords (s : Text) : Text := (s.take 1022).map fun c => if isAlnum c || 128 ≤ c then lower c else ascii ' '

def wordsWithin (s kept : Text) : Bool :=
  let padded := fitted 1100 (text " " ++ plainWords kept ++ text " ")
  ((splitAt (ascii ' ') (plainWords s)).filter (!·.isEmpty)).all fun word =>
    decide (fitted 300 (text " " ++ word ++ text " ") <:+: padded)

def nothings : List Text :=
  [text "none", text "n/a", text "na", text "nothing", text "none reported", text "no",
    text "not applicable", text "none noted", text "none mentioned"]

def saysNothing (s : Text) : Bool :=
  let cut := s.rdropWhile fun c => c == ascii '.' || c == ascii '!'
  nothings.any fun nothing => nothing == cut.map lower

def citesMax : Nat := 3

def gatherRound (cites : List SumLine) (refs : List Int) (round : Nat) : List Int :=
  cites.foldl (fun refs one =>
    if refs.length < citesMax then
      match one.refs[round]? with
      | some ref => addOnce refs ref
      | none => refs
    else refs) refs

/-- The messages to show: each line's first in turn, then each one's second, and so on. -/
def gatherRefs (cites : List SumLine) : List Int :=
  (List.range ((cites.map (·.refs.length)).foldl max 0)).foldl (gatherRound cites) []

def gatherAll (cites : List SumLine) : List Int := addAll [] (cites.flatMap (·.all))

def gatherBy (cites : List SumLine) : List Text := addAll [] (cites.flatMap fun one => namesOf one.byAuthors)

section Cited

variable {count : Nat} {cited : List Nat}

theorem mem_addOnce {Item : Type} [BEq Item] [LawfulBEq Item] {list : List Item} {item x : Item} :
    x ∈ addOnce list item ↔ x ∈ list ∨ x = item := by
  unfold addOnce
  split
  · next there =>
    have isIn : item ∈ list := by simpa using there
    constructor
    · exact .inl
    · rintro (mem | rfl)
      · exact mem
      · exact isIn
  · rw [mem_append, mem_singleton]

theorem mem_addAll {Item : Type} [BEq Item] [LawfulBEq Item] {list items : List Item} {x : Item} :
    x ∈ addAll list items ↔ x ∈ list ∨ x ∈ items := by
  unfold addAll
  induction items generalizing list with
  | nil => simp
  | cons item items ih =>
    rw [foldl_cons, ih, mem_addOnce, mem_cons, or_assoc]

theorem citeRange_lt {a z : Nat} (old : ∀ k ∈ cited, k < count) : ∀ k ∈ citeRange count a z cited, k < count := by
  intro k mem
  rcases mem_addAll.mp mem with was | isNew
  · exact old k was
  obtain ⟨v, inRange, rfl⟩ := mem_map.mp isNew
  have bounds := (mem_filter.mp inRange).2
  rw [Bool.and_eq_true, decide_eq_true_eq, decide_eq_true_eq] at bounds
  omega

theorem bareNumbers_lt (fuel : Nat) (q : Text) (old : ∀ k ∈ cited, k < count) :
    ∀ k ∈ (bareNumbers count fuel q cited).1, k < count := by
  induction fuel generalizing q cited with
  | zero => exact old
  | succ fuel ih =>
    unfold bareNumbers
    dsimp only
    split
    · exact ih _ (citeRange_lt old)
    · exact citeRange_lt old

theorem bracketNumbers_lt (fuel : Nat) (q : Text) (old : ∀ k ∈ cited, k < count) :
    ∀ k ∈ bracketNumbers count fuel q cited, k < count := by
  induction fuel generalizing q cited with
  | zero => exact old
  | succ fuel ih =>
    unfold bracketNumbers
    cases q with
    | nil => exact old
    | cons c rest =>
      dsimp only
      split
      · exact ih rest old
      split
      · exact ih _ (citeRange_lt old)
      · exact ih _ (citeRange_lt old)

theorem takeBracketed_lt (skip : Nat) (s : Text) (old : ∀ k ∈ cited, k < count) :
    ∀ k ∈ (takeBracketed count skip s cited).2, k < count := by
  induction s generalizing skip cited with
  | nil =>
    cases skip with
    | zero => exact old
    | succ skip => exact old
  | cons c rest ih =>
    cases skip with
    | succ skip => exact ih skip old
    | zero =>
      unfold takeBracketed
      split
      · exact ih _ (bracketNumbers_lt _ _ old)
      · exact ih 0 old

theorem takeCites_lt (s : Text) : ∀ k ∈ (takeCites count s).2, k < count := by
  unfold takeCites takeBareCites
  apply takeBracketed_lt
  dsimp only
  split
  · simp
  split
  · simp
  · exact bareNumbers_lt _ _ (by simp)

end Cited

/-- The room a list of texts takes when glued, with a blank after each. -/
def room (texts : List Text) : Nat := (texts.map (·.length + 1)).sum

theorem length_glue (texts : List Text) : (glue texts).length ≤ room texts - 1 := by
  unfold glue
  induction texts with
  | nil => simp
  | cons first texts ih =>
    cases texts with
    | nil => simp [room]
    | cons second texts =>
      rw [intercalate_cons_cons, length_append, length_append]
      simp only [room, map_cons, sum_cons, length_singleton] at ih ⊢
      omega

theorem room_filter (texts : List Text) (p : Text → Bool) : room (texts.filter p) ≤ room texts := by
  induction texts with
  | nil => simp
  | cons first texts ih =>
    unfold room at ih ⊢
    cases kept : p first with
    | true =>
      rw [filter_cons_of_pos kept]
      simp only [map_cons, sum_cons]
      omega
    | false =>
      rw [filter_cons_of_neg (by rw [kept]; exact Bool.false_ne_true)]
      simp only [map_cons, sum_cons]
      omega

/-- The blank passed over after a sentence pays for the one glued in its place. -/
theorem room_sentencesFrom (between : Bool) (current s : Text) :
    room (sentencesFrom between current s) ≤ current.length + s.length + 1 ∧
      (s.head?.all (· == ascii ' ') = true → room (sentencesFrom true [] s) ≤ s.length) := by
  induction s generalizing between current with
  | nil =>
    refine ⟨?_, fun _ => Nat.le_refl 0⟩
    unfold sentencesFrom
    split
    · simp [room]
    · simp [room]
  | cons c rest ih =>
    constructor
    · unfold sentencesFrom
      split
      · have later := (ih true current).1
        rw [length_cons]
        omega
      split
      · next ends =>
        unfold endsSentence at ends
        rw [Bool.and_eq_true] at ends
        have later := (ih true current).2 ends.2
        unfold room at later ⊢
        simp only [map_cons, sum_cons, length_append, length_cons, length_nil]
        omega
      · have later := (ih false (current ++ [c])).1
        rw [length_append, length_singleton] at later
        rw [length_cons]
        omega
    · intro blank
      have isBlank : (c == ascii ' ') = true := blank
      unfold sentencesFrom
      rw [isBlank, Bool.and_self]
      have later := (ih true []).1
      rwa [length_nil, Nat.zero_add] at later

theorem keepChecked_text (names : List Text) (lines : List SumLine) (cited : List Nat) (s : Text) :
    (keepChecked names lines cited s).1 = glue (checked names lines cited s) := by
  apply take_of_length_le
  have whole : room (sentences s) ≤ 0 + s.length + 1 := (room_sentencesFrom false [] s).1
  have part : room (checked names lines cited s) ≤ room (sentences s) := room_filter _ _
  have glued := length_glue (checked names lines cited s)
  omega

/-- An author of one of the lines: a name of 2 to 255 bytes, whole. -/
def Author (name : Text) : Prop :=
  2 ≤ name.length ∧ name.length ≤ 255 ∧ ∃ one ∈ lines, name ∈ splitAt (ascii '\n') one.byAuthors

def WholeNumber (run s : Text) : Prop := run ≠ [] ∧ (∀ c ∈ run, isDigit c = true) ∧ Standing.Stands isDigit run s

/-- `name` stands in the text of a cited line, or is one of its authors. -/
def Supported (cited : List Nat) (name : Text) : Prop :=
  ∃ one ∈ citedLines lines cited, Standing.Stands isAlnum name one.text ∨ name ∈ splitAt (ascii '\n') one.byAuthors

instance (lines : List SumLine) (name : Text) : Decidable (Author lines name) := by
  unfold Author
  infer_instance

instance (lines : List SumLine) (cited : List Nat) (name : Text) :
    Decidable (Supported lines cited name) := by
  unfold Supported
  infer_instance

structure Faithful (lines : List SumLine) (cited : List Nat) (s : Text) : Prop where
  cites : ∀ k ∈ cited, k < lines.length
  numbers : ∀ run, WholeNumber run s → ∃ one ∈ citedLines lines cited, run <:+: one.text
  people : ∀ name, Author lines name → Standing.Stands isAlnum name s → Supported lines cited name

/-- A name that stands in sentences glued together and in none of them. -/
def Straddles (name : Text) (some : List Text) : Prop :=
  Standing.Stands isAlnum name (glue some) ∧ ∀ one ∈ some, ¬Standing.Stands isAlnum name one

/-- No author whom the cited lines do not support stands across the ends of a text's sentences, or
stands in one of them and among the authors of a cited line, as part of what one is called. -/
def Clear (cited : List Nat) (s : Text) : Prop :=
  ∀ name, Author lines name → ¬Supported lines cited name →
    (∀ some, some.Sublist (sentences s) → ¬Straddles name some) ∧
      ∀ sentence ∈ sentences s, Standing.Stands isAlnum name sentence →
        ∀ one ∈ citedLines lines cited, ¬Standing.Stands isAlnum name one.byAuthors

section Kept

variable {lines : List SumLine} {cited : List Nat} {names : List Text} {s : Text}

theorem checked_numbers {run : Text} (whole : WholeNumber run (glue (checked names lines cited s))) :
    ∃ one ∈ citedLines lines cited, run <:+: one.text := by
  obtain ⟨some, digits, stands⟩ := whole
  have noBlank : ascii ' ' ∉ run := fun mem => absurd (digits _ mem) (by decide)
  obtain ⟨sentence, mem, inSentence⟩ := stands.of_join some noBlank
  have passed := (mem_filter.mp mem).2
  rw [Bool.and_eq_true] at passed
  have isRun := Standing.mem_runs some digits inSentence
  have found := all_eq_true.mp passed.1 run isRun
  obtain ⟨one, isCited, occurs⟩ := any_eq_true.mp found
  exact ⟨one, isCited, of_decide_eq_true occurs⟩

theorem mem_allNames {name : Text} (author : Author lines name) : name ∈ allNames lines := by
  obtain ⟨long, short, one, isLine, isName⟩ := author
  refine mem_addAll.mpr (.inr (mem_flatMap.mpr ⟨one, isLine, ?_⟩))
  refine mem_filter.mpr ⟨mem_map.mpr ⟨name, isName, take_of_length_le short⟩, ?_⟩
  cases name with
  | nil => cases long
  | cons c name => rfl

/-- A sentence that passed names only those its lines name, or whose name stands among their
authors. -/
theorem checked_people {name sentence : Text} (author : Author lines name)
    (mem : sentence ∈ checked (allNames lines) lines cited s) (stands : Standing.Stands isAlnum name sentence) :
    ∃ one ∈ citedLines lines cited,
      Standing.Stands isAlnum name one.text ∨ Standing.Stands isAlnum name one.byAuthors := by
  have passed := (mem_filter.mp mem).2
  rw [Bool.and_eq_true] at passed
  have checkedName := all_eq_true.mp passed.2 name (mem_allNames author)
  have long : decide (name.length < 2) = false := decide_eq_false (not_lt.mpr author.1)
  have isNamed : hasName sentence name = true := Standing.stands_iff.mpr stands
  rw [long, isNamed, Bool.not_true, Bool.false_or] at checkedName
  obtain ⟨one, isCited, found⟩ := any_eq_true.mp checkedName
  rw [Bool.or_eq_true] at found
  refine ⟨one, isCited, ?_⟩
  rcases found with inText | inAuthors
  · exact .inl (Standing.stands_iff.mp inText)
  · exact .inr (Standing.stands_iff.mp inAuthors)

theorem keepChecked_faithful (cites : ∀ k ∈ cited, k < lines.length) (clear : Clear lines cited s) :
    Faithful lines cited (keepChecked (allNames lines) lines cited s).1 := by
  rw [keepChecked_text]
  refine ⟨cites, fun run whole => checked_numbers whole, ?_⟩
  intro name author stands
  by_contra unsupported
  obtain ⟨notAcross, notPart⟩ := clear name author unsupported
  by_cases inOne : ∃ one ∈ checked (allNames lines) lines cited s, Standing.Stands isAlnum name one
  · obtain ⟨sentence, mem, inSentence⟩ := inOne
    obtain ⟨one, isCited, inText | inAuthors⟩ := checked_people author mem inSentence
    · exact unsupported ⟨one, isCited, .inl inText⟩
    · exact notPart sentence (mem_filter.mp mem).1 inSentence one isCited inAuthors
  · exact notAcross _ filter_sublist ⟨stands, fun one mem inSentence => inOne ⟨one, mem, inSentence⟩⟩

end Kept

end OpenChime.Daemon.Sum
