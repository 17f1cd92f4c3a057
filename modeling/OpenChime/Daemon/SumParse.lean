import Mathlib.Algebra.Order.Ring.Nat
import Mathlib.Data.FinEnum
import OpenChime.Daemon.SumText

/-! `oc_sum_parse_notes` and `oc_sum_parse_final`: an answer read line by line into notes, and
into the parts of a summary. -/

set_option autoImplicit false

namespace OpenChime.Daemon.Sum

open OpenChime.Shared List

/-- `oc_sum_part`: a text that was kept. -/
structure SumPart where
  text : Text
  refs : List Int
  cited : List Nat

inductive NoteKind where
  | event
  | decision
  | action
  | question
deriving DecidableEq

structure Note where
  kind : NoteKind
  topic : Text
  part : SumPart
  all : List Int
  people : List Text

structure NotesState where
  notes : List Note
  dropped : Nat

def strcasecmp (a b : Text) : Bool := a.map lower == b.map lower

def noteKind (word : Text) : NoteKind :=
  if strcasecmp word (text "decision") then .decision
  else if strcasecmp word (text "action") then .action
  else if strcasecmp word (text "question") then .question
  else .event

/-- `strchr`: what stands before the first `c`, and after it. -/
def cutAt (c : UInt8) (s : Text) : Option (Text × Text) :=
  let before := s.takeWhile (· != c)
  if before.length < s.length then some (before, s.drop (before.length + 1)) else none

def threeParts (s : Text) : Option (Text × Text × Text) :=
  match cutAt (ascii '|') s with
  | none => none
  | some (kind, rest) =>
    match cutAt (ascii '|') rest with
    | none => none
    | some (topic, fact) => some (kind, topic, fact)

variable (lines : List SumLine)

def noteLine (st : NotesState) (row : Text) : NotesState :=
  let taken := takeCites lines.length row
  match if taken.2.isEmpty then none else threeParts taken.1 with
  | none => { st with dropped := st.dropped + if (tidy taken.1).isEmpty then 0 else 1 }
  | some (kind, topic, fact) =>
    let kept := keepChecked (allNames lines) lines taken.2 (tidy fact)
    let dropped := st.dropped + kept.2
    let repeats := !kept.1.isEmpty && st.notes.any fun note => wordsWithin kept.1 note.part.text
    if kept.1.isEmpty || saysNothing kept.1 || repeats then
      { st with dropped := dropped + if repeats then 1 else 0 }
    else
      let cites := citedLines lines taken.2
      let part := ⟨kept.1, gatherRefs cites, taken.2⟩
      ⟨st.notes ++ [⟨noteKind (tidy kind), tidy topic, part, gatherAll cites, gatherBy cites⟩], dropped⟩

/-- `oc_sum_parse_notes`; with `notesMax` 0, all notes are taken. -/
def parseNotes (notesMax : Nat) (answer : Text) : NotesState :=
  (splitAt (ascii '\n') answer).foldl (fun st row =>
    if notesMax = 0 ∨ st.notes.length < notesMax then noteLine lines st row else st) ⟨[], 0⟩

structure SumCaps where
  topics : Nat
  details : Nat
  attention : Nat
  more : Nat

def maxTopics : Nat := 6
def fullDetails : Nat := 3
def fullAttention : Nat := 5
def moreTopics : Nat := 10

structure SumTopic where
  title : Text
  para : Option SumPart
  details : List SumPart

/-- The parse under way: the topic that is open (`cur`) is not yet among `topics`. -/
structure FinalState where
  overview : Option SumPart
  topics : List SumTopic
  cur : Option SumTopic
  attention : List (SumPart × UInt8)
  more : List Text
  inAttention : Bool
  dropped : Nat

namespace FinalState

def start : FinalState := ⟨none, [], none, [], [], false, 0⟩

def topicCount (st : FinalState) : Nat := st.topics.length + st.cur.toList.length

def close (st : FinalState) : FinalState := { st with topics := st.topics ++ st.cur.toList, cur := none }

def allTopics (st : FinalState) : List SumTopic := st.topics ++ st.cur.toList

end FinalState

/-- `part_take`: the part, when anything of it is left, and how much was dropped. -/
def partTake (raw : Text) : Option SumPart × Nat :=
  let taken := takeCites lines.length raw
  let t := tidy taken.1
  if taken.2.isEmpty || t.isEmpty || saysNothing t then
    (none, if !t.isEmpty && taken.2.isEmpty then 1 else 0)
  else
    let kept := keepChecked (allNames lines) lines taken.2 t
    if kept.1.isEmpty then (none, kept.2)
    else (some ⟨kept.1, gatherRefs (citedLines lines taken.2), taken.2⟩, kept.2)

/-- Memory with `bytes` written at its start. -/
def overlay (memory bytes : List UInt8) : List UInt8 := (bytes ++ memory.drop bytes.length).take memory.length

/-- The memory `part_take` leaves where it was given a text: the text is worked on in place, and
what a shorter one leaves over stays behind its NUL. -/
def partTakeMemory (memory : List UInt8) : List UInt8 :=
  let raw := cstr memory
  let bare := takeBareCites lines.length raw
  let taken := takeBracketed lines.length 0 bare.1 bare.2
  let squeezed := squeeze false [] taken.1
  let t := tidy taken.1
  let at_ := squeezed.length - (dropMarks squeezed.length squeezed).length
  let memory := overlay memory (bare.1 ++ [0])
  let memory := overlay memory (taken.1 ++ [0])
  let memory := overlay memory (squeezed.take (at_ + t.length) ++
    List.replicate (squeezed.length + 1 - (at_ + t.length)) 0)
  if taken.2.isEmpty || t.isEmpty || saysNothing t then memory
  else
    overlay memory (squeezed.take at_ ++ (keepChecked (allNames lines) lines taken.2 t).1 ++ [0])

def strstr (needle : Text) : Text → Option Nat
  | [] => if needle.isEmpty then some 0 else none
  | c :: rest =>
    if startsWith needle (c :: rest) then some 0 else (strstr needle rest).map (· + 1)

def citeBytes (c : UInt8) : Bool := isDigit c || (text " ,-:[]").contains c || 128 ≤ c

/-- Citations written before the word "Overview:" are put after it, over what stands there.
Where nothing stands between the two, nor after the word, this writes over the line's NUL
(`true`). -/
def overviewFirst (s : Text) : Text × Bool :=
  let found := (strstr (text "Overview:") s).or (strstr (text "overview:") s)
  match if s.head?.any (fun c => isDigit c || c == ascii '[') then found else none with
  | none => (s, false)
  | some o =>
    let cites := (s.take o).rdropWhile (· == ascii ' ')
    if cites.all citeBytes && cites.length < 128 then
      let front := (s.drop o).take 9 ++ text " " ++ cites
      (front ++ s.drop front.length, decide (s.length < front.length))
    else (s, false)

theorem strstr_overview {front : Text} (apart : ascii 'O' ∉ front) (rest : Text) :
    strstr (text "Overview:") (front ++ (text "Overview:" ++ rest)) = some front.length := by
  induction front with
  | nil => rfl
  | cons c front ih =>
    obtain ⟨other, later⟩ := not_or.mp (mem_cons.not.mp apart)
    have differs : startsWith (text "Overview:") (c :: (front ++ (text "Overview:" ++ rest))) = false := by
      rw [startsWith, (by decide : text "Overview:" = ascii 'O' :: text "verview:"), isPrefixOf, beq_false_of_ne other]
      rfl
    rw [cons_append, strstr, differs, ih later]
    rfl

/-- A line that begins with citations, blanks and the word. -/
def citedOverview (cites : Text) (blanks : Nat) (rest : Text) : Text :=
  cites ++ replicate blanks (ascii ' ') ++ (text "Overview:" ++ rest)

theorem overviewFirst_cited {cites : Text} (marks : ∀ c ∈ cites, isDigit c || (text " ,-:[]").contains c)
    (opens : cites.head?.any fun c => isDigit c || c == ascii '[') (trimmed : cites.getLast? ≠ some (ascii ' '))
    (short : cites.length < 128) (blanks : Nat) (rest : Text) : (overviewFirst (citedOverview cites blanks rest)).1 =
      text "Overview: " ++ cites ++ (citedOverview cites blanks rest).drop (10 + cites.length) := by
  have all : cites.all citeBytes = true := by
    rw [all_eq_true]
    intro c member
    rw [citeBytes, marks c member, Bool.true_or]
  have front : (cites ++ replicate blanks (ascii ' ')).rdropWhile (· == ascii ' ') = cites := by
    induction blanks with
    | zero =>
      rw [replicate_zero, append_nil, rdropWhile_eq_self_iff]
      intro present
      rw [getLast?_eq_some_getLast present] at trimmed
      simpa using trimmed
    | succ blanks ih =>
      rw [replicate_succ', ← append_assoc, rdropWhile_concat_pos (· == ascii ' ') _ _ (by decide)]
      exact ih
  have apart : ascii 'O' ∉ cites ++ replicate blanks (ascii ' ') := by
    intro member
    rcases mem_append.mp member with cited | blank
    · exact absurd (marks _ cited) (by decide)
    · exact absurd (eq_of_mem_replicate blank) (by decide)
  have opened : (citedOverview cites blanks rest).head?.any (fun c => isDigit c || c == ascii '[') = true := by
    cases cites with
    | nil => cases opens
    | cons c cites => exact opens
  have found : strstr (text "Overview:") (citedOverview cites blanks rest) =
      some (cites ++ replicate blanks (ascii ' ')).length := strstr_overview apart rest
  unfold overviewFirst
  have word : (text "Overview:" ++ rest).take 9 ++ text " " = text "Overview: " := rfl
  simp only [opened, if_true, found, Option.some_or]
  rw [citedOverview, take_left, drop_left, front, all, decide_eq_true short, Bool.and_true, if_pos rfl, word,
    length_append]
  rfl

/-- The line's memory when its citations are moved: nothing past the line changes, and nothing of
it is lost, exactly when they begin with a digit or `[` and one blank stands after them. -/
theorem overview_moves_iff {cites : Text} (marks : ∀ c ∈ cites, isDigit c || (text " ,-:[]").contains c)
    (starts : cites.head?.any fun c => isDigit c || (text "[]").contains c)
    (trimmed : cites.getLast? ≠ some (ascii ' ')) (short : cites.length < 128) (blanks : Nat) (rest after : Text) :
    overlay (citedOverview cites blanks rest ++ 0 :: after) (overviewFirst (citedOverview cites blanks rest)).1 =
        text "Overview: " ++ cites ++ rest ++ 0 :: after ↔
      cites.head? ≠ some (ascii ']') ∧ blanks = 1 := by
  obtain ⟨c, cites, rfl⟩ := exists_cons_of_ne_nil (by rintro rfl; simp at starts : cites ≠ [])
  have nine : (text "Overview:").length = 9 ∧ (text "Overview: ").length = 10 := by decide
  by_cases closes : c = ascii ']'
  · subst closes
    refine iff_of_false (fun moved => ?_) (by simp)
    have untouched : overviewFirst (citedOverview (ascii ']' :: cites) blanks rest) =
        (citedOverview (ascii ']' :: cites) blanks rest, false) := rfl
    rw [untouched] at moved
    exact absurd (congrArg List.head? moved) (by simp [overlay, citedOverview]; decide)
  have opens : (c :: cites).head?.any (fun c => isDigit c || c == ascii '[') = true := by
    simpa [(by decide : text "[]" = [ascii '[', ascii ']']), closes] using starts
  rw [overviewFirst_cited marks opens trimmed short blanks rest, overlay]
  constructor
  · intro moved
    have lengths := congrArg List.length moved
    simp only [citedOverview, length_take, length_append, length_drop, length_replicate, length_cons, nine] at lengths
    exact ⟨by simpa using closes, by omega⟩
  · rintro ⟨-, rfl⟩
    have rest' : (citedOverview (c :: cites) 1 rest).drop (10 + (c :: cites).length) = rest := by
      rw [citedOverview, ← append_assoc]
      exact drop_left' (by simp [nine]; omega)
    rw [rest', drop_left']
    · simp [citedOverview, nine]
      omega
    · simp [citedOverview, nine]
      omega

theorem overview_moves_iff_one_blank : overlay (citedOverview (text "[1]") 1 (text " hi") ++ [0])
      (overviewFirst (citedOverview (text "[1]") 1 (text " hi"))).1 = text "Overview: [1] hi" ++ [0] :=
  (overview_moves_iff (by decide +kernel) (by decide) (by decide) (by decide) 1 (text " hi") []).mpr (by decide)

/-- Two blanks leave a byte of the word behind; with none, and nothing after the word, the line
runs on into the next one. -/
theorem overview_moves_wrongly : overlay (citedOverview (text "[1]") 2 (text " hi") ++ [0])
      (overviewFirst (citedOverview (text "[1]") 2 (text " hi"))).1 = text "Overview: [1]: hi" ++ [0] ∧
    overlay (citedOverview (text "[1]") 0 [] ++ 0 :: text "- x") (overviewFirst (citedOverview (text "[1]") 0 [])).1 =
      text "Overview: [1]- x" := by
  decide

def stripDots (s : Text) : Text := s.rdropWhile (· == ascii '.')

/-- "[12]" written into a title is dropped; `skip` bytes are still to be passed over. -/
def dropTitleCites : Nat → Text → Text
  | _, [] => []
  | skip + 1, _ :: rest => dropTitleCites skip rest
  | 0, c :: rest =>
    let digits := rest.takeWhile isDigit
    if c == ascii '[' && !digits.isEmpty && (rest.drop digits.length).head? == some (ascii ']') then
      dropTitleCites (digits.length + 1) rest
    else c :: dropTitleCites 0 rest

namespace FinalState

variable (caps : SumCaps)

def addTopic (st : FinalState) (title : Text) : FinalState :=
  let st := st.close
  if st.topicCount < caps.topics ∧ st.topicCount < maxTopics then
    { st with cur := some ⟨title, none, []⟩ }
  else st

def addMore (st : FinalState) (list : Text) : FinalState :=
  ((splitAt (ascii ';') list).filter (!·.isEmpty)).foldl (fun st item =>
    if st.more.length < caps.more ∧ st.more.length < moreTopics then
      let title := stripDots (tidy (dropTitleCites 0 (tidy item)))
      if title.isEmpty then st else { st with more := st.more ++ [title] }
    else st) st

def attentionKind (body : Text) : UInt8 × Text :=
  match cutAt (ascii ':') body with
  | none => (ascii 'a', body)
  | some (before, after) =>
    let front := before.rdropWhile isAlpha
    let fromWord := body.drop front.length
    let isQuestion := startsCi (text "question") fromWord
    (if isQuestion then ascii 'q' else ascii 'a',
      if isQuestion || startsCi (text "action") fromWord then front ++ after else body)

def addAttention (lines : List SumLine) (st : FinalState) (body : Text) :
    FinalState :=
  if st.attention.length < caps.attention ∧ st.attention.length < fullAttention then
    let read := attentionKind body
    let taken := partTake lines read.2
    match taken.1 with
    | none => { st with dropped := st.dropped + taken.2 }
    | some part =>
      if st.attention.any fun old => wordsWithin part.text old.1.text then
        { st with dropped := st.dropped + taken.2 + 1 }
      else
        { st with
          attention := st.attention ++ [(part, read.1)]
          dropped := st.dropped + taken.2 }
  else st

def addDetail (lines : List SumLine) (st : FinalState) (topic : SumTopic) (body : Text) : FinalState :=
  if topic.details.length < caps.details ∧ topic.details.length < fullDetails then
    let taken := partTake lines body
    match taken.1 with
    | none => { st with dropped := st.dropped + taken.2 }
    | some part =>
      if (topic.details.any fun old => wordsWithin part.text old.text) ||
          topic.para.any (fun para => wordsWithin part.text para.text) then
        { st with dropped := st.dropped + taken.2 + 1 }
      else
        { st with
          cur := some { topic with details := topic.details ++ [part] }
          dropped := st.dropped + taken.2 }
  else st

def addPara (lines : List SumLine) (st : FinalState) (topic : SumTopic) (body : Text) :
    FinalState :=
  let taken := partTake lines body
  { st with cur := some { topic with para := taken.1 }, dropped := st.dropped + taken.2 }

def addOverview (lines : List SumLine) (st : FinalState) (raw : Text) : FinalState :=
  let taken := partTake lines raw
  { st with overview := taken.1, dropped := st.dropped + taken.2 }

def bareTitle (lines : List SumLine) (st : FinalState) (s : Text) : FinalState :=
  let title := stripDots (tidy (takeCites lines.length s).1)
  if title.isEmpty then st.close else st.addTopic caps title

/-- A line that is no overview's, its leading blanks passed over. -/
def otherLine (lines : List SumLine) (st : FinalState) (s : Text) : FinalState :=
  let heading := tidy (s.drop 2)
  if startsWith (text "##") s && startsCi (text "Needs attention") heading then
    { st.close with inAttention := true }
  else if startsWith (text "##") s && startsCi (text "More topics:") heading then
    st.addMore caps (heading.drop 12)
  else if startsWith (text "##") s then
    addTopic caps { st with inAttention := false } (stripDots heading)
  else if startsCi (text "Needs attention") s then { st.close with inAttention := true }
  else if startsCi (text "More topics:") s then st.addMore caps (s.drop 12)
  else if st.inAttention && s.head? == some (ascii '-') then st.addAttention caps lines (s.drop 1)
  else
    match st.cur with
    | some topic =>
      if s.head? == some (ascii '-') then st.addDetail caps lines topic (s.drop 1)
      else if s.isEmpty then st
      else if topic.para.isNone then st.addPara lines topic s
      else st.bareTitle caps lines s
    | none =>
      if !s.isEmpty && (st.overview.isSome || st.topicCount ≠ 0) then st.bareTitle caps lines s
      else st

end FinalState

/-- `oc_sum_parse_final`'s loop over the lines, on the memory from the line on. `none`: a line was
read past the end of the answer. Every round takes a byte or more off the memory, so `fuel` is
its length. -/
def finalLines (caps : SumCaps) (lines : List SumLine) : Nat → List UInt8 → FinalState → Option FinalState
  | 0, _, st => some st
  | fuel + 1, memory, st =>
    let whole := cstr memory
    let row := whole.takeWhile (· != ascii '\n')
    let next := if row.length < whole.length then some (memory.drop (row.length + 1)) else none
    let s := skipSpaces row
    let read := overviewFirst s
    if startsCi (text "Overview:") read.1 then
      if st.overview.isNone && read.2 then
        match next with
        | none => none
        | some after =>
          -- the line runs on into the ones after it, which are then read as it left them
          let memory := read.1.drop 9 ++ after
          finalLines caps lines fuel ((partTakeMemory lines memory).drop (read.1.length - 9))
            (st.addOverview lines (cstr memory))
      else
        let st := if st.overview.isNone then st.addOverview lines (read.1.drop 9) else st
        match next with
        | none => some st
        | some after => finalLines caps lines fuel after st
    else
      let st := st.otherLine caps lines s
      match next with
      | none => some st
      | some after => finalLines caps lines fuel after st

structure DoneTopic where
  topic : SumTopic
  all : List Int
  people : List Text
  weight : Nat
  last : Int

structure SumFinal where
  overview : Option SumPart
  topics : List DoneTopic
  attention : List (SumPart × UInt8)
  more : List Text

def kindWeight (kind : UInt8) : Nat :=
  if kind == ascii 'd' || kind == ascii 'a' then 3 else if kind == ascii 'q' then 2 else 1

def SumTopic.done (topic : SumTopic) : DoneTopic :=
  let cited := addAll [] (topic.para.toList.flatMap (·.cited) ++ topic.details.flatMap (·.cited))
  let cites := citedLines lines cited
  let all := gatherAll cites
  ⟨topic, all, gatherBy cites, cites.foldl (fun w one => max w (kindWeight one.kind)) 1, all.foldl max 0⟩

def moreLeft (shown : List DoneTopic) (more : List Text) : List Text :=
  more.foldl (fun kept title =>
    if (shown.any fun topic => strcasecmp title topic.topic.title) || kept.any (strcasecmp title) then kept
    else kept ++ [title]) []

def FinalState.finish (st : FinalState) : Option SumFinal :=
  let topics := (st.allTopics.map (·.done lines)).filter fun topic =>
    topic.topic.para.isSome || !topic.topic.details.isEmpty
  let overview := st.overview.or (topics.head?.bind (·.topic.para))
  if overview.isSome || !topics.isEmpty then
    some ⟨overview, topics, st.attention, moreLeft topics st.more⟩
  else none

/-- The answer as it is in memory, read to the end; `none` when it was read past its end. -/
def parseFinal (caps : SumCaps) (lines : List SumLine) (answer : Text) : Option (Option SumFinal) :=
  (finalLines caps lines (answer.length + 1) (answer ++ [0]) .start).map (·.finish lines)

/-! Which texts of an answer are read, and what they must not say. -/

/-- Citations right before the word, and nothing after it: they are moved over the line's NUL. -/
def RunsOn (s : Text) : Prop :=
  ∃ cites, cites.head?.any (fun c => isDigit c || c == ascii '[') ∧ cites.all citeBytes ∧ cites.length < 128 ∧
    (s = cites ++ text "Overview:" ∨ s = cites ++ text "overview:")

/-- The texts of a summary's line that are taken for a part, whatever stands before the line. -/
def bodies (s : Text) : List Text :=
  let read := (overviewFirst s).1
  if startsCi (text "Overview:") read then [read.drop 9]
  else if startsWith (text "##") s || startsCi (text "Needs attention") s || startsCi (text "More topics:") s then []
  else if s.head? == some (ascii '-') then [(FinalState.attentionKind (s.drop 1)).2, s.drop 1]
  else [s]

def ClearPart (body : Text) : Prop :=
  let taken := takeCites lines.length body
  taken.2 ≠ [] → Clear lines taken.2 (tidy taken.1)

def ClearNote (row : Text) : Prop :=
  let taken := takeCites lines.length row
  taken.2 ≠ [] → ∀ kind topic fact, threeParts taken.1 = some (kind, topic, fact) → Clear lines taken.2 (tidy fact)

def SumPart.Faithful (lines : List SumLine) (part : SumPart) : Prop :=
  Sum.Faithful lines part.cited part.text

structure SumTopic.Faithful (lines : List SumLine) (topic : SumTopic) : Prop where
  para : ∀ part ∈ topic.para, part.Faithful lines
  details : ∀ part ∈ topic.details, part.Faithful lines

structure FinalState.Faithful (lines : List SumLine) (st : FinalState) : Prop where
  overview : ∀ part ∈ st.overview, part.Faithful lines
  topics : ∀ topic ∈ st.topics, topic.Faithful lines
  cur : ∀ topic ∈ st.cur, topic.Faithful lines
  attention : ∀ item ∈ st.attention, item.1.Faithful lines

variable {lines : List SumLine} {caps : SumCaps}

theorem noteLine_faithful {st : NotesState} {row : Text} (clear : ClearNote lines row)
    (old : ∀ note ∈ st.notes, note.part.Faithful lines) :
    ∀ note ∈ (noteLine lines st row).notes, note.part.Faithful lines := by
  unfold noteLine
  dsimp only
  split
  · exact old
  next kind topic fact read =>
  split
  · exact old
  intro note mem
  rcases mem_append.mp mem with was | isNew
  · exact old note was
  split at read
  · cases read
  next cited =>
  cases mem_singleton.mp isNew
  exact keepChecked_faithful (takeCites_lt row) (clear (by simpa using cited) kind topic fact read)

theorem parseNotes_faithful (notesMax : Nat) {rows : List Text} (clear : ∀ row ∈ rows, ClearNote lines row)
    {st : NotesState} (old : ∀ note ∈ st.notes, note.part.Faithful lines) :
    ∀ note ∈ (rows.foldl (fun st row =>
      if notesMax = 0 ∨ st.notes.length < notesMax then noteLine lines st row else st) st).notes,
      note.part.Faithful lines := by
  induction rows generalizing st with
  | nil => exact old
  | cons row rows ih =>
    obtain ⟨here, later⟩ := forall_mem_cons.mp clear
    rw [foldl_cons]
    apply ih later
    split
    · exact noteLine_faithful here old
    · exact old

theorem partTake_faithful {body : Text} (clear : ClearPart lines body) :
    ∀ part ∈ (partTake lines body).1, part.Faithful lines := by
  unfold partTake
  dsimp only
  split
  · simp
  next taken =>
  split
  · simp
  intro part isPart
  cases isPart
  refine keepChecked_faithful (takeCites_lt body) (clear fun none => taken ?_)
  rw [none]
  rfl

namespace FinalState

variable {st : FinalState} (ok : st.Faithful lines)

include ok

theorem Faithful.close : st.close.Faithful lines := by
  refine ⟨ok.overview, ?_, by simp [FinalState.close], ok.attention⟩
  intro topic mem
  rcases mem_append.mp mem with old | isCur
  · exact ok.topics topic old
  · exact ok.cur topic (Option.mem_toList.mp isCur)

theorem Faithful.addTopic (title : Text) : (st.addTopic caps title).Faithful lines := by
  have closed := ok.close
  unfold FinalState.addTopic
  dsimp only
  split
  · refine { closed with cur := ?_ }
    intro topic isNew
    cases isNew
    exact ⟨by simp, by simp⟩
  · exact closed

theorem Faithful.addMore (list : Text) : (st.addMore caps list).Faithful lines := by
  unfold FinalState.addMore
  generalize (splitAt (ascii ';') list).filter (!·.isEmpty) = items
  induction items generalizing st with
  | nil => exact ok
  | cons item items ih =>
    rw [foldl_cons]
    apply ih
    split
    · dsimp only
      split
      · exact ok
      · exact { ok with }
    · exact ok

theorem Faithful.addAttention {body : Text} (clear : ClearPart lines (attentionKind body).2) :
    (st.addAttention caps lines body).Faithful lines := by
  unfold FinalState.addAttention
  split
  · dsimp only
    split
    · exact { ok with }
    next part isPart =>
    split
    · exact { ok with }
    refine { ok with attention := ?_ }
    intro item mem
    rcases mem_append.mp mem with old | isNew
    · exact ok.attention item old
    · cases mem_singleton.mp isNew
      exact partTake_faithful clear part isPart
  · exact ok

theorem Faithful.addDetail {topic : SumTopic} {body : Text} (topicOk : topic.Faithful lines)
    (clear : ClearPart lines body) : (st.addDetail caps lines topic body).Faithful lines := by
  unfold FinalState.addDetail
  split
  · dsimp only
    split
    · exact { ok with }
    next part isPart =>
    split
    · exact { ok with }
    refine { ok with cur := ?_ }
    intro changed isChanged
    cases isChanged
    refine ⟨topicOk.para, ?_⟩
    intro detail mem
    rcases mem_append.mp mem with old | isNew
    · exact topicOk.details detail old
    · cases mem_singleton.mp isNew
      exact partTake_faithful clear part isPart
  · exact ok

theorem Faithful.addPara {topic : SumTopic} {body : Text} (topicOk : topic.Faithful lines)
    (clear : ClearPart lines body) : (st.addPara lines topic body).Faithful lines := by
  refine { ok with cur := ?_ }
  intro changed isChanged
  cases isChanged
  exact ⟨partTake_faithful clear, topicOk.details⟩

theorem Faithful.addOverview {raw : Text} (clear : ClearPart lines raw) : (st.addOverview lines raw).Faithful lines :=
  ⟨partTake_faithful clear, ok.topics, ok.cur, ok.attention⟩

theorem Faithful.bareTitle (s : Text) : (st.bareTitle caps lines s).Faithful lines := by
  unfold FinalState.bareTitle
  dsimp only
  split
  · exact ok.close
  · exact ok.addTopic _

theorem Faithful.otherLine {s : Text} (other : startsCi (text "Overview:") (overviewFirst s).1 = false)
    (clear : ∀ body ∈ bodies s, ClearPart lines body) : (st.otherLine caps lines s).Faithful lines := by
  have attention : FinalState.Faithful lines { st.close with inAttention := true } :=
    ⟨ok.close.overview, ok.close.topics, ok.close.cur, ok.close.attention⟩
  unfold FinalState.otherLine
  dsimp only
  split
  · exact attention
  split
  · exact ok.addMore _
  split
  · apply Faithful.addTopic
    exact { ok with }
  next noTopic =>
  split
  · exact attention
  next noAttention =>
  split
  · exact ok.addMore _
  next noMore =>
  have read : bodies s = if s.head? == some (ascii '-') then [(attentionKind (s.drop 1)).2, s.drop 1] else [s] := by
    simp [bodies, other, noTopic, noAttention, noMore]
  rw [read] at clear
  split
  · next item =>
    rw [if_pos (Bool.and_eq_true_iff.mp item).2] at clear
    exact ok.addAttention (clear _ mem_cons_self)
  split
  · next topic isCur =>
    have topicOk := ok.cur topic isCur
    split
    · next item =>
      rw [if_pos item] at clear
      exact ok.addDetail topicOk (clear _ (by simp))
    next noItem =>
    rw [if_neg noItem] at clear
    split
    · exact ok
    split
    · exact ok.addPara topicOk (clear s mem_cons_self)
    · exact ok.bareTitle s
  · split
    · exact ok.bareTitle s
    · exact ok

end FinalState

theorem prefix_of_strstr {needle s : Text} {o : Nat} (found : strstr needle s = some o) : needle <+: s.drop o := by
  induction s generalizing o with
  | nil =>
    unfold strstr at found
    split at found
    · next none =>
      cases found
      rw [isEmpty_iff.mp none]
      exact nil_prefix
    · cases found
  | cons c rest ih =>
    unfold strstr at found
    split at found
    · next starts =>
      cases found
      exact isPrefixOf_iff_prefix.mp starts
    · obtain ⟨later, isLater, rfl⟩ := Option.map_eq_some_iff.mp found
      exact ih isLater

theorem runsOn_of_overviewFirst {s : Text} (past : (overviewFirst s).2 = true) : RunsOn s := by
  unfold overviewFirst at past
  dsimp only at past
  split at past
  · cases past
  next o found =>
  split at found
  · next opens =>
    have word : ∃ spelled, (spelled = text "Overview:" ∨ spelled = text "overview:") ∧ spelled <+: s.drop o := by
      rcases Option.or_eq_some_iff.mp found with upper | ⟨-, lower⟩
      · exact ⟨_, .inl rfl, prefix_of_strstr upper⟩
      · exact ⟨_, .inr rfl, prefix_of_strstr lower⟩
    obtain ⟨spelled, spelling, rest, cut⟩ := word
    split at past
    · next short =>
      obtain ⟨all, fits⟩ := Bool.and_eq_true_iff.mp short
      have nine : spelled.length = 9 := by rcases spelling with rfl | rfl <;> rfl
      have before : (s.take o).rdropWhile (· == ascii ' ') <+: s.take o := rdropWhile_prefix _ _
      have lengths := congrArg length cut
      have bound := of_decide_eq_true past
      simp only [length_append, length_take, length_drop, nine, (by decide : (text " ").length = 1)] at lengths bound
      have shorter := before.length_le
      rw [length_take] at shorter
      have noRest : rest = [] := length_eq_zero_iff.mp (by omega)
      have noBlanks : (s.take o).rdropWhile (· == ascii ' ') = s.take o :=
        before.eq_of_length (by rw [length_take]; omega)
      have isLine : s = s.take o ++ spelled := by
        rw [← append_nil spelled, ← noRest, cut, take_append_drop]
      rw [noBlanks] at all fits
      refine ⟨s.take o, ?_, all, of_decide_eq_true fits, ?_⟩
      · rw [isLine] at opens
        cases front : s.take o with
        | nil =>
          rw [front] at opens
          rcases spelling with rfl | rfl <;> cases opens
        | cons c front' =>
          rwa [front] at opens
      · rcases spelling with rfl | rfl
        · exact .inl isLine
        · exact .inr isLine
    · cases past
  · cases found

theorem splitAt_eq (c : UInt8) (s : Text) : splitAt c s = s.takeWhile (· != c) ::
    if (s.takeWhile (· != c)).length < s.length then splitAt c (s.drop ((s.takeWhile (· != c)).length + 1))
    else [] := by
  induction s with
  | nil => rfl
  | cons d rest ih =>
    by_cases same : d = c
    · simp [splitAt.eq_2, same]
    · rw [splitAt.eq_2, ih]
      simp [same]

theorem finalLines_faithful (fuel : Nat) {rest : Text} (plain : 0 ∉ rest)
    (rows : ∀ row ∈ splitAt (ascii '\n') rest,
      ¬RunsOn (skipSpaces row) ∧ ∀ body ∈ bodies (skipSpaces row), ClearPart lines body)
    {st : FinalState} (ok : st.Faithful lines) :
    ∃ after, finalLines caps lines fuel (rest ++ [0]) st = some after ∧ after.Faithful lines := by
  induction fuel generalizing rest st with
  | zero => exact ⟨st, rfl, ok⟩
  | succ fuel ih =>
    rw [splitAt_eq, forall_mem_cons] at rows
    obtain ⟨⟨noRunning, clear⟩, later⟩ := rows
    have whole : cstr (rest ++ [0]) = rest := by
      unfold cstr
      rw [takeWhile_append_of_pos]
      · simp
      intro c member
      rw [bne_iff_ne]
      rintro rfl
      exact plain member
    have inside : (overviewFirst (skipSpaces (rest.takeWhile (· != ascii '\n')))).2 = false := by
      by_contra past
      exact noRunning (runsOn_of_overviewFirst (by simpa using past))
    -- the line is read, and then the ones after it
    have onward {st : FinalState} (ok : st.Faithful lines) : ∃ after,
        (match if (rest.takeWhile (· != ascii '\n')).length < rest.length then
            some ((rest ++ [0]).drop ((rest.takeWhile (· != ascii '\n')).length + 1)) else none with
          | none => some st
          | some after => finalLines caps lines fuel after st) = some after ∧ after.Faithful lines := by
      split
      · exact ⟨st, rfl, ok⟩
      next after isAfter =>
      split at isAfter
      · next more =>
        rw [if_pos more] at later
        cases isAfter
        rw [drop_append_of_le_length more]
        exact ih (fun member => plain (mem_of_mem_drop member)) later ok
      · cases isAfter
    unfold finalLines
    dsimp only
    rw [whole, inside]
    split
    · next isOverview =>
      rw [Bool.and_false, if_neg Bool.false_ne_true]
      have body := clear _ (by rw [bodies, if_pos isOverview]; exact mem_cons_self)
      refine onward ?_
      split
      · exact ok.addOverview body
      · exact ok
    · next other => exact onward (ok.otherLine (by simpa using other) clear)

def SumTopic.parts (topic : SumTopic) : List SumPart := topic.para.toList ++ topic.details

def SumFinal.parts (final : SumFinal) : List SumPart :=
  final.overview.toList ++ final.topics.flatMap (·.topic.parts) ++ final.attention.map (·.1)

theorem SumTopic.Faithful.parts {topic : SumTopic} (ok : topic.Faithful lines) :
    ∀ part ∈ topic.parts, part.Faithful lines := by
  intro part mem
  rcases mem_append.mp mem with isPara | isDetail
  · exact ok.para part (Option.mem_toList.mp isPara)
  · exact ok.details part isDetail

theorem FinalState.Faithful.finish {st : FinalState} (ok : st.Faithful lines) {final : SumFinal}
    (done : st.finish lines = some final) : ∀ part ∈ final.parts, part.Faithful lines := by
  have topicsOk : ∀ topic ∈ (st.allTopics.map (·.done lines)).filter (fun topic =>
      topic.topic.para.isSome || !topic.topic.details.isEmpty), topic.topic.Faithful lines := by
    intro topic mem
    obtain ⟨old, isOld, rfl⟩ := mem_map.mp (mem_filter.mp mem).1
    rcases mem_append.mp isOld with closed | isCur
    · exact ok.topics old closed
    · exact ok.cur old (Option.mem_toList.mp isCur)
  unfold FinalState.finish at done
  dsimp only at done
  split at done
  · cases done
    intro part mem
    rcases mem_append.mp mem with ofTopics | inAttention
    · rcases mem_append.mp ofTopics with isOverview | inTopic
      · have given := Option.mem_toList.mp isOverview
        rcases Option.or_eq_some_iff.mp given with own | ⟨-, standsIn⟩
        · exact ok.overview part own
        · obtain ⟨first, isFirst, isPara⟩ := Option.bind_eq_some_iff.mp standsIn
          exact (topicsOk first (mem_of_head? isFirst)).para part isPara
      · obtain ⟨topic, isTopic, isPart⟩ := mem_flatMap.mp inTopic
        exact (topicsOk topic isTopic).parts part isPart
    · obtain ⟨item, isItem, rfl⟩ := mem_map.mp inAttention
      exact ok.attention item isItem
  · cases done

def someCaps : SumCaps := ⟨2, 3, 3, 0⟩

def annsLine : List SumLine :=
  [⟨text "Ann: 3 done", text "Ann", [1], [1], 0⟩]

def annsAnswer : Text :=
  text "Overview: [1] Ann did 3.\n- [1] event | x | Ann did 3."

def threeLines : List SumLine :=
  [⟨text "Ann: hi J.", text "Ann", [1], [1], 0⟩, ⟨text "ok", text "J. Roe", [2], [2], 0⟩,
    ⟨text "bye", text "Roe", [3], [3], 0⟩]

theorem not_faithful {cited : List Nat} {s name : Text} (author : Author lines name)
    (stands : Standing.Stands isAlnum name s) (unsupported : ¬Supported lines cited name) : ¬Faithful lines cited s :=
  fun faithful => unsupported (faithful.people name author stands)

end OpenChime.Daemon.Sum
