import Mathlib.Data.List.Induction
import OpenChime.Shared.Text

/-! The query of a search as it is typed (`shared/searchq.c`): operators and free text. -/

set_option autoImplicit false

namespace OpenChime.Shared.SearchQuery

open List

/-- `from:`, `in:` and the others, in the order they are tried. -/
inductive Operator where
  | sender | channel | has | before | after | on
  deriving DecidableEq

def operators : List Operator := [.sender, .channel, .has, .before, .after, .on]

def Operator.spelling : Operator → Text
  | .sender => text "from:"
  | .channel => text "in:"
  | .has => text "has:"
  | .before => text "before:"
  | .after => text "after:"
  | .on => text "on:"

/-- The size of the field, or of the buffer, that the value is taken into. -/
def Operator.size : Operator → Nat
  | .sender => 64
  | .channel => 64
  | .has => 24
  | .before => 16
  | .after => 16
  | .on => 16

/-- `sizeof text` -/
def textMax : Nat := 512

def quote : UInt8 := ascii '"'
def isBlank (c : UInt8) : Bool := c == ascii ' ' || c == ascii '\t'

/-- `sq_take`: the value, and what follows it. -/
def sqTake (size : Nat) (p : Text) : Text × Text :=
  if p.head? = some quote then
    let p := p.drop 1
    (fitted size (p.takeWhile (· != quote)), (p.dropWhile (· != quote)).drop 1)
  else (fitted size (p.takeWhile (!isBlank ·)), p.dropWhile (!isBlank ·))

inductive Token where
  | op (operator : Operator) (value : Text)
  | word (value : Text)
  deriving DecidableEq

/-- What one turn of the loop reads at a character that is no blank. -/
def nextToken (p : Text) : Token × Text :=
  match operators.find? fun operator => startsCi operator.spelling p with
  | some operator =>
    let taken := sqTake operator.size (p.drop operator.spelling.length)
    (.op operator taken.1, taken.2)
  | none =>
    let taken := sqTake textMax p
    (.word taken.1, taken.2)

theorem length_sqTake_le (size : Nat) (p : Text) : (sqTake size p).2.length ≤ p.length := by
  unfold sqTake
  split
  · have dropped := (p.drop 1).length_dropWhile_le (· != quote)
    simp only [length_drop] at dropped ⊢
    omega
  · exact p.length_dropWhile_le _

theorem length_nextToken_lt {c : UInt8} {rest : Text} (solid : isBlank c = false) :
    (nextToken (c :: rest)).2.length < (c :: rest).length := by
  unfold nextToken
  split
  · next operator _ =>
    have spelled : 0 < operator.spelling.length := by cases operator <;> decide
    have shorter := length_sqTake_le operator.size ((c :: rest).drop operator.spelling.length)
    rw [length_drop] at shorter
    exact lt_of_le_of_lt shorter (by rw [length_cons]; omega)
  unfold sqTake
  split
  · have dropped := rest.length_dropWhile_le (· != quote)
    simp only [drop_succ_cons, drop_zero, length_drop, length_cons]
    omega
  · have dropped := rest.length_dropWhile_le (!isBlank ·)
    simp only [dropWhile_cons, solid, Bool.not_false, if_true, length_cons]
    omega

theorem length_left_lt {p rest : Text} {c : UInt8} (begun : p.dropWhile isBlank = c :: rest) :
    (nextToken (c :: rest)).2.length < p.length := by
  have solid : isBlank c = false := by
    have stopped := head?_dropWhile_not isBlank p
    rwa [begun] at stopped
  have shorter := p.length_dropWhile_le isBlank
  rw [begun] at shorter
  exact lt_of_lt_of_le (length_nextToken_lt solid) shorter

/-- What the loop reads of a query, turn by turn; nothing it does with it bears on the reading. -/
def tokens (p : Text) : List Token :=
  match _begun : p.dropWhile isBlank with
  | [] => []
  | c :: rest => (nextToken (c :: rest)).1 :: tokens (nextToken (c :: rest)).2
termination_by p.length
decreasing_by exact length_left_lt _begun

/-- The blanks behind the last token; a last turn of the loop finds nothing but them. -/
def blankEnd (p : Text) : Text :=
  match _begun : p.dropWhile isBlank with
  | [] => p
  | c :: rest => blankEnd (nextToken (c :: rest)).2
termination_by p.length
decreasing_by exact length_left_lt _begun

/-- What is read before the last turn of the loop. -/
def readBefore (q : Text) : List Token :=
  if blankEnd q = [] then (tokens q).dropLast else tokens q

/-- `oc_searchq`, with the loop's `tn`: how much of `text` is taken. The texts of `from` and `in` are
the sender's and the channel's. -/
structure SearchQ where
  text : Text
  tn : Nat
  (sender channel : Text)
  has : UInt32
  (before after : Text)
  nFilters : UInt8
  deriving DecidableEq

def hasBit (value : Text) : UInt32 :=
  if value = text "file" ∨ value = text "files" then 1
  else if value = text "link" ∨ value = text "links" then 2
  else if value = text "image" ∨ value = text "images" ∨ value = text "pic" ∨ value = text "pics" then 4
  else if value = text "video" ∨ value = text "videos" then 8
  else 0

def gapAt (tn : Nat) : Text :=
  if 0 < tn ∧ tn + 1 < textMax then [ascii ' '] else []

/-- A blank and `snprintf` at `text + tn`, which writes nothing when no room is left; `none` where
the room left has wrapped around. -/
def SearchQ.addText (sq : SearchQ) (piece : Text) : Option SearchQ :=
  let tn := sq.tn + (gapAt sq.tn).length
  if textMax < tn then none
  else some { sq with
    text := sq.text ++ gapAt sq.tn ++ fitted (textMax - tn) piece, tn := tn + piece.length }

def withoutSigil (value : Text) : Text :=
  if value.head? = some (ascii '#') then value.drop 1 else value

def SearchQ.turn (sq : SearchQ) : Token → Option SearchQ
  | .op .sender value =>
    some { sq with sender := value, nFilters := sq.nFilters + if value = [] then 0 else 1 }
  | .op .channel value =>
    let value := withoutSigil value
    some { sq with channel := value, nFilters := sq.nFilters + if value = [] then 0 else 1 }
  | .op .has value =>
    if hasBit value ≠ 0 then
      some { sq with has := sq.has ||| hasBit value, nFilters := sq.nFilters + 1 }
    else sq.addText (Operator.has.spelling ++ value)
  | .op .before value =>
    some { sq with before := value, nFilters := sq.nFilters + if value = [] then 0 else 1 }
  | .op .after value =>
    some { sq with after := value, nFilters := sq.nFilters + if value = [] then 0 else 1 }
  | .op .on value =>
    if value = [] then some sq
    else some { sq with before := value, after := value, nFilters := sq.nFilters + 1 }
  | .word value => if value = [] then some sq else sq.addText value

def readTokens (all : List Token) : Option SearchQ :=
  all.foldlM SearchQ.turn ⟨[], 0, [], [], 0, [], [], 0⟩

def searchqParse (q : Text) : Option SearchQ :=
  readTokens (tokens q)

def Token.piece : Token → Option Text
  | .op .has value => if hasBit value = 0 then some (Operator.has.spelling ++ value) else none
  | .word value => if value = [] then none else some value
  | _ => none

def joined (pieces : List Text) : Text :=
  pieces.foldl (fun joint piece => if joint = [] then piece else joint ++ ascii ' ' :: piece) []

def Token.sender : Token → Option Text
  | .op .sender value => some value
  | _ => none

def Token.channel : Token → Option Text
  | .op .channel value => some (withoutSigil value)
  | _ => none

def Token.before : Token → Option Text
  | .op .before value => some value
  | .op .on value => if value = [] then none else some value
  | _ => none

def Token.after : Token → Option Text
  | .op .after value => some value
  | .op .on value => if value = [] then none else some value
  | _ => none

def Token.bit : Token → UInt32
  | .op .has value => hasBit value
  | _ => 0

def Token.filters : Token → Bool
  | .op .channel value => withoutSigil value != []
  | .op .has value => hasBit value != 0
  | .op _ value => value != []
  | .word _ => false

def lastOf (field : Token → Option Text) (all : List Token) : Text := (all.filterMap field).getLast?.getD []

structure Supplied (all : List Token) (sq : SearchQ) : Prop where
  text : sq.text = fitted textMax (joined (all.filterMap Token.piece))
  sender : sq.sender = lastOf Token.sender all
  channel : sq.channel = lastOf Token.channel all
  has : sq.has = all.foldl (fun bits token => bits ||| token.bit) 0
  before : sq.before = lastOf Token.before all
  after : sq.after = lastOf Token.after all
  nFilters : sq.nFilters = UInt8.ofNat (all.countP Token.filters)

/-- How far `tn` counts over some pieces of text. -/
def reach (pieces : List Text) : Nat :=
  pieces.foldl (fun tn piece => tn + (gapAt tn).length + piece.length) 0

theorem joined_append (pieces : List Text) (piece : Text) : joined (pieces ++ [piece]) =
      if joined pieces = [] then piece else joined pieces ++ ascii ' ' :: piece := by
  rw [joined, foldl_append]
  rfl

theorem reach_append (pieces : List Text) (piece : Text) :
    reach (pieces ++ [piece]) = reach pieces + (gapAt (reach pieces)).length + piece.length := by
  rw [reach, foldl_append]
  rfl

theorem reach_le_append (pieces more : List Text) : reach pieces ≤ reach (pieces ++ more) := by
  induction more using reverseRecOn with
  | nil => rw [append_nil]
  | append_singleton more piece ih =>
    rw [← append_assoc, reach_append]
    omega

theorem reach_dropLast (pieces : List Text) : reach pieces.dropLast ≤ reach pieces := by
  rcases eq_nil_or_concat pieces with none | ⟨front, last, some⟩
  · rw [none, dropLast_nil]
  · rw [some, concat_eq_append, dropLast_concat]
    exact reach_le_append front [last]

/-- As far as the text has room, `tn` is its length. -/
theorem reach_joined {pieces : List Text} (some : ∀ piece ∈ pieces, piece ≠ []) :
    if (joined pieces).length < textMax then reach pieces = (joined pieces).length else textMax ≤ reach pieces := by
  induction pieces using reverseRecOn with
  | nil => rfl
  | append_singleton pieces piece ih =>
    have long := length_pos_iff.mpr (some piece (by simp))
    have counted := ih fun other member => some other (mem_append_left _ member)
    have gap : (gapAt (reach pieces)).length = if 0 < reach pieces ∧ reach pieces + 1 < textMax then 1 else 0 := by
      unfold gapAt
      split <;> rfl
    rw [reach_append, joined_append, gap]
    by_cases empty : joined pieces = []
    · have none : reach pieces = 0 := by simpa [empty, textMax] using counted
      split <;> simp_all
    · have begun := length_pos_iff.mpr empty
      rw [if_neg empty, length_append, length_cons]
      split at counted <;> split <;> split <;> omega

theorem reach_lt_iff {pieces : List Text} (some : ∀ piece ∈ pieces, piece ≠ []) :
    reach pieces < textMax ↔ (joined pieces).length < textMax := by
  have counted := reach_joined some
  split at counted <;> omega

variable {sq after : SearchQ}

theorem addText_reach {pieces : List Text} {piece : Text} (some : ∀ piece ∈ pieces, piece ≠ [])
    (written : sq.text = fitted textMax (joined pieces)) (counted : sq.tn = reach pieces)
    (room : reach pieces ≤ textMax) : sq.addText piece =
      .some { sq with text := fitted textMax (joined (pieces ++ [piece])), tn := reach (pieces ++ [piece]) } := by
  have held := reach_joined some
  rw [SearchQ.addText, counted, written, reach_append, joined_append, gapAt]
  by_cases inside : (joined pieces).length < textMax
  · rw [if_pos inside] at held
    have whole : fitted textMax (joined pieces) = joined pieces := take_of_length_le (by omega)
    rw [held, whole]
    by_cases empty : joined pieces = []
    · simp [empty, textMax, fitted]
    have begun := length_pos_iff.mpr empty
    rw [if_neg empty]
    by_cases blank : (joined pieces).length + 1 < textMax
    · have left : textMax - 1 - (joined pieces).length = textMax - ((joined pieces).length + 1) - 1 + 1 := by
        omega
      have first : (joined pieces).length ≤ textMax - 1 := by omega
      simp only [begun, blank, and_self, if_true, length_singleton]
      rw [if_neg (by omega), fitted, fitted, take_append, take_of_length_le first, left, append_assoc]
      rfl
    · have last : textMax - (joined pieces).length - 1 = 0 := by omega
      have all : textMax - 1 = (joined pieces).length := by omega
      simp only [blank, and_false, if_false, length_nil, Nat.add_zero]
      rw [if_neg (by omega), fitted, fitted, last, all]
      simp
  · -- no room is left, and what is joined on is cut off
    rw [if_neg inside] at held
    have full : reach pieces = textMax := by omega
    have begun : joined pieces ≠ [] := by
      rintro none
      rw [none] at inside
      exact inside (by decide)
    have cut : fitted textMax (joined pieces ++ ascii ' ' :: piece) = fitted textMax (joined pieces) :=
      take_append_of_le_length (by omega)
    rw [if_neg begun, cut, full]
    simp [fitted]

theorem addText_fields {piece : Text} (added : sq.addText piece = some after) :
    after = { sq with text := after.text, tn := sq.tn + (gapAt sq.tn).length + piece.length } := by
  unfold SearchQ.addText at added
  dsimp only at added
  split at added
  · cases added
  · rw [Option.some_inj] at added
    rw [← added]

/-- What a turn leaves in the other fields: what its own token supplies, or what was there. -/
structure Turned (sq : SearchQ) (token : Token) (done : SearchQ) : Prop where
  sender : done.sender = token.sender.getD sq.sender
  channel : done.channel = token.channel.getD sq.channel
  has : done.has = sq.has ||| token.bit
  before : done.before = token.before.getD sq.before
  after : done.after = token.after.getD sq.after
  nFilters : done.nFilters = sq.nFilters + if token.filters then 1 else 0

theorem turn_turned {token : Token} (done : sq.turn token = some after) : Turned sq token after := by
  have idle (value : Text) : Turned sq (.word value) sq :=
    ⟨rfl, rfl, by simp [Token.bit], rfl, rfl, by simp [Token.filters]⟩
  cases token with
  | word value =>
    simp only [SearchQ.turn] at done
    split at done
    · cases done
      exact idle value
    rw [addText_fields done]
    obtain ⟨sender, channel, has, before, after, nFilters⟩ := idle value
    exact ⟨sender, channel, has, before, after, nFilters⟩
  | op operator value =>
    cases operator with
    | has =>
      simp only [SearchQ.turn] at done
      split at done
      · next known =>
        cases done
        exact ⟨rfl, rfl, rfl, rfl, rfl, by simp [Token.filters, known]⟩
      next unknown =>
      rw [not_not] at unknown
      rw [addText_fields done]
      exact ⟨rfl, rfl, by simp [Token.bit, unknown], rfl, rfl, by simp [Token.filters, unknown]⟩
    | on =>
      simp only [SearchQ.turn] at done
      split at done
      · next empty =>
        cases done
        exact ⟨rfl, rfl, by simp [Token.bit], by simp [Token.before, empty], by simp [Token.after, empty],
          by simp [Token.filters, empty]⟩
      next some =>
      cases done
      exact ⟨rfl, rfl, by simp [Token.bit], by simp [Token.before, some], by simp [Token.after, some],
        by simp [Token.filters, some]⟩
    | _ =>
      cases done
      exact ⟨rfl, rfl, by simp [Token.bit], rfl, rfl, by simp [Token.filters]⟩

theorem lastOf_append (field : Token → Option Text) (all : List Token) (token : Token) :
    lastOf field (all ++ [token]) = (field token).getD (lastOf field all) := by
  rw [lastOf]
  cases found : field token with
  | none => simp [found, lastOf]
  | some value => simp [found]

theorem Supplied.next {all : List Token} {token : Token} (supplied : Supplied all sq) (turned : Turned sq token after)
    (text : after.text = fitted textMax (joined ((all ++ [token]).filterMap Token.piece))) :
    Supplied (all ++ [token]) after := by
  refine ⟨text, ?_, ?_, ?_, ?_, ?_, ?_⟩
  · rw [turned.sender, supplied.sender, lastOf_append]
  · rw [turned.channel, supplied.channel, lastOf_append]
  · rw [turned.has, supplied.has, foldl_append]
    rfl
  · rw [turned.before, supplied.before, lastOf_append]
  · rw [turned.after, supplied.after, lastOf_append]
  · rw [turned.nFilters, supplied.nFilters, countP_append]
    cases counts : token.filters <;> simp [counts]

theorem turn_of_piece (sq : SearchQ) (token : Token) :
    (∃ piece, piece ≠ [] ∧ token.piece = some piece ∧ sq.turn token = sq.addText piece) ∨
      token.piece = none ∧ ∃ after, sq.turn token = some after ∧ after.text = sq.text ∧ after.tn = sq.tn := by
  cases token with
  | word value =>
    by_cases empty : value = []
    · exact Or.inr ⟨by simp [Token.piece, empty], sq, by simp [SearchQ.turn, empty], rfl, rfl⟩
    · exact Or.inl ⟨value, empty, by simp [Token.piece, empty], by simp [SearchQ.turn, empty]⟩
  | op operator value =>
    cases operator with
    | has =>
      by_cases unknown : hasBit value = 0
      · refine Or.inl ⟨_, ?_, by rw [Token.piece, if_pos unknown], by simp [SearchQ.turn, unknown]⟩
        simp [Operator.spelling, text]
      · exact Or.inr ⟨by simp [Token.piece, unknown], _, if_pos unknown, rfl, rfl⟩
    | on =>
      by_cases empty : value = []
      · exact Or.inr ⟨rfl, sq, by simp [SearchQ.turn, empty], rfl, rfl⟩
      · exact Or.inr ⟨rfl, _, if_neg empty, rfl, rfl⟩
    | _ => exact Or.inr ⟨rfl, _, rfl, rfl, rfl⟩

theorem piece_ne_nil {all : List Token} : ∀ piece ∈ all.filterMap Token.piece, piece ≠ [] := by
  intro piece member
  obtain ⟨token, -, isPiece⟩ := mem_filterMap.mp member
  rcases turn_of_piece ⟨[], 0, [], [], 0, [], [], 0⟩ token with ⟨other, some, same, -⟩ | ⟨none, -⟩
  · cases isPiece.symm.trans same
    exact some
  · cases isPiece.symm.trans none

theorem readTokens_append (all : List Token) (token : Token) :
    readTokens (all ++ [token]) = (readTokens all).bind fun sq => sq.turn token := by
  rw [readTokens, foldlM_append, readTokens]
  cases all.foldlM SearchQ.turn ⟨[], 0, [], [], 0, [], [], 0⟩ with
  | none => rfl
  | some sq => exact bind_pure (sq.turn token)

theorem readTokens_tn {all : List Token} (ran : readTokens all = some sq) :
    sq.tn = reach (all.filterMap Token.piece) := by
  induction all using reverseRecOn generalizing sq with
  | nil =>
    cases ran
    rfl
  | append_singleton all token ih =>
    rw [readTokens_append] at ran
    obtain ⟨before, earlier, turned⟩ := Option.bind_eq_some_iff.mp ran
    have counted := ih earlier
    rw [filterMap_append]
    rcases turn_of_piece before token with ⟨piece, -, isPiece, turns⟩ | ⟨noPiece, next, turns, -, tn⟩
    · have only : [token].filterMap Token.piece = [piece] := by simp [isPiece]
      rw [addText_fields (turns.symm.trans turned), only, reach_append, counted]
    have none : [token].filterMap Token.piece = [] := by simp [noPiece]
    cases turns.symm.trans turned
    rw [tn, counted, none, append_nil]

/-- The text is written as long as no piece but the last counts behind its end. -/
theorem readTokens_supplied (all : List Token) (room : reach (all.filterMap Token.piece).dropLast ≤ textMax) :
    ∃ sq, readTokens all = some sq ∧ Supplied all sq := by
  induction all using reverseRecOn with
  | nil => exact ⟨_, rfl, ⟨rfl, rfl, rfl, rfl, rfl, rfl, rfl⟩⟩
  | append_singleton all token ih =>
    rw [filterMap_append] at room
    cases isPiece : token.piece with
    | some piece =>
      have only : [token].filterMap Token.piece = [piece] := by simp [isPiece]
      rw [only, dropLast_concat] at room
      obtain ⟨sq, ran, supplied⟩ := ih ((reach_dropLast _).trans room)
      rcases turn_of_piece sq token with ⟨same, -, isSame, turns⟩ | ⟨none, -⟩
      · cases isPiece.symm.trans isSame
        have added := turns.trans (addText_reach piece_ne_nil supplied.text (readTokens_tn ran) room)
        refine ⟨_, by rw [readTokens_append, ran, Option.bind_some, added], supplied.next (turn_turned added) ?_⟩
        rw [filterMap_append, only]
      · cases isPiece.symm.trans none
    | none =>
      have none : [token].filterMap Token.piece = [] := by simp [isPiece]
      rw [none, append_nil] at room
      obtain ⟨sq, ran, supplied⟩ := ih room
      rcases turn_of_piece sq token with ⟨piece, -, some, -⟩ | ⟨-, after, turns, text, -⟩
      · cases isPiece.symm.trans some
      · refine ⟨after, by rw [readTokens_append, ran, Option.bind_some, turns], supplied.next (turn_turned turns) ?_⟩
        rw [filterMap_append, none, append_nil, text, supplied.text]

theorem readBefore_room (q : Text) :
    reach ((tokens q).filterMap Token.piece).dropLast ≤ reach ((readBefore q).filterMap Token.piece) := by
  unfold readBefore
  split
  · rcases eq_nil_or_concat (tokens q) with none | ⟨front, last, some⟩
    · rw [none]
      exact Nat.le_refl _
    rw [some, concat_eq_append, dropLast_concat, filterMap_append]
    cases isPiece : last.piece with
    | none => simpa [isPiece] using reach_dropLast (front.filterMap Token.piece)
    | some piece => simp [isPiece]
  · exact reach_dropLast _

/-- At each turn the text has room where it is written next, and the parsing leaves in each field
what the query supplies for it, exactly when the text read before the last turn has room. -/
theorem searchq_parse_iff (q : Text) :
    ((∀ front, front <+: readBefore q → ∃ sq, readTokens front = some sq ∧ sq.tn < textMax) ∧
      ∃ sq, searchqParse q = some sq ∧ Supplied (tokens q) sq) ↔
      (joined ((readBefore q).filterMap Token.piece)).length < textMax := by
  rw [← reach_lt_iff piece_ne_nil]
  constructor
  · rintro ⟨turns, -⟩
    obtain ⟨sq, ran, inside⟩ := turns _ (prefix_refl _)
    rwa [readTokens_tn ran] at inside
  · intro short
    refine ⟨?_, readTokens_supplied _ ((readBefore_room q).trans short.le)⟩
    rintro front ⟨more, all⟩
    rw [← all, filterMap_append] at short
    have shorter := reach_le_append (front.filterMap Token.piece) (more.filterMap Token.piece)
    have room := reach_dropLast (front.filterMap Token.piece)
    obtain ⟨sq, ran, -⟩ := readTokens_supplied front (by omega)
    refine ⟨sq, ran, ?_⟩
    rw [readTokens_tn ran]
    omega

theorem tokens_nil : tokens [] = [] := by
  rw [tokens]
  rfl

theorem tokens_cons {p rest left : Text} {c : UInt8} {token : Token} (begun : p.dropWhile isBlank = c :: rest)
    (read : nextToken (c :: rest) = (token, left)) : tokens p = token :: tokens left := by
  rw [tokens]
  split
  · next none =>
    simp [begun] at none
  next d more same =>
  rw [begun] at same
  cases same
  rw [read]

/-- Three words: the first fills the text, the second is counted behind its end, and the third is
written there. -/
theorem searchq_overruns : searchqParse (List.replicate 511 (ascii 'a') ++ text " bb c") = none := by
  decide +kernel

end OpenChime.Shared.SearchQuery
