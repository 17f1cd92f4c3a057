import Mathlib.Algebra.Group.Nat.Defs
import Mathlib.Data.List.Basic
import OpenChime.Shared.SearchQuery

/-! A parsed query shown back (`oc_searchq_describe`), and what reading it again gives. -/

set_option autoImplicit false

namespace OpenChime.Shared.SearchQuery

open List

def Token.spelled : Token → Text
  | .op operator value => operator.spelling ++ value
  | .word value => value

def shownIf (operator : Operator) (value : Text) : List Token :=
  if value = [] then [] else [.op operator value]

def hasNames : List (UInt32 × Text) := [(1, text "file"), (2, text "link"), (4, text "image"), (8, text "video")]

def shownHas (has : UInt32) : List Token :=
  (hasNames.filter fun name => has &&& name.1 != 0).map fun name => .op .has name.2

def SearchQ.shown (sq : SearchQ) : List Token :=
  shownIf .sender sq.sender ++ shownIf .channel sq.channel ++ shownHas sq.has ++
    if sq.after ≠ [] ∧ sq.before ≠ [] ∧ sq.after = sq.before then [.op .on sq.after]
    else shownIf .after sq.after ++ shownIf .before sq.before

/-- `oc_searchq_describe`, into a buffer that has room for all of it. -/
def searchqDescribe (sq : SearchQ) : Text :=
  joined (sq.shown.map Token.spelled ++ if sq.text = [] then [] else [sq.text])

structure Bare (value : Text) : Prop where
  solid : ∀ c ∈ value, isBlank c = false
  unquoted : value.head? ≠ some quote

/-- A word that is no operator, or an unknown `has:`; both are text. -/
def Token.Plain : Token → Prop
  | .word value => value ≠ [] ∧ Bare value ∧ value.length < textMax ∧
      ∀ operator : Operator, startsCi operator.spelling value = false
  | .op operator value =>
    operator = .has ∧ hasBit value = 0 ∧ Bare value ∧ value.length < operator.size

structure Showable (all : List Token) : Prop where
  sender : Bare (lastOf Token.sender all)
  channel : Bare (lastOf Token.channel all)
  sigil : (lastOf Token.channel all).head? ≠ some (ascii '#')
  before : Bare (lastOf Token.before all)
  after : Bare (lastOf Token.after all)
  text : ∃ words : List Token, fitted textMax (joined (all.filterMap Token.piece)) =
    joined (words.map Token.spelled) ∧ ∀ word ∈ words, word.Plain

def Ends (tail : Text) : Prop := ∀ c ∈ tail.head?, c = ascii ' '

variable {size : Nat}

theorem sqTake_bare {value tail : Text} (bare : Bare value) (ends : Ends tail)
    (fits : value.length < size) : sqTake size (value ++ tail) = (value, tail) := by
  have unquoted : (value ++ tail).head? ≠ some quote := by
    cases value with
    | nil =>
      intro quoted
      cases ends quote quoted
    | cons c value => exact bare.unquoted
  have solid : ∀ c ∈ value, (!isBlank c) = true := fun c member => by rw [bare.solid c member]; rfl
  rw [sqTake, if_neg unquoted, takeWhile_append_of_pos solid, dropWhile_append_of_pos solid]
  have whole : fitted size value = value := take_of_length_le (by omega)
  cases tail with
  | nil => rw [takeWhile_nil, append_nil, whole, dropWhile_nil]
  | cons c rest =>
    have stops : isBlank c = true := by rw [ends c rfl]; rfl
    simp [stops, whole]

structure Token.Reads (token : Token) : Prop where
  begins : ∃ c rest, token.spelled = c :: rest ∧ isBlank c = false
  read : ∀ tail, Ends tail → nextToken (token.spelled ++ tail) = (token, tail)

variable {operator : Operator}

theorem reads_op {value : Text} (bare : Bare value)
    (fits : value.length < operator.size) : (Token.op operator value).Reads := by
  refine ⟨?_, ?_⟩
  · cases operator <;> exact ⟨_, _, rfl, rfl⟩
  · intro tail ends
    have found : (operators.find? fun o => startsCi o.spelling (operator.spelling ++ value ++ tail)) =
        some operator := by
      cases operator <;> rfl
    rw [Token.spelled, nextToken, found]
    dsimp only
    rw [append_assoc, drop_left, sqTake_bare bare ends fits]

theorem startsCi_ends {word tail : Text} (ends : Ends tail)
    (starts : startsCi operator.spelling (word ++ tail) = true) :
    startsCi operator.spelling word = true := by
  have unblank : ascii ' ' ∉ operator.spelling.map lower := by cases operator <;> decide
  unfold startsCi at starts ⊢
  rw [beq_iff_eq] at starts ⊢
  by_cases long : operator.spelling.length ≤ word.length
  · rw [starts, take_append_of_le_length long]
  exfalso
  have lengths := congrArg length starts
  cases tail with
  | nil =>
    simp only [append_nil, length_map, length_take] at lengths
    omega
  | cons c tail =>
    apply unblank
    obtain ⟨more, left⟩ := Nat.exists_eq_add_one.mpr (Nat.sub_pos_of_lt (Nat.lt_of_not_le long))
    rw [starts, ends c rfl, take_append, left, map_append]
    exact mem_append_right _ mem_cons_self

variable {token : Token}

theorem Token.Plain.reads (plain : token.Plain) : token.Reads := by
  cases token with
  | op operator value =>
    obtain ⟨-, -, bare, fits⟩ := plain
    exact reads_op bare fits
  | word word =>
    obtain ⟨some, bare, short, noOperator⟩ := plain
    refine ⟨?_, ?_⟩
    · cases word with
      | nil => exact (some rfl).elim
      | cons c rest => exact ⟨c, rest, rfl, bare.solid c mem_cons_self⟩
    · intro tail ends
      have none : (operators.find? fun operator => startsCi operator.spelling (word ++ tail)) = none := by
        rw [find?_eq_none]
        intro operator _ starts
        exact Bool.false_ne_true ((noOperator operator).symm.trans (startsCi_ends ends starts))
      rw [Token.spelled, nextToken, none]
      rw [sqTake_bare bare ends short]

structure Token.Idle (token : Token) : Prop where
  piece : token.piece = some token.spelled
  sender : token.sender = none
  channel : token.channel = none
  before : token.before = none
  after : token.after = none
  bit : token.bit = 0

theorem Token.Plain.idle (plain : token.Plain) : token.Idle := by
  cases token with
  | op operator value =>
    obtain ⟨rfl, unknown, -⟩ := plain
    exact ⟨if_pos unknown, rfl, rfl, rfl, rfl, unknown⟩
  | word word => exact ⟨if_neg plain.1, rfl, rfl, rfl, rfl, rfl⟩

theorem tokens_blank (p : Text) : tokens (ascii ' ' :: p) = tokens p := by
  rw [tokens, tokens.eq_1 p]
  rfl

theorem tokens_spaced {all : List Token} (reads : ∀ token ∈ all, token.Reads) :
    tokens ((all.map Token.spelled).flatMap (ascii ' ' :: ·)) = all := by
  induction all with
  | nil => exact tokens_nil
  | cons token all ih =>
    obtain ⟨first, others⟩ := forall_mem_cons.mp reads
    obtain ⟨c, rest, begins, solid⟩ := first.begins
    have ends : Ends ((all.map Token.spelled).flatMap (ascii ' ' :: ·)) := by
      cases all with
      | nil => exact fun c none => by cases none
      | cons token all => exact fun c isBlank => by cases isBlank; rfl
    have read := first.read _ ends
    rw [begins, cons_append] at read
    rw [map_cons, flatMap_cons, cons_append, tokens_blank, begins, cons_append,
      tokens_cons (dropWhile_cons_of_neg (by simp [solid])) read, ih others]

theorem foldl_joined (words : List Text) {joint : Text} (begun : joint ≠ []) :
    words.foldl (fun joint piece => if joint = [] then piece else joint ++ ascii ' ' :: piece) joint =
      joint ++ words.flatMap (ascii ' ' :: ·) := by
  induction words generalizing joint with
  | nil => simp
  | cons word words ih =>
    rw [foldl_cons, if_neg begun, ih (by simp), flatMap_cons, append_assoc]

theorem joined_cons {word : Text} (some : word ≠ []) (words : List Text) :
    joined (word :: words) = word ++ words.flatMap (ascii ' ' :: ·) :=
  foldl_joined words some

theorem Token.Reads.ne_nil (reads : token.Reads) : token.spelled ≠ [] := by
  obtain ⟨c, rest, begins, -⟩ := reads.begins
  rw [begins]
  exact cons_ne_nil c rest

theorem joined_text {words : List Token} (reads : ∀ token ∈ words, token.Reads) (front : List Text) :
    let text := joined (words.map Token.spelled)
    joined (front ++ if text = [] then [] else [text]) = joined (front ++ words.map Token.spelled) := by
  cases words with
  | nil => rfl
  | cons word words =>
    have begun := (reads word mem_cons_self).ne_nil
    have isJoined := joined_cons begun (words.map Token.spelled)
    dsimp only
    rw [map_cons, if_neg (by simp [isJoined, begun]), joined_append, isJoined, joined, joined, foldl_append, foldl_cons]
    split
    · exact (foldl_joined _ begun).symm
    · rw [foldl_joined (words.map Token.spelled) (by simp), append_assoc, cons_append]

theorem tokens_joined {all : List Token} (reads : ∀ token ∈ all, token.Reads) :
    tokens (joined (all.map Token.spelled)) = all := by
  nth_rewrite 2 [← tokens_spaced reads]
  cases all with
  | nil => rfl
  | cons token all =>
    rw [map_cons, joined_cons (reads token mem_cons_self).ne_nil]
    exact (tokens_blank _).symm

theorem length_sqTake_lt (some : 0 < size) (p : Text) : (sqTake size p).1.length < size := by
  have short (taken : Text) : (fitted size taken).length < size := lt_of_le_of_lt (length_take_le _ taken) (by omega)
  unfold sqTake
  split
  · exact short _
  · exact short _

theorem tokens_fit (p : Text) {value : Text} (read : .op operator value ∈ tokens p) : value.length < operator.size := by
  fun_induction tokens p with
  | case1 => cases read
  | case2 p c rest _ ih =>
    cases mem_cons.mp read with
    | inr later => exact ih later
    | inl first =>
      unfold nextToken at first
      split at first
      · cases first
        exact length_sqTake_lt (by cases operator <;> decide) _
      · cases first

variable {field : Token → Option Text}

theorem length_lastOf (pos : 0 < size) (word : ∀ value, field (.word value) = none)
    (held : ∀ operator taken value, field (.op operator taken) = some value →
      operator.size = size ∧ value.length ≤ taken.length) (q : Text) :
    (lastOf field (tokens q)).length < size := by
  rw [lastOf]
  cases last : ((tokens q).filterMap field).getLast? with
  | none => exact pos
  | some value =>
    obtain ⟨token, member, isValue⟩ := mem_filterMap.mp (mem_of_getLast? last)
    cases token with
    | word taken => cases (word taken).symm.trans isValue
    | op operator taken =>
      obtain ⟨rfl, shorter⟩ := held operator taken value isValue
      exact lt_of_le_of_lt shorter (tokens_fit q member)

theorem fields_fit (q : Text) :
    (lastOf Token.sender (tokens q)).length < 64 ∧ (lastOf Token.channel (tokens q)).length < 64 ∧
      (lastOf Token.before (tokens q)).length < 16 ∧ (lastOf Token.after (tokens q)).length < 16 := by
  refine ⟨length_lastOf (by decide) (fun _ => rfl) ?_ q, length_lastOf (by decide) (fun _ => rfl) ?_ q,
    length_lastOf (by decide) (fun _ => rfl) ?_ q, length_lastOf (by decide) (fun _ => rfl) ?_ q⟩
  all_goals
    intro operator taken value
    cases operator <;> grind [Token.sender, Token.channel, Token.before, Token.after, Operator.size, withoutSigil]

theorem has_lt (all : List Token) : (all.foldl (fun bits (token : Token) => bits ||| token.bit) 0).toNat < 2 ^ 4 := by
  induction all using reverseRecOn with
  | nil => decide
  | append_singleton all token ih =>
    rw [foldl_append, foldl_cons, foldl_nil]
    apply Nat.or_lt_two_pow ih
    unfold Token.bit
    split
    · rw [hasBit]
      split_ifs <;> decide
    · decide

theorem shown_reads {sq : SearchQ} (sender : Bare sq.sender ∧ sq.sender.length < 64)
    (channel : Bare sq.channel ∧ sq.channel.length < 64) (before : Bare sq.before ∧ sq.before.length < 16)
    (after : Bare sq.after ∧ sq.after.length < 16) : ∀ token ∈ sq.shown, token.Reads ∧ token.piece = none := by
  have field (operator : Operator) {value : Text} (fits : Bare value ∧ value.length < operator.size)
      (other : operator ≠ .has) :
      ∀ token ∈ shownIf operator value, token.Reads ∧ token.piece = none := by
    unfold shownIf
    split
    · exact forall_mem_nil _
    · rw [forall_mem_singleton]
      exact ⟨reads_op fits.1 fits.2, by cases operator <;> first | rfl | exact (other rfl).elim⟩
  unfold SearchQ.shown
  simp only [forall_mem_append]
  refine ⟨⟨⟨field .sender sender (by decide), field .channel channel (by decide)⟩, ?_⟩, ?_⟩
  · have names : ∀ name ∈ hasNames, (∀ c ∈ name.2, isBlank c = false) ∧ name.2.head? ≠ some quote ∧
        name.2.length < 24 ∧ (Token.op .has name.2).piece = none := by decide +kernel
    rw [shownHas, forall_mem_map]
    intro name known
    obtain ⟨solid, unquoted, fits, none⟩ := names name (mem_of_mem_filter known)
    exact ⟨reads_op ⟨solid, unquoted⟩ fits, none⟩
  · split
    · rw [forall_mem_singleton]
      exact ⟨reads_op after.1 after.2, rfl⟩
    · rw [forall_mem_append]
      exact ⟨field .after after (by decide), field .before before (by decide)⟩

theorem filterMap_shown (sq : SearchQ) (none : ∀ value, field (.op .has value) = none)
    (on : ∀ value, value ≠ [] → (field (.op .on value)).toList =
      (field (.op .after value)).toList ++ (field (.op .before value)).toList) :
    let given (operator : Operator) (value : Text) := if value = [] then [] else (field (.op operator value)).toList
    sq.shown.filterMap field = given .sender sq.sender ++ given .channel sq.channel ++
      given .after sq.after ++ given .before sq.before := by
  intro given
  have one (operator : Operator) (value : Text) :
      [Token.op operator value].filterMap field = (field (.op operator value)).toList := by
    cases found : field (.op operator value) <;> simp [found]
  have each (operator : Operator) (value : Text) : (shownIf operator value).filterMap field = given operator value := by
    dsimp only [shownIf, given]
    split
    · rfl
    · exact one operator value
  have noBits : (shownHas sq.has).filterMap field = [] := by
    rw [filterMap_eq_nil_iff, shownHas, forall_mem_map]
    exact fun name _ => none name.2
  unfold SearchQ.shown
  rw [filterMap_append, filterMap_append, filterMap_append, each, each, noBits, append_nil]
  split
  · next same =>
    dsimp only [given]
    rw [if_neg same.1, if_neg same.2.1, ← same.2.2, append_assoc _ _ (Option.toList _), ← on _ same.1, one]
  · rw [filterMap_append, each, each, append_assoc _ _ (given .before _)]

theorem shownHas_bits {has : UInt32} (four : has.toNat < 2 ^ 4) :
    (shownHas has).foldl (fun bits token => bits ||| token.bit) 0 = has := by
  have all : ∀ n < 2 ^ 4, (shownHas (.ofNat n)).foldl (fun bits token => bits ||| token.bit) 0 = .ofNat n := by
    decide +kernel
  have isHas := all has.toNat four
  rwa [UInt32.ofNat_toNat] at isHas

theorem foldl_bit_idle {idle : List Token} (none : ∀ token ∈ idle, token.bit = 0) (bits : UInt32) :
    idle.foldl (fun bits token => bits ||| token.bit) bits = bits := by
  induction idle with
  | nil => rfl
  | cons token idle ih =>
    obtain ⟨first, others⟩ := forall_mem_cons.mp none
    rw [foldl_cons, first, UInt32.or_zero, ih others]

theorem shown_supplies {sq : SearchQ} (sigil : sq.channel.head? ≠ some (ascii '#')) (has : sq.has.toNat < 2 ^ 4) :
    lastOf Token.sender sq.shown = sq.sender ∧ lastOf Token.channel sq.shown = sq.channel ∧
      sq.shown.foldl (fun bits token => bits ||| token.bit) 0 = sq.has ∧
      lastOf Token.before sq.shown = sq.before ∧ lastOf Token.after sq.shown = sq.after := by
  have bare : withoutSigil sq.channel = sq.channel := if_neg sigil
  have last (value : Text) : ((if value = [] then [] else [value]).getLast?.getD []) = value := by
    split
    · next empty => rw [empty]; rfl
    · rfl
  refine ⟨?_, ?_, ?_, ?_, ?_⟩
  · rw [lastOf, filterMap_shown sq (fun _ => rfl) (fun _ _ => rfl)]
    simp [Token.sender, last]
  · rw [lastOf, filterMap_shown sq (fun _ => rfl) (fun _ _ => rfl)]
    simp [Token.channel, bare, last]
  · have idle (operator : Operator) (other : operator ≠ .has) (value : Text) (bits : UInt32) :
        (shownIf operator value).foldl (fun bits token => bits ||| token.bit) bits = bits := by
      apply foldl_bit_idle
      unfold shownIf
      split
      · exact forall_mem_nil _
      · rw [forall_mem_singleton]
        cases operator <;> first | rfl | exact (other rfl).elim
    unfold SearchQ.shown
    rw [foldl_append, foldl_append, foldl_append, idle .sender (by decide), idle .channel (by decide),
      shownHas_bits has]
    split
    · exact UInt32.or_zero
    · rw [foldl_append, idle .after (by decide), idle .before (by decide)]
  · rw [lastOf, filterMap_shown sq (fun _ => rfl) (fun value some => by simp [Token.before, some])]
    simp [Token.before, last]
  · rw [lastOf, filterMap_shown sq (fun _ => rfl) (fun value some => by simp [Token.after, some])]
    simp [Token.after, last]

theorem lastOf_idle {idle : List Token} (none : ∀ token ∈ idle, field token = none) (all : List Token) :
    lastOf field (all ++ idle) = lastOf field all := by
  rw [lastOf, filterMap_append, filterMap_eq_nil_iff.mpr none, append_nil, lastOf]

/-- A description re-reads as the query it describes, where the text was written inside its field
and nothing in it needs quotes. -/
theorem searchq_rereads (q : Text) (inside : reach ((tokens q).filterMap Token.piece).dropLast ≤ textMax)
    (showable : Showable (tokens q)) :
    ∃ sq again, searchqParse q = some sq ∧ searchqParse (searchqDescribe sq) = some again ∧ again.text = sq.text ∧
      again.sender = sq.sender ∧ again.channel = sq.channel ∧ again.has = sq.has ∧
      again.before = sq.before ∧ again.after = sq.after := by
  obtain ⟨sq, parsed, supplied⟩ := readTokens_supplied (tokens q) inside
  obtain ⟨sender, channel, sigil, before, after, words, isText, plain⟩ := showable
  obtain ⟨senderFits, channelFits, beforeFits, afterFits⟩ := fields_fit q
  rw [← supplied.sender] at sender senderFits
  rw [← supplied.channel] at channel sigil channelFits
  rw [← supplied.before] at before beforeFits
  rw [← supplied.after] at after afterFits
  rw [← supplied.text] at isText
  have shown := shown_reads ⟨sender, senderFits⟩ ⟨channel, channelFits⟩ ⟨before, beforeFits⟩ ⟨after, afterFits⟩
  have idles : ∀ token ∈ words, token.Idle := fun token member => (plain token member).idle
  have read : tokens (searchqDescribe sq) = sq.shown ++ words := by
    rw [searchqDescribe, isText, joined_text fun token member => (plain token member).reads, ← map_append]
    apply tokens_joined
    rw [forall_mem_append]
    exact ⟨fun token member => (shown token member).1, fun token member => (plain token member).reads⟩
  have pieces : (sq.shown ++ words).filterMap Token.piece = words.map Token.spelled := by
    rw [filterMap_append, filterMap_eq_nil_iff.mpr fun token member => (shown token member).2, nil_append,
      filterMap_congr fun token member => (idles token member).piece, filterMap_eq_map']
  have short : (joined (words.map Token.spelled)).length < textMax := by
    rw [← isText, supplied.text]
    exact lt_of_le_of_lt (length_take_le _ _) (by decide)
  have room : reach ((sq.shown ++ words).filterMap Token.piece) < textMax := by
    rwa [reach_lt_iff piece_ne_nil, pieces]
  obtain ⟨isSender, isChannel, isHas, isBefore, isAfter⟩ := shown_supplies sigil (supplied.has ▸ has_lt (tokens q))
  obtain ⟨again, ran, supplies⟩ := readTokens_supplied (sq.shown ++ words) ((reach_dropLast _).trans room.le)
  rw [← read] at ran
  refine ⟨sq, again, parsed, ran, ?_, ?_, ?_, ?_, ?_, ?_⟩
  · rw [supplies.text, pieces, isText, fitted, take_of_length_le (by omega)]
  · rw [supplies.sender, lastOf_idle (fun token member => (idles token member).sender), isSender]
  · rw [supplies.channel, lastOf_idle (fun token member => (idles token member).channel), isChannel]
  · rw [supplies.has, foldl_append, isHas, foldl_bit_idle fun token member => (idles token member).bit]
  · rw [supplies.before, lastOf_idle (fun token member => (idles token member).before), isBefore]
  · rw [supplies.after, lastOf_idle (fun token member => (idles token member).after), isAfter]

theorem tokens_twoWords : tokens (text "from:a b") = [.op .sender (text "a"), .word (text "b")] := by
  have first := @tokens_cons (text "from:a b") (text "rom:a b") (text " b") (ascii 'f')
    (.op .sender (text "a")) (by decide) (by decide)
  have second := @tokens_cons (text " b") [] [] (ascii 'b') (.word (text "b")) (by decide) (by decide)
  rw [first, second, tokens_nil]

theorem searchq_rereads_twoWords :
    ∃ sq again, searchqParse (text "from:a b") = some sq ∧ searchqParse (searchqDescribe sq) = some again ∧
      again.text = sq.text ∧ again.sender = sq.sender ∧ again.channel = sq.channel ∧ again.has = sq.has ∧
      again.before = sq.before ∧ again.after = sq.after := by
  refine searchq_rereads (text "from:a b") ?_ ?_
  · rw [tokens_twoWords]
    decide
  · rw [tokens_twoWords]
    have none : Bare [] := ⟨forall_mem_nil _, by decide +kernel⟩
    refine ⟨⟨by decide +kernel, by decide +kernel⟩, none, by decide, none, none, [.word (text "b")], by decide, ?_⟩
    rw [forall_mem_singleton]
    exact ⟨by decide, ⟨by decide +kernel, by decide +kernel⟩, by decide, fun operator => by cases operator <;> rfl⟩

/-- A sender of two words is shown without its quotes. -/
theorem searchq_misreads : ∃ sq again, searchqParse (text "from:\x22a b\x22") = some sq ∧
      searchqParse (searchqDescribe sq) = some again ∧ sq.sender = text "a b" ∧ again.sender = text "a" := by
  have first := @tokens_cons (text "from:\x22a b\x22") (text "rom:\x22a b\x22") [] (ascii 'f')
    (.op .sender (text "a b")) (by decide) (by decide)
  refine ⟨⟨[], 0, text "a b", [], 0, [], [], 1⟩, ⟨text "b", 1, text "a", [], 0, [], [], 1⟩, ?_, ?_, rfl, rfl⟩
  · rw [searchqParse, first, tokens_nil]
    rfl
  · have shown : searchqDescribe ⟨[], 0, text "a b", [], 0, [], [], 1⟩ = text "from:a b" := by decide
    rw [shown, searchqParse, tokens_twoWords]
    rfl

end OpenChime.Shared.SearchQuery
