import Mathlib.Algebra.Group.Nat.Even
import OpenChime.Shared.Text

/-! The full-text query of a search (`build_fts_query` of `daemon/dbwriter.c`): every word of the
text as a quoted phrase. -/

set_option autoImplicit false

namespace OpenChime.Daemon.SearchText

open OpenChime.Shared List

def quote : UInt8 := ascii '"'

def isBlank (c : UInt8) : Bool := c == ascii ' ' || c == ascii '\t' || c == ascii '\n' || c == ascii '\r'

/-- The copying of one word to the end of what is written, with its quotes doubled, as far as the
capacity lets it; what is left of the text comes first. -/
def copyWord (cap : Nat) : Text → Text → Text × Text
  | [], out => ([], out)
  | c :: rest, out =>
    if isBlank c then (c :: rest, out)
    else if c = quote then
      if cap ≤ out.length + 2 then (c :: rest, out) else copyWord cap rest (out ++ [quote, quote])
    else if cap ≤ out.length + 1 then (c :: rest, out)
    else copyWord cap rest (out ++ [c])

def opening (tokens : Nat) : Text :=
  if 0 < tokens then [ascii ' ', quote] else [quote]

theorem prefix_copyWord (cap : Nat) (rest out : Text) : out <+: (copyWord cap rest out).2 := by
  induction rest generalizing out with
  | nil => exact prefix_rfl
  | cons c rest ih =>
    rw [copyWord]
    split
    · exact prefix_rfl
    split
    · split
      · exact prefix_rfl
      · exact (prefix_append _ _).trans (ih _)
    · split
      · exact prefix_rfl
      · exact (prefix_append _ _).trans (ih _)

/-- The loop over the words. Its check in front of the blank, `o + 1 >= outcap`, is not reached: the
one before it is the stronger. -/
def buildFrom (cap : Nat) (rest out : Text) (tokens : Nat) : Text × Nat :=
  let left := rest.dropWhile isBlank
  if left = [] then (out, tokens)
  else if cap ≤ out.length + 2 then (out, tokens)
  else
    let copied := copyWord cap left (out ++ opening tokens)
    if cap ≤ copied.2.length + 1 then (copied.2, tokens)
    else buildFrom cap copied.1 (copied.2 ++ [quote]) (tokens + 1)
termination_by cap - out.length
decreasing_by
  have grown : out.length ≤ copied.2.length := ((prefix_append _ _).trans (prefix_copyWord cap left _)).length_le
  change cap - (copied.2 ++ [quote]).length < cap - out.length
  rw [length_append, length_singleton]
  omega

/-- `build_fts_query`: the string that is left in `out`, and the count. -/
def buildFtsQuery (text : Text) (cap : Nat) : Text × Nat :=
  let built := buildFrom cap text [] 0
  (cstr (fitted cap built.1), built.2)

def escaped (c : UInt8) : Text :=
  if c = quote then [quote, quote] else [c]

def escape (word : Text) : Text := word.flatMap escaped

/-- `out` with one more phrase. -/
def closed (out : Text) (tokens : Nat) (phrase : Text) : Text := out ++ opening tokens ++ escape phrase ++ [quote]

/-- The phrases that follow `tokens` others. -/
def written (tokens : Nat) : List Text → Text
  | [] => []
  | phrase :: phrases => closed [] tokens phrase ++ written (tokens + 1) phrases

def words (text : Text) : List Text :=
  match _begun : text.dropWhile isBlank with
  | [] => []
  | c :: rest => (c :: rest.takeWhile (!isBlank ·)) :: words (rest.dropWhile (!isBlank ·))
termination_by text.length
decreasing_by
  have shorter := text.length_dropWhile_le isBlank
  have tail := rest.length_dropWhile_le (!isBlank ·)
  rw [_begun, length_cons] at shorter
  omega

inductive Shortened : List Text → List Text → Prop
  | stop {words} : Shortened [] words
  | cut {front word words} : front <+: word → Shortened [front] (word :: words)
  | word {word phrases words} : Shortened phrases words → Shortened (word :: phrases) (word :: words)

structure FtsQuery (text : Text) (cap : Nat) (built : Text × Nat) : Prop where
  fits : built.1.length < cap
  phrases : ∃ phrases, built.1 = written 0 phrases ∧ Shortened phrases (words text) ∧ built.2 = phrases.length
  found : built.2 = 0 → words text = []

/-- After `tokens` phrases in `o` bytes: every word that is begun has room, its closing quote
included, or is cut in front of a quote with room for one byte. -/
def Fits (cap o tokens : Nat) : List Text → Prop
  | [] => True
  | word :: rest =>
    let start := o + (opening tokens).length
    cap ≤ o + 2 ∨ (0 ∉ word ∧ start + (escape word).length + 2 ≤ cap ∧
        Fits cap (start + (escape word).length + 1) (tokens + 1) rest) ∨
      ∃ front back, word = front ++ quote :: back ∧ 0 ∉ front ∧ start + (escape front).length + 2 = cap

structure Apart (word tail : Text) : Prop where
  solid : ∀ c ∈ word, isBlank c = false
  ends : ∀ c ∈ tail.head?, isBlank c = true

variable {word tail out rest : Text} {cap : Nat} {left : List Text}

theorem Apart.of_cons {c : UInt8} (apart : Apart (c :: word) tail) : isBlank c = false ∧ Apart word tail :=
  ⟨apart.solid c mem_cons_self, fun d member => apart.solid d (mem_cons_of_mem c member), apart.ends⟩

theorem copyWord_end (apart : Apart word tail) (cap : Nat) (out : Text) : copyWord cap tail out = (tail, out) := by
  cases tail with
  | nil => rfl
  | cons c tail => simp [copyWord, apart.ends c rfl]

theorem escape_cons (c : UInt8) (word : Text) : escape (c :: word) = escaped c ++ escape word := flatMap_cons

/-- Both kinds of character go the same way: what is written of it has to leave room for one. -/
theorem copyWord_cons {c : UInt8} (solid : isBlank c = false) (cap : Nat) (rest out : Text) :
    copyWord cap (c :: rest) out = if cap ≤ out.length + (escaped c).length then (c :: rest, out)
      else copyWord cap rest (out ++ escaped c) := by
  rw [copyWord, solid, escaped]
  by_cases isQuote : c = quote
  · simp [isQuote]
  · simp [isQuote]

theorem copyWord_fits (apart : Apart word tail) (fits : out.length + (escape word).length + 2 ≤ cap) :
    copyWord cap (word ++ tail) out = (tail, out ++ escape word) := by
  induction word generalizing out with
  | nil => simpa [escape] using copyWord_end apart cap out
  | cons c word ih =>
    obtain ⟨solid, apart⟩ := apart.of_cons
    rw [escape_cons, length_append] at fits
    rw [cons_append, copyWord_cons solid, if_neg (by omega), ih apart, escape_cons, append_assoc]
    rw [length_append]
    omega

theorem copyWord_cut {front back : Text} (apart : Apart (front ++ quote :: back) tail)
    (full : out.length + (escape front).length + 2 = cap) :
    copyWord cap (front ++ quote :: back ++ tail) out = (quote :: back ++ tail, out ++ escape front) := by
  induction front generalizing out with
  | nil =>
    rw [nil_append] at apart ⊢
    have stops : cap ≤ out.length + (escaped quote).length := full.ge
    rw [cons_append, copyWord_cons apart.of_cons.1, if_pos stops]
    simp [escape]
  | cons c front ih =>
    obtain ⟨solid, apart⟩ := apart.of_cons
    rw [escape_cons, length_append] at full
    rw [cons_append, cons_append, copyWord_cons solid, if_neg (by omega), ih apart, escape_cons, append_assoc]
    rw [length_append]
    omega

theorem copyWord_stops (apart : Apart word tail) (cap : Nat) (out : Text) : ∃ front back, word = front ++ back ∧
      copyWord cap (word ++ tail) out = (back ++ tail, out ++ escape front) ∧
      (back = [] ∨ cap ≤ (out ++ escape front).length + 1 ∨
        cap = (out ++ escape front).length + 2 ∧ ∃ rest, back = quote :: rest) := by
  induction word generalizing out with
  | nil => exact ⟨[], [], rfl, by simpa [escape] using copyWord_end apart cap out, Or.inl rfl⟩
  | cons c word ih =>
    obtain ⟨solid, apart⟩ := apart.of_cons
    rw [cons_append, copyWord_cons solid]
    split
    · next full =>
      refine ⟨[], c :: word, rfl, by simp [escape], Or.inr ?_⟩
      rw [escaped] at full
      split at full
      · next isQuote =>
        simp only [escape, flatMap_nil, append_nil, length_cons, length_nil, isQuote] at full ⊢
        by_cases one : cap ≤ out.length + 1
        · exact Or.inl one
        · exact Or.inr ⟨by omega, word, rfl⟩
      · exact Or.inl (by simpa [escape] using full)
    · obtain ⟨front, back, parts, copied, ends⟩ := ih apart (out ++ escaped c)
      rw [append_assoc] at copied ends
      exact ⟨c :: front, back, by rw [parts, cons_append], copied, ends⟩

theorem words_cases (text : Text) :
    text.dropWhile isBlank = [] ∧ words text = [] ∨ ∃ word tail, word ≠ [] ∧ text.dropWhile isBlank = word ++ tail ∧
        words text = word :: words tail ∧ Apart word tail := by
  rw [words]
  split
  · next blank => exact Or.inl ⟨blank, rfl⟩
  next c rest begun =>
  refine Or.inr ⟨c :: rest.takeWhile (!isBlank ·), rest.dropWhile (!isBlank ·), cons_ne_nil _ _, ?_, rfl, ?_, ?_⟩
  · rw [begun, cons_append, takeWhile_append_dropWhile]
  · intro d member
    cases member with
    | head =>
      have stopped := head?_dropWhile_not isBlank text
      rwa [begun] at stopped
    | tail _ later => simpa using mem_takeWhile_imp later
  · intro d isHead
    have stopped := head?_dropWhile_not (!isBlank ·) rest
    rw [Option.mem_def.mp isHead] at stopped
    simpa using stopped

theorem buildFrom_nil (none : words rest = []) (cap : Nat) (out : Text) (tokens : Nat) :
    buildFrom cap rest out tokens = (out, tokens) := by
  rw [buildFrom]
  cases words_cases rest with
  | inl blank => simp [blank.1]
  | inr some =>
    obtain ⟨word, tail, -, -, whole, -⟩ := some
    simp [whole] at none

theorem buildFrom_full (full : cap ≤ out.length + 2) (rest : Text) (tokens : Nat) :
    buildFrom cap rest out tokens = (out, tokens) := by
  rw [buildFrom]
  simp [full]

theorem buildFrom_word {others : List Text} (some : words rest = word :: others)
    (room : ¬cap ≤ out.length + 2) (tokens : Nat) :
    ∃ tail, words tail = others ∧ Apart word tail ∧ buildFrom cap rest out tokens =
      if cap ≤ (copyWord cap (word ++ tail) (out ++ opening tokens)).2.length + 1 then
        ((copyWord cap (word ++ tail) (out ++ opening tokens)).2, tokens)
      else buildFrom cap (copyWord cap (word ++ tail) (out ++ opening tokens)).1
        ((copyWord cap (word ++ tail) (out ++ opening tokens)).2 ++ [quote]) (tokens + 1) := by
  cases words_cases rest with
  | inl blank =>
    simp [blank.2] at some
  | inr cut =>
    obtain ⟨first, tail, begun, left, whole, apart⟩ := cut
    rw [whole] at some
    cases some
    refine ⟨tail, rfl, apart, ?_⟩
    rw [buildFrom, left]
    simp [begun, room]

theorem zero_mem_escape : 0 ∈ escape word ↔ 0 ∈ word := by
  simp only [escape, mem_flatMap, escaped]
  constructor
  · intro inside
    obtain ⟨c, member, zero⟩ := inside
    split at zero
    · simp [quote, ascii] at zero
    · cases mem_singleton.mp zero
      exact member
  · intro member
    exact ⟨0, member, by decide⟩

theorem zero_not_mem_opening (tokens : Nat) : 0 ∉ opening tokens := by
  unfold opening
  split <;> decide

def Balanced (s : Text) : Prop := Even (s.count quote)

theorem Balanced.append {a b : Text} (first : Balanced a) (second : Balanced b) : Balanced (a ++ b) := by
  rw [Balanced, count_append]
  exact Even.add first second

theorem balanced_escape (word : Text) : Balanced (escape word) := by
  induction word with
  | nil => exact Even.zero
  | cons c word ih =>
    refine Balanced.append ?_ ih
    unfold Balanced escaped
    split
    · decide
    · next other => simp [other]

theorem opening_odd (tokens : Nat) {a b : Text} (before : Balanced a) (after : Balanced b) :
    ¬Balanced (a ++ opening tokens ++ b) := by
  have one : (opening tokens).count quote = 1 := by
    unfold opening
    split <;> decide
  unfold Balanced at before after ⊢
  rw [count_append, count_append, one]
  simp [before, after, parity_simps]

theorem Balanced.closed (before : Balanced out) (tokens : Nat) (word : Text) : Balanced (closed out tokens word) := by
  have odd := opening_odd tokens before (balanced_escape word)
  unfold Balanced SearchText.closed
  rw [count_append, count_singleton_self, Nat.even_add_one]
  exact odd

theorem balanced_written (tokens : Nat) (phrases : List Text) : Balanced (written tokens phrases) := by
  induction phrases generalizing tokens with
  | nil => exact Even.zero
  | cons phrase phrases ih =>
    have none : Balanced [] := Even.zero
    exact (none.closed tokens phrase).append (ih (tokens + 1))

theorem prefix_buildFrom (cap : Nat) (rest out : Text) (tokens : Nat) : out <+: (buildFrom cap rest out tokens).1 := by
  fun_induction buildFrom cap rest out tokens with
  | case1 => exact prefix_rfl
  | case2 => exact prefix_rfl
  | case3 rest out tokens left _ _ copied _ =>
    exact (prefix_append _ _).trans (prefix_copyWord cap left _)
  | case4 rest out tokens left _ _ copied _ ih =>
    exact ((prefix_append _ _).trans (prefix_copyWord cap left _)).trans ((prefix_append _ _).trans ih)

theorem cstr_append_zero {s : Text} (plain : 0 ∉ s) (rest : Text) : cstr (s ++ 0 :: rest) = s := by
  unfold cstr
  rw [takeWhile_append_of_pos]
  · simp
  intro c member
  simp only [bne_iff_ne, ne_eq]
  rintro rfl
  exact plain member

theorem closed_written (out : Text) (tokens : Nat) (phrase : Text) (phrases : List Text) :
    closed out tokens phrase ++ written (tokens + 1) phrases = out ++ written tokens (phrase :: phrases) := by
  simp [written, closed]

theorem length_closed (out : Text) (tokens : Nat) (phrase : Text) : (closed out tokens phrase).length =
      out.length + (opening tokens).length + (escape phrase).length + 1 := by
  simp [closed, Nat.add_assoc]

theorem plain_closed {phrase : Text} (plain : 0 ∉ out) (phrasePlain : 0 ∉ phrase) (tokens : Nat) :
    0 ∉ closed out tokens phrase := by
  have quotePlain : (0 : UInt8) ≠ quote := by decide
  simp [closed, plain, zero_not_mem_opening, zero_mem_escape, phrasePlain, quotePlain]

structure Adds (cap : Nat) (out : Text) (tokens : Nat) (left phrases : List Text)
    (built : Text × Nat) : Prop where
  order : Shortened phrases left
  result : built = (out ++ written tokens phrases, tokens + phrases.length)
  plain : 0 ∉ built.1
  none : phrases = [] → left = [] ∨ cap ≤ out.length + 2

theorem adds_none (plain : 0 ∉ out) (ends : left = [] ∨ cap ≤ out.length + 2) (tokens : Nat) :
    Adds cap out tokens left [] (out, tokens) :=
  ⟨.stop, by simp [written], plain, fun _ => ends⟩

theorem buildFrom_fits {tokens : Nat} (isLeft : words rest = left) (plain : 0 ∉ out)
    (fits : Fits cap out.length tokens left) :
    ∃ phrases, Adds cap out tokens left phrases (buildFrom cap rest out tokens) := by
  induction left generalizing rest out tokens with
  | nil =>
    rw [buildFrom_nil isLeft]
    exact ⟨[], adds_none plain (Or.inl rfl) tokens⟩
  | cons word left ih =>
    by_cases full : cap ≤ out.length + 2
    · rw [buildFrom_full full]
      exact ⟨[], adds_none plain (Or.inr full) tokens⟩
    obtain ⟨tail, isTail, apart, built⟩ := buildFrom_word isLeft full tokens
    rw [built]
    cases fits.resolve_left full with
    | inl whole =>
      obtain ⟨wordPlain, room, fits⟩ := whole
      have longer := length_closed out tokens word
      rw [copyWord_fits apart (by rw [length_append]; exact room), if_neg (by simp; omega)]
      rw [← longer] at fits
      obtain ⟨phrases, adds⟩ := ih isTail (plain_closed plain wordPlain tokens) fits
      refine ⟨word :: phrases, adds.order.word, ?_, adds.plain, nofun⟩
      rw [← closed_written, length_cons, Nat.add_comm phrases.length, ← Nat.add_assoc]
      exact adds.result
    | inr cut =>
      obtain ⟨front, back, parts, frontPlain, room⟩ := cut
      subst parts
      have longer := length_closed out tokens front
      rw [copyWord_cut apart (by rw [length_append]; exact room), if_neg (by simp; omega)]
      change ∃ phrases, Adds cap out tokens _ phrases
        (buildFrom cap (quote :: back ++ tail) (closed out tokens front) (tokens + 1))
      rw [buildFrom_full (by omega)]
      refine ⟨[front], .cut (prefix_append _ _), ?_, plain_closed plain frontPlain tokens, nofun⟩
      rw [← closed_written, written, append_nil, length_singleton]

theorem buildFrom_unfit {tokens : Nat} (isLeft : words rest = left) (plain : 0 ∉ out) (balanced : Balanced out)
    (unfit : ¬Fits cap out.length tokens left) : ¬Balanced (cstr (buildFrom cap rest out tokens).1) := by
  induction left generalizing rest out tokens with
  | nil => exact (unfit trivial).elim
  | cons word left ih =>
    simp only [Fits, not_or] at unfit
    obtain ⟨more, notWhole, notCut⟩ := unfit
    obtain ⟨tail, isTail, apart, built⟩ := buildFrom_word isLeft more tokens
    obtain ⟨front, back, parts, copied, ends⟩ := copyWord_stops apart cap (out ++ opening tokens)
    rw [copied] at built
    have open_ (front : Text) : ¬Balanced (out ++ opening tokens ++ escape front) :=
      opening_odd tokens balanced (balanced_escape front)
    have plainTo {front : Text} (none : 0 ∉ front) : 0 ∉ out ++ opening tokens ++ escape front := by
      simp [plain, zero_not_mem_opening, zero_mem_escape, none]
    by_cases zero : 0 ∈ front
    · obtain ⟨first, later, cut, firstPlain⟩ := eq_append_cons_of_mem zero
      have stays : out ++ opening tokens ++ escape front <+: (buildFrom cap rest out tokens).1 := by
        rw [built]
        split
        · exact prefix_rfl
        · exact (prefix_append _ _).trans (prefix_buildFrom cap _ _ _)
      obtain ⟨added, whole⟩ := stays
      have begins : escape front = escape first ++ 0 :: escape later := by
        rw [cut, escape, flatMap_append]
        rfl
      rw [← whole, begins, ← append_assoc, append_assoc _ (0 :: _), cons_append, cstr_append_zero (plainTo firstPlain)]
      exact open_ first
    rw [built]
    split
    · rw [cstr_eq_self (plainTo zero)]
      exact open_ front
    next closes =>
    have longer := length_closed out tokens front
    rw [length_append, length_append] at closes ends
    cases ends with
    | inl whole =>
      rw [whole, append_nil] at parts
      subst parts whole
      apply ih isTail (plain_closed plain zero tokens) (balanced.closed tokens word)
      rw [longer]
      exact fun fits => notWhole ⟨zero, by omega, fits⟩
    | inr stopped =>
      cases stopped with
      | inl full => exact (closes full).elim
      | inr atQuote =>
        obtain ⟨full, later, isQuote⟩ := atQuote
        exact (notCut ⟨front, later, by rw [parts, isQuote], zero, full.symm⟩).elim

theorem length_copyWord (short : out.length < cap) (rest : Text) : (copyWord cap rest out).2.length < cap := by
  induction rest generalizing out with
  | nil => exact short
  | cons c rest ih =>
    by_cases blank : isBlank c = true
    · simpa [copyWord, blank] using short
    rw [copyWord_cons (Bool.eq_false_iff.mpr blank)]
    split
    · exact short
    apply ih
    rw [length_append]
    omega

theorem length_buildFrom (short : out.length < cap) (rest : Text) (tokens : Nat) :
    (buildFrom cap rest out tokens).1.length < cap := by
  fun_induction buildFrom cap rest out tokens with
  | case1 => exact short
  | case2 => exact short
  | case3 rest out tokens left _ more copied _ =>
    apply length_copyWord
    unfold opening
    split <;> simp <;> omega
  | case4 rest out tokens left _ more copied closes ih =>
    apply ih
    rw [length_append, length_singleton]
    omega

/-- The query is well-formed exactly when every word it begins fits, or is cut where one of its own
quotes stands with one byte left to close the phrase. -/
theorem fts_query_iff (text : Text) (cap : Nat) (room : 4 ≤ cap) :
    FtsQuery text cap (buildFtsQuery text cap) ↔ Fits cap 0 0 (words text) := by
  have short : (buildFrom cap text [] 0).1.length < cap := length_buildFrom (by simp; omega) text 0
  have string : fitted cap (buildFrom cap text [] 0).1 = (buildFrom cap text [] 0).1 := take_of_length_le (by omega)
  unfold buildFtsQuery
  dsimp only
  rw [string]
  constructor
  · intro query
    by_contra unfit
    obtain ⟨phrases, same, -⟩ := query.phrases
    apply buildFrom_unfit rfl not_mem_nil Even.zero unfit
    have isWritten : cstr (buildFrom cap text [] 0).1 = written 0 phrases := same
    rw [isWritten]
    exact balanced_written 0 phrases
  · intro fits
    obtain ⟨phrases, adds⟩ := buildFrom_fits rfl not_mem_nil fits
    rw [cstr_eq_self adds.plain]
    refine ⟨short, ⟨phrases, by rw [adds.result, nil_append], adds.order, by simp [adds.result]⟩, ?_⟩
    intro none
    rw [adds.result, Nat.zero_add] at none
    exact (adds.none (length_eq_zero_iff.mp none)).resolve_right (by simp; omega)

/-- In six bytes there is room for the first of two words. -/
theorem fts_query_iff_first : FtsQuery (text "ab cd") 6 (buildFtsQuery (text "ab cd") 6) := by
  have begun : (text "ab cd").dropWhile isBlank = text "ab cd" := by decide
  refine (fts_query_iff (text "ab cd") 6 (by decide)).mpr ?_
  rw [words, begun]
  refine .inr (.inl ⟨by decide, by decide, ?_⟩)
  cases words _ with
  | nil => trivial
  | cons word rest => exact .inl (by decide)

/-- In four bytes the phrase has no room to be closed, and is not counted. -/
theorem fts_query_open : buildFtsQuery (text "abc") 4 = (text "\"ab", 0) ∧
      ¬FtsQuery (text "abc") 4 (buildFtsQuery (text "abc") 4) := by
  have begun : (text "abc").dropWhile isBlank = text "abc" := by decide
  have built : buildFtsQuery (text "abc") 4 = (text "\"ab", 0) := by
    rw [buildFtsQuery, buildFrom, begun]
    decide
  refine ⟨built, ?_⟩
  rw [built]
  intro query
  have none := query.found rfl
  rw [words] at none
  cases none

end OpenChime.Daemon.SearchText
