import Mathlib.Algebra.Order.Ring.Nat
import Mathlib.Data.List.Basic
import Mathlib.Data.List.GetD
import OpenChime.Shared.Text

/-! Splitting a message too big for a chunk: at paragraphs, lines, sentences or words, the largest
unit that fits, and inside a word at a character's start. -/

set_option autoImplicit false

namespace OpenChime.Daemon.SumSplit

open OpenChime.Shared List

/-- A byte of a character that is not its first. -/
def isTail (b : UInt8) : Bool := b &&& 0xC0 == 0x80

structure Sep where
  bytes : Text
  begun : bytes ≠ [] := by decide +kernel
  plain : ∀ b ∈ bytes, b < 0x80 := by decide +kernel

def seps : List Sep := [{ bytes := text "\n\n" }, { bytes := text "\n" }, { bytes := text ". " }, { bytes := text " " }]

/-- The bytes up to just after the first separator, or all of them. -/
def segment (sep : Sep) : Text → Text
  | [] => []
  | b :: rest => if sep.bytes.isPrefixOf (b :: rest) then sep.bytes else b :: segment sep rest

def backOff (s : Text) : Nat → Nat
  | n + 2 => if isTail (s.getD (n + 2) 0) then backOff s (n + 1) else n + 2
  | n => n

/-- `max_tokens * SUM_BYTES_PER_TOKEN` in a `size_t`, and at least 16. -/
def maxBytes (maxTokens : Nat) : Nat := max 16 (maxTokens * 4 % 2 ^ 64)

variable {s : Text}

theorem backOff_spec {n : Nat} (pos : 0 < n) : 0 < backOff s n ∧ backOff s n ≤ n ∧
    ∀ j ≤ n, 1 < j → isTail (s.getD j 0) = false → isTail (s.getD (backOff s n) 0) = false := by
  fun_induction backOff s n with
  | case1 n isTail ih =>
    obtain ⟨pos, below, start⟩ := ih (Nat.succ_pos n)
    refine ⟨pos, below.trans (Nat.le_succ _), fun j before some isStart => start j ?_ some isStart⟩
    refine Nat.le_of_lt_succ (lt_of_le_of_ne before ?_)
    rintro rfl
    exact absurd isTail (Bool.eq_false_iff.mp isStart)
  | case2 n notTail => exact ⟨Nat.succ_pos _, le_rfl, fun _ _ _ _ => Bool.eq_false_iff.mpr notTail⟩
  | case3 n small => exact ⟨pos, le_rfl, fun j before some => (small (n - 2) (by omega)).elim⟩

theorem segment_pos (sep : Sep) (begun : s ≠ []) : 0 < (segment sep s).length := by
  fun_cases segment sep s with
  | case1 => exact absurd rfl begun
  | case2 => exact length_pos_iff.mpr sep.begun
  | case3 => exact Nat.succ_pos _

theorem drop_segment_lt (sep : Sep) (begun : s ≠ []) : (s.drop (segment sep s).length).length < s.length := by
  rw [length_drop]
  exact Nat.sub_lt (length_pos_iff.mpr begun) (segment_pos sep begun)

section Split

variable (maxTokens : Nat)

theorem maxBytes_pos : 0 < maxBytes maxTokens := lt_max_of_lt_left (by decide)

def hardCuts (s : Text) : List Text :=
  if s.length ≤ maxBytes maxTokens then [s]
  else s.take (backOff s (maxBytes maxTokens)) :: hardCuts (s.drop (backOff s (maxBytes maxTokens)))
termination_by s.length
decreasing_by
  have cut := @backOff_spec s _ (maxBytes_pos maxTokens)
  rw [length_drop]
  omega

/-- The loop over the segments: those joined so far are `run`, and `rest` is behind them. -/
def joinSegments (sep : Sep) (deeper : Text → List Text) (run rest : Text) : List Text :=
  if rest = [] then if run = [] then [] else [run]
  else if (run ++ segment sep rest).length ≤ maxBytes maxTokens then
    joinSegments sep deeper (run ++ segment sep rest) (rest.drop (segment sep rest).length)
  else if run ≠ [] then run :: joinSegments sep deeper [] rest
  else deeper (segment sep rest) ++ joinSegments sep deeper [] (rest.drop (segment sep rest).length)
termination_by (rest.length, run.length)
decreasing_by
  · exact .left _ _ (drop_segment_lt sep ‹_›)
  · exact .right _ (length_pos_iff.mpr ‹_›)
  · exact .left _ _ (drop_segment_lt sep ‹_›)

def splitAt : List Sep → Text → List Text
  | [], s => hardCuts maxTokens s
  | sep :: more, s =>
    if s.length ≤ maxBytes maxTokens then [s] else joinSegments maxTokens sep (splitAt more) [] s

def splitText (s : Text) : List Text := splitAt maxTokens seps s

end Split

def Utf8 (s : Text) : Prop := ∃ chars : List Char, s = chars.flatMap String.utf8EncodeChar

theorem utf8_nil : Utf8 [] := ⟨[], rfl⟩

theorem isTail_eq (b : UInt8) : isTail b = decide (b.toNat / 64 = 2) := by
  have all : ∀ n < 256, isTail (UInt8.ofNat n) = decide (n / 64 = 2) := by decide +kernel
  simpa using all b.toNat b.toNat_lt

theorem encode_cases (c : Char) : ∃ first tail, String.utf8EncodeChar c = first :: tail ∧ tail.length < 4 ∧
    isTail first = false ∧ (∀ b ∈ tail, isTail b = true) ∧ (tail = [] ∨ ∀ b ∈ first :: tail, 0x80 ≤ b) := by
  rw [String.utf8EncodeChar]
  generalize c.val.toNat = v
  split_ifs with one two three
  all_goals refine ⟨_, _, rfl, by simp, ?_, ?_, ?_⟩
  all_goals simp only [isTail_eq, UInt8.toNat_ofNat, UInt8.le_iff_toNat_le]
  all_goals simp
  all_goals omega

variable {a b : Text}

theorem Utf8.append (isA : Utf8 a) (isB : Utf8 b) : Utf8 (a ++ b) := by
  obtain ⟨first, rfl⟩ := isA
  obtain ⟨second, rfl⟩ := isB
  exact ⟨first ++ second, flatMap_append.symm⟩

/-- A cut behind a plain byte, or before one that begins a character, is between characters. -/
theorem Utf8.split (utf8 : Utf8 (a ++ b))
    (cut : ∀ x y, a.getLast? = some x → b.head? = some y → x < 0x80 ∨ isTail y = false) : Utf8 a ∧ Utf8 b := by
  obtain ⟨chars, same⟩ := utf8
  induction chars generalizing a with
  | nil =>
    obtain ⟨rfl, rfl⟩ := append_eq_nil_iff.mp same
    exact ⟨utf8_nil, utf8_nil⟩
  | cons c chars ih =>
    rcases append_eq_append_iff.mp same with ⟨inner, isChar, isRest⟩ | ⟨later, rfl, isRest⟩
    · rcases a with _ | ⟨x, a⟩
      · exact ⟨utf8_nil, c :: chars, same⟩
      rcases inner with _ | ⟨y, inner⟩
      · exact ⟨⟨[c], by simp [isChar]⟩, chars, isRest⟩
      -- the cut would be inside the character
      obtain ⟨first, tail, isEncoded, -, -, tails, high⟩ := encode_cases c
      cases isEncoded.symm.trans isChar
      have some := cons_ne_nil x a
      rcases cut _ y (getLast?_eq_some_getLast some) (by rw [isRest]; rfl) with plain | notTail
      · have atLeast := high.resolve_left (by simp) _ (mem_append_left _ (getLast_mem some))
        exact absurd plain (UInt8.not_lt.mpr atLeast)
      · exact absurd (tails y (by simp)) (Bool.eq_false_iff.mp notTail)
    · obtain ⟨isLater, isB⟩ := ih (fun x y isLast => cut x y (by simp [isLast])) isRest.symm
      exact ⟨Utf8.append ⟨[c], by simp⟩ isLater, isB⟩

theorem Utf8.start_near (utf8 : Utf8 s) {k : Nat} (inside : k < s.length) :
    ∃ j ≤ k, k < j + 4 ∧ isTail (s.getD j 0) = false := by
  obtain ⟨chars, rfl⟩ := utf8
  induction chars generalizing k with
  | nil => cases inside
  | cons c chars ih =>
    obtain ⟨first, tail, isChar, short, start, -⟩ := encode_cases c
    rw [flatMap_cons, isChar] at inside ⊢
    by_cases here : k < (first :: tail).length
    · exact ⟨0, Nat.zero_le k, by grind, by simpa using start⟩
    rw [length_append] at inside
    obtain ⟨j, before, near, isStart⟩ := @ih (k - (first :: tail).length) (by omega)
    refine ⟨(first :: tail).length + j, by omega, by omega, ?_⟩
    rwa [getD_append_right _ _ _ _ (Nat.le_add_right _ _), Nat.add_sub_cancel_left]

theorem segment_cut (sep : Sep) (s : Text) : segment sep s <+: s ∧
    (segment sep s = s ∨ ∃ front x, segment sep s = front ++ [x] ∧ x < 0x80) := by
  induction s with
  | nil => exact ⟨prefix_rfl, .inl rfl⟩
  | cons b rest ih =>
    rw [segment]
    split
    · next found =>
      have isLast := (dropLast_append_getLast sep.begun).symm
      exact ⟨ isPrefixOf_iff_prefix.mp found, .inr ⟨_, _, isLast, sep.plain _ (getLast_mem sep.begun)⟩⟩
    · refine ⟨(prefix_cons_inj b).mpr ih.1, ih.2.imp (congrArg (b :: ·)) ?_⟩
      rintro ⟨front, x, isFront, plain⟩
      exact ⟨b :: front, x, congrArg (b :: ·) isFront, plain⟩

theorem Utf8.segment (utf8 : Utf8 s) (sep : Sep) : segment sep s ++ s.drop (segment sep s).length = s ∧
    Utf8 (segment sep s) ∧ Utf8 (s.drop (segment sep s).length) := by
  obtain ⟨before, cut⟩ := segment_cut sep s
  have whole := prefix_iff_eq_append.mp before
  refine ⟨whole, Utf8.split (by rwa [whole]) ?_⟩
  intro x y isLast isHead
  rcases cut with all | ⟨front, z, isFront, plain⟩
  · rw [all, drop_length] at isHead
    cases isHead
  rw [isFront, getLast?_concat] at isLast
  cases isLast
  exact .inl plain

structure Parts (maxTokens : Nat) (s : Text) (parts : List Text) : Prop where
  whole : parts.flatten = s
  each : ∀ part ∈ parts, part ≠ [] ∧ part.length ≤ maxBytes maxTokens ∧ Utf8 part

variable {maxTokens : Nat} {s : Text}

theorem Parts.append {first second : List Text} (isFirst : Parts maxTokens a first)
    (isSecond : Parts maxTokens b second) : Parts maxTokens (a ++ b) (first ++ second) where
  whole := by rw [flatten_append, isFirst.whole, isSecond.whole]
  each := forall_mem_append.mpr ⟨isFirst.each, isSecond.each⟩

theorem Parts.single (begun : s ≠ []) (fits : s.length ≤ maxBytes maxTokens) (utf8 : Utf8 s) : Parts maxTokens s [s] :=
  ⟨flatten_singleton, forall_mem_singleton.mpr ⟨begun, fits, utf8⟩⟩

theorem parts_hardCuts (begun : s ≠ []) (utf8 : Utf8 s) : Parts maxTokens s (hardCuts maxTokens s) := by
  fun_induction hardCuts maxTokens s with
  | case1 s fits => exact .single begun fits utf8
  | case2 s long ih =>
    have room : 16 ≤ maxBytes maxTokens := le_max_left _ _
    obtain ⟨pos, below, starts⟩ := @backOff_spec s _ (maxBytes_pos maxTokens)
    obtain ⟨j, before, near, isStart⟩ := utf8.start_near (Nat.lt_of_not_le long)
    have start := starts j before (by omega) isStart
    generalize backOff s (maxBytes maxTokens) = cut at *
    rw [← take_append_drop cut s] at utf8
    obtain ⟨isFront, isBack⟩ := utf8.split fun x y _ isHead => by
      rw [head?_drop] at isHead
      exact .inr (by rwa [getD_eq_getElem?_getD, isHead] at start)
    have front : Parts maxTokens _ _ := .single (by simp [pos.ne', begun]) (by rw [length_take]; omega) isFront
    have parts := front.append (ih (by simp; omega) isBack)
    rwa [take_append_drop] at parts

theorem parts_joinSegments {sep : Sep} {deeper : Text → List Text} {run rest : Text}
    (isDeeper : ∀ {s}, s ≠ [] → Utf8 s → Parts maxTokens s (deeper s)) (fits : run.length ≤ maxBytes maxTokens)
    (isRun : Utf8 run) (isRest : Utf8 rest) :
    Parts maxTokens (run ++ rest) (joinSegments maxTokens sep deeper run rest) := by
  fun_induction joinSegments maxTokens sep deeper run rest with
  | case1 => exact ⟨rfl, forall_mem_nil _⟩
  | case2 run begun =>
    rw [append_nil]
    exact .single begun fits isRun
  | case3 run rest begun joined ih =>
    obtain ⟨same, isSegment, isAfter⟩ := isRest.segment sep
    have parts := ih joined (isRun.append isSegment) isAfter
    rwa [append_assoc, same] at parts
  | case4 run rest begun long some ih =>
    exact (Parts.single some fits isRun).append (ih (Nat.zero_le _) utf8_nil isRest)
  | case5 run rest begun long none ih =>
    obtain ⟨same, isSegment, isAfter⟩ := isRest.segment sep
    have parts := (isDeeper (length_pos_iff.mp (segment_pos sep begun)) isSegment).append
      (ih (Nat.zero_le _) utf8_nil isAfter)
    obtain rfl := not_not.mp none
    rwa [nil_append, same] at parts

theorem parts_splitAt (seps : List Sep) (begun : s ≠ []) (utf8 : Utf8 s) :
    Parts maxTokens s (splitAt maxTokens seps s) := by
  induction seps generalizing s with
  | nil => exact parts_hardCuts begun utf8
  | cons sep more ih =>
    rw [splitAt]
    split
    · next fits => exact .single begun fits utf8
    · exact parts_joinSegments ih (Nat.zero_le _) utf8_nil utf8

/-- Splitting a long text loses nothing and cuts no character. -/
theorem splitText_parts (maxTokens : Nat) (s : Text) (begun : s ≠ []) (utf8 : Utf8 s) :
    (splitText maxTokens s).flatten = s ∧ ∀ part ∈ splitText maxTokens s,
      part ≠ [] ∧ part.length ≤ max 16 (4 * maxTokens) ∧ Utf8 part := by
  obtain ⟨whole, each⟩ := @parts_splitAt maxTokens s seps begun utf8
  refine ⟨whole, fun part isPart => ?_⟩
  obtain ⟨some, fits, isUtf8⟩ := each part isPart
  refine ⟨some, fits.trans (max_le_max_left 16 ?_), isUtf8⟩
  rw [Nat.mul_comm 4]
  exact Nat.mod_le _ _

theorem splitText_parts_word : (splitText 0 (text "a long word, and then some")).flatten =
    text "a long word, and then some" :=
  (splitText_parts 0 _ (by decide +kernel) ⟨"a long word, and then some".toList, by decide +kernel⟩).1

end OpenChime.Daemon.SumSplit
