import Mathlib.Data.List.Induction
import OpenChime.Lib.Nesting
import OpenChime.Shared.RichTextBounds

/-! The spans of a body are nested: what a walk emits between two positions lies between them, and
every construct comes before what is inside it. -/

set_option autoImplicit false

namespace OpenChime.Shared.RichText

open List Construct

def Span.past (span : Span) : Nat := span.start + span.len

/-- Nothing is inside a table, and a table is inside nothing but a hidden block. -/
def Span.MayHold (span inner : Span) : Prop :=
  span.style ≠ table.style ∧ (inner.style = table.style → span.style = spoilerBlock.style)

abbrev Nested (low high : Nat) (spans : List Span) : Prop :=
  Nesting.Nested Span.start Span.past Span.MayHold low high spans

variable {construct : Construct} {low high start len : Nat} {style : Style} {inner : List Span}

theorem Construct.style_ne_table (other : construct ≠ .table) : construct.style ≠ table.style := by
  intro same
  exact other (Option.some.inj (Style.mk.inj same).1)

theorem Construct.delim_ne_table (construct : Construct) : construct.delim ≠ table.style := by
  intro same
  cases (Style.mk.inj same).2

theorem emit_nested (after : low ≤ start) (before : start + len ≤ high) : Nested low high (emit start len style) := by
  rw [emit]
  split
  · exact .nil
  · exact .one after (by dsimp only [Span.past]; omega) before

theorem emit_around (after : low ≤ start) (before : start + len ≤ high)
    (holds : ∀ x ∈ inner, Span.MayHold ⟨start, len, style⟩ x) (inside : Nested start (start + len) inner) :
    Nested low high (emit start len style ++ inner) := by
  rw [emit]
  split
  · exact inside.widen after before
  · exact .around after (by dsimp only [Span.past]; omega) before holds inside

structure Inline (low high : Nat) (spans : List Span) : Prop where
  nested : Nested low high spans
  noTable : ∀ x ∈ spans, x.style ≠ table.style

theorem Inline.nil : Inline low high [] := ⟨.nil, fun _ no => absurd no not_mem_nil⟩

theorem Inline.append {mid : Nat} {spans more : List Span} (inline : Inline low mid spans) (lower : low ≤ mid)
    (higher : mid ≤ high) (others : Inline mid high more) : Inline low high (spans ++ more) := by
  refine ⟨inline.nested.append lower higher others.nested, ?_⟩
  intro x member
  cases mem_append.mp member with
  | inl member => exact inline.noTable x member
  | inr member => exact others.noTable x member

theorem emit_styled {x : Span} (member : x ∈ emit start len style) : x = ⟨start, len, style⟩ := by
  rw [emit] at member
  split at member
  · exact absurd member not_mem_nil
  · exact mem_singleton.mp member

theorem emit_inline (after : low ≤ start) (before : start + len ≤ high)
    (other : style ≠ table.style) : Inline low high (emit start len style) := by
  refine ⟨emit_nested after before, ?_⟩
  intro x member
  rw [emit_styled member]
  exact other

theorem emit_around_inline (after : low ≤ start) (before : start + len ≤ high) (other : style ≠ table.style)
    (inside : Inline start (start + len) inner) : Inline low high (emit start len style ++ inner) := by
  constructor
  · apply emit_around after before _ inside.nested
    intro x member
    exact ⟨other, fun table => absurd table (inside.noTable x member)⟩
  · intro x member
    cases mem_append.mp member with
    | inl member =>
      rw [emit_styled member]
      exact other
    | inr member => exact inside.noTable x member

theorem bracketed_inline {i d j d' : Nat} (other : construct ≠ .table) (opens : i + d ≤ j)
    (inside : Inline (i + d) j inner) : Inline i (j + d') (bracketed construct i d j d' inner) := by
  have content : i + d + (j - (i + d)) = j := by omega
  rw [bracketed, ← append_assoc (emit (i + d) _ _)]
  apply (emit_inline (le_refl i) (le_refl _) construct.delim_ne_table).append (by omega) (by omega)
  apply Inline.append _ opens (by omega) (emit_inline (le_refl j) (le_refl _) construct.delim_ne_table)
  apply emit_around_inline (le_refl _) (by omega) (style_ne_table other)
  rw [content]
  exact inside

theorem Move.Covers.inline {i e : Nat} {move : Move} {place : Place} {inner : Place → Nat → Nat → List Span}
    (inside : ∀ place s e, s ≤ e → Inline s e (inner place s e)) (covers : move.Covers i e) :
    Inline i (move.next i) (move.emits place inner i) := by
  cases move with
  | escape => exact emit_inline (le_refl i) (Nat.le_succ _) (by decide)
  | lineBreak len => exact emit_inline (le_refl i) (le_refl _) (by decide)
  | time len => exact emit_inline (le_refl i) (le_refl _) (by decide)
  | link len => exact emit_inline (le_refl i) (le_refl _) (by decide)
  | labelled len close =>
    obtain ⟨opens, closes, -⟩ := covers
    have whole : close + (i + len - close) = i + len := by omega
    dsimp only [Move.emits, Move.next]
    rw [← whole, Nat.add_sub_cancel_left]
    exact bracketed_inline (by decide) opens.le (inside _ _ _ opens.le)
  | code len =>
    obtain ⟨some, -⟩ := covers
    have whole : i + len - 1 + 1 = i + len := by omega
    have block : Inline i (i + len - 1 + 1) (bracketed .code i 1 (i + len - 1) 1 []) :=
      bracketed_inline (by decide) (by omega) .nil
    rwa [whole] at block
  | backticks stop => exact .nil
  | spoiler close => exact bracketed_inline (by decide) covers.1 (inside _ _ _ covers.1)
  | emptySpoiler close => exact .nil
  | openSpoiler => exact .nil
  | emphasis construct d close =>
    obtain ⟨other, -, opens, -⟩ := covers
    exact bracketed_inline other opens.le (inside _ _ _ opens.le)
  | openEmphasis d => exact .nil
  | literal len => exact .nil

theorem advancing_inlineTurn (b : Text) (place : Place) (inner : Place → Nat → Nat → List Span)
    (e : Nat) : Cursor.Advancing (inlineTurn b place inner e) e := by
  intro i state next after inside taken
  cases taken
  exact (moveAt_covers inside).next.1

theorem scanInline_inline (b : Text) (level : Nat) (place : Place) {s e : Nat} (inside : s ≤ e) :
    Inline s e (scanInline b level place s e) := by
  induction level generalizing place s e with
  | zero => exact .nil
  | succ level ih =>
    apply Cursor.run_holds (fun position state => s ≤ position ∧ position ≤ e ∧ Inline s position state.2)
      (fun spans => Inline s e spans) (advancing_inlineTurn b place (scanInline b level) e)
    · intro position state result _ _ taken
      cases taken
    · intro position state next after before holds taken
      obtain ⟨low, high, spans⟩ := holds
      cases taken
      have covers : (moveAt b place e position state.1).Covers position e := moveAt_covers before
      obtain ⟨later, short⟩ := covers.next
      refine ⟨by omega, short, ?_⟩
      exact spans.append low later.le (covers.inline fun place s e inside => ih place inside)
    · intro position state past holds
      obtain ⟨low, high, spans⟩ := holds
      have same : position = e := le_antisymm high past
      rw [← same]
      exact spans
    · exact ⟨le_refl s, inside, .nil⟩

theorem scanLine_inline (b : Text) (place : Place) (markers : Nat) {s e : Nat} (inside : s ≤ e) :
    Inline s e (scanLine b place markers s e) := by
  induction markers generalizing s with
  | zero => exact scanInline_inline b levels place inside
  | succ markers ih =>
    rw [scanLine]
    split
    · exact scanInline_inline b levels place inside
    next construct q found =>
    obtain ⟨low, -⟩ := skipBlanks_bounds (b := b) inside
    obtain ⟨other, later, short⟩ := markerAt_bounds found
    have marker : skipBlanks b s e + (q - skipBlanks b s e) = q := by omega
    have content : q + (e - q) = e := by omega
    apply (emit_inline low marker.le construct.delim_ne_table).append (by omega) short
    split
    · apply emit_around_inline (le_refl q) content.le (style_ne_table other)
      rw [content]
      exact ih short
    · exact .nil

theorem textSpans_nested (b : Text) (s e : Nat) : Nested s e (textSpans b s e) := by
  have advancing : Cursor.Advancing (textTurn b e) e := by
    intro i pieces next after before taken
    rw [textTurn] at taken
    split at taken
    · next found =>
      cases taken
      obtain ⟨-, some, fits, -⟩ := tableAt_bounds before.le found
      omega
    · cases taken
      have line := lineAt_bounds (b := b) before.le
      omega
  apply Cursor.run_holds (fun i pieces => s ≤ i ∧ Nested s (min i e) (pieces.flatMap (pieceSpans b)))
    (fun pieces => Nested s e (pieces.flatMap (pieceSpans b))) advancing
  · intro i pieces result _ _ taken
    rw [textTurn] at taken
    split at taken
    · cases taken
    · cases taken
  · intro i pieces next after before holds taken
    obtain ⟨low, spans⟩ := holds
    rw [min_eq_left before.le] at spans
    rw [textTurn] at taken
    split at taken
    · next stop table found =>
      cases taken
      obtain ⟨begins, some, fits, short⟩ := tableAt_bounds before.le found
      rw [flatMap_append, flatMap_singleton]
      refine ⟨by omega, spans.append low (by omega) ?_⟩
      exact emit_nested begins.ge (by omega)
    obtain ⟨first, trim, short⟩ := lineAt_bounds (b := b) before.le
    cases taken
    refine ⟨by omega, ?_⟩
    split
    · next some =>
      rw [flatMap_append, flatMap_singleton]
      apply spans.append low (by omega)
      exact (scanLine_inline b _ 4 first).nested.widen (le_refl i) (by omega)
    · exact spans.widen (le_refl s) (by omega)
  · intro i pieces past holds
    exact holds.2.widen (le_refl s) (min_le_right i e)
  · exact ⟨le_refl s, .nil⟩

theorem fenced_nested {i cs ce close : Nat} (holds : ∀ x ∈ inner, Span.MayHold ⟨cs, ce - cs, construct.style⟩ x)
    (opens : i ≤ cs) (content : cs ≤ ce) (closes : ce ≤ close + 3) (inside : Nested cs ce inner) :
    Nested i (close + 3) (fenced construct i cs ce close inner) := by
  have delim : i + (cs - i) = cs := by omega
  have body : cs + (ce - cs) = ce := by omega
  rw [fenced, ← append_assoc (emit cs _ _)]
  apply (emit_nested (le_refl i) delim.le).append opens (by omega)
  apply Nesting.Nested.append _ content closes (emit_nested (le_refl ce) (by omega))
  apply emit_around (le_refl cs) body.le holds
  rw [body]
  exact inside

theorem partSpans_nested {b : Text} {part : Part} (covers : part.Covers low high) :
    Nested low high (partSpans b part) := by
  cases part with
  | text s e =>
    obtain ⟨after, -, before⟩ := covers
    exact (textSpans_nested b s e).widen after before
  | code i cs ce close =>
    obtain ⟨after, opens, content, closes, before⟩ := covers
    have none : ∀ x ∈ ([] : List Span), Span.MayHold ⟨cs, ce - cs, codeblock.style⟩ x :=
      fun _ no => absurd no not_mem_nil
    exact (fenced_nested none (by omega) content (by omega) .nil).widen after before
  | block i cs ce close =>
    obtain ⟨after, opens, content, closes, before⟩ := covers
    have holds : ∀ x ∈ textSpans b cs ce, Span.MayHold ⟨cs, ce - cs, spoilerBlock.style⟩ x :=
      fun _ _ => ⟨style_ne_table noConfusion, fun _ => rfl⟩
    exact (fenced_nested holds (by omega) content (by omega) (textSpans_nested b cs ce)).widen after before

theorem allSpans_nested (b : Text) : Nested 0 b.length (allSpans b) := by
  apply Cursor.run_holds (fun i state => state.1 ≤ i ∧ i ≤ b.length ∧ Nested 0 state.1 (state.2.flatMap (partSpans b)))
    (fun parts => Nested 0 b.length (parts.flatMap (partSpans b))) (advancing_bodyTurn b)
  · intro i state result _ _ taken
    cases bodyTurn_cases b i state with
    | inl moved =>
      rw [moved.1] at taken
      cases taken
    | inr opened =>
      obtain ⟨close, -, on⟩ := opened
      rw [on] at taken
      cases taken
  · intro i state next after before holds taken
    obtain ⟨begun, -, spans⟩ := holds
    cases bodyTurn_cases b i state with
    | inl moved =>
      rw [moved.1] at taken
      cases taken
      exact ⟨by omega, before, spans⟩
    | inr opened =>
      obtain ⟨close, found, on⟩ := opened
      obtain ⟨low, high⟩ := opensBlock_bounds found
      rw [on] at taken
      cases taken
      refine ⟨le_refl _, high, ?_⟩
      rw [flatMap_append, flatMap_cons, flatMap_singleton]
      apply spans.append (Nat.zero_le _) (by omega)
      have before : Part.Covers state.1 i (.text state.1 i) := ⟨le_refl _, begun, le_refl _⟩
      apply (partSpans_nested before).append begun (by omega)
      exact partSpans_nested (fencedAt_covers low)
  · intro i state past holds
    obtain ⟨begun, short, spans⟩ := holds
    have rest : Part.Covers state.1 b.length (.text state.1 b.length) := ⟨le_refl _, by omega, le_refl _⟩
    rw [flatMap_append, flatMap_singleton]
    exact spans.append (Nat.zero_le _) (by omega) (partSpans_nested rest)
  · exact ⟨le_refl 0, Nat.zero_le _, .nil⟩

theorem foldl_emit (max : Nat) (spans : List Span) :
    spans.foldl (Out.emit max) ⟨[], 0⟩ = ⟨spans.take max, spans.length⟩ := by
  induction spans using List.reverseRecOn with
  | nil => rw [foldl_nil, take_nil, length_nil]
  | append_singleton spans span ih =>
    rw [foldl_append, ih, foldl_cons, foldl_nil, Out.emit, length_append, length_singleton]
    dsimp only
    split
    · next fits =>
      rw [take_of_length_le fits.le, take_of_length_le]
      rw [length_append]
      exact fits
    · next full => rw [take_append_of_le_length (by omega)]

structure WellFormed (len : Nat) (spans : List Span) : Prop where
  inside : ∀ x ∈ spans, 0 < x.len ∧ x.past ≤ len
  sorted : spans.Pairwise fun x y => x.start < y.start ∨ (x.start = y.start ∧ y.past ≤ x.past)
  nested : spans.Pairwise fun x y => x.past ≤ y.start ∨ (x.start ≤ y.start ∧ y.past ≤ x.past)
  nothingInTable : spans.Pairwise fun x y => x.style = table.style → x.past ≤ y.start
  tableInBlock : spans.Pairwise fun x y => y.style = table.style → x.past ≤ y.start ∨ x.style = spoilerBlock.style

/-- The spans of a body are well formed, and an array of any size holds the first of them. -/
theorem rt_scan_well_formed (b : Text) : WellFormed b.length (allSpans b) ∧
      ∀ max, rtScan b max = ⟨(allSpans b).take max, (allSpans b).length⟩ := by
  have nested := allSpans_nested b
  have inside := nested.between
  have pairs := nested.pairwise
  refine ⟨⟨?_, ?_, ?_, ?_, ?_⟩, fun max => foldl_emit max (allSpans b)⟩
  · intro x member
    obtain ⟨-, some, fits⟩ := inside x member
    rw [Span.past] at some
    exact ⟨by omega, fits⟩
  · apply pairs.imp_of_mem
    intro x y first _ related
    obtain ⟨-, some, -⟩ := inside x first
    omega
  · exact pairs.imp fun related => related.imp_right And.right
  · apply pairs.imp
    intro x y related table
    cases related with
    | inl behind => exact behind
    | inr within => exact absurd table within.1.1
  · apply pairs.imp
    intro x y related table
    exact related.imp_right fun within => within.1.2 table

/-- A hidden block that is nothing but a table: its content has the table's range. -/
theorem block_content_is_its_table : rtScan (text "\x60\x60\x60spoiler\n|a|\n|-|\n\x60\x60\x60") 8 =
      ⟨[⟨0, 11, spoilerBlock.delim⟩, ⟨11, 7, spoilerBlock.style⟩,
        ⟨11, 7, table.style⟩, ⟨18, 4, spoilerBlock.delim⟩], 4⟩ := by
  decide +kernel

end OpenChime.Shared.RichText
