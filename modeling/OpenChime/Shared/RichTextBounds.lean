import Mathlib.Data.Option.Basic
import OpenChime.Shared.RichTextBody

/-! How far the searches of the formatting go: what each finds lies behind where it began and before
the bound it was given. -/

set_option autoImplicit false

namespace OpenChime.Shared

open Cursor Option

namespace Url

variable {b : Text} {stop i : Nat}

theorem wordAt_le {word : Text} (found : wordAt b stop word i = true) : word = [] ∨ i + word.length ≤ stop := by
  induction word generalizing i with
  | nil => exact Or.inl rfl
  | cons ch word ih =>
    right
    rw [wordAt, Bool.and_eq_true, Bool.and_eq_true, decide_eq_true_iff] at found
    obtain ⟨⟨inside, -⟩, rest⟩ := found
    rw [List.length_cons]
    cases ih rest with
    | inl empty =>
      rw [empty, List.length_nil]
      omega
    | inr fits => omega

theorem schemeLen_le (found : schemeLen b stop i ≠ 0) : 7 ≤ schemeLen b stop i ∧ i + schemeLen b stop i ≤ stop := by
  have https : (text "https://").length = 8 := rfl
  have http : (text "http://").length = 7 := rfl
  rw [schemeLen] at found ⊢
  split
  · next match8 =>
    cases wordAt_le match8 with
    | inl empty => cases empty
    | inr fits => omega
  next no8 =>
  rw [if_neg no8] at found
  split
  · next match7 =>
    cases wordAt_le match7 with
    | inl empty => cases empty
    | inr fits => omega
  · next no7 =>
    rw [if_neg no7] at found
    exact absurd rfl found

theorem trimmed_le (b : Text) (i scheme n : Nat) : trimmed b i scheme n ≤ n := by
  induction n with
  | zero => exact le_refl 0
  | succ n ih =>
    rw [trimmed]
    split
    · exact Nat.zero_le _
    split
    · exact ih.trans (Nat.le_succ n)
    split
    · exact ih.trans (Nat.le_succ n)
    · exact le_refl _

theorem urlLen_le (found : urlLen b stop i ≠ 0) : i + urlLen b stop i ≤ stop := by
  rw [urlLen] at found ⊢
  split
  · next none =>
    rw [if_pos none] at found
    exact absurd rfl found
  next some =>
  have scheme : schemeLen b stop i ≠ 0 := fun zero => some (Or.inl zero)
  obtain ⟨-, fits⟩ := schemeLen_le scheme
  obtain ⟨low, high, -⟩ := skip_passes (fun p => !stops (byteAt b p)) fits
  have short := trimmed_le b i (schemeLen b stop i)
    (skip (fun p => !stops (byteAt b p)) stop (i + schemeLen b stop i) - i)
  omega

theorem codeLen_le {opens : Bool} (found : codeLen opens b stop i ≠ 0) :
    3 ≤ codeLen opens b stop i ∧ i + codeLen opens b stop i ≤ stop := by
  rw [codeLen] at found ⊢
  split at found
  · exact absurd rfl found
  next tick =>
  rw [if_neg tick]
  split at found
  · exact absurd rfl found
  next single =>
  rw [if_neg single]
  split at found
  · exact absurd rfl found
  next opened =>
  rw [if_neg opened]
  split at found
  · exact absurd rfl found
  next inside =>
  rw [if_neg inside]
  dsimp only at found ⊢
  split at found
  · next closes =>
    rw [if_pos closes]
    have low : i + 2 ≤ stop := by
      by_contra short
      exact inside (Or.inl (by omega))
    obtain ⟨after, -⟩ := skip_passes (fun p => !(isAt b p '\x60' && !space (byteAt b (p - 1)))) low
    omega
  · exact absurd rfl found

theorem fenceClose_bounds {j : Nat} (found : fenceClose b i = some j) : i + 3 ≤ j ∧ j + 3 ≤ b.length := by
  rw [fenceClose] at found
  split at found
  · next closes =>
    cases found
    by_cases inside : i + 3 ≤ b.length - 2
    · obtain ⟨low, -⟩ := skip_passes (fun p => !fenceAt b p) inside
      exact ⟨low, closes⟩
    · rw [skip_done (by omega)] at closes ⊢
      exact ⟨le_refl _, closes⟩
  · cases found

end Url

namespace RichText

variable {b : Text} {i e close : Nat}

theorem urlLen_le (found : urlLen b i e ≠ 0) : i + urlLen b i e ≤ e := Url.urlLen_le found

theorem codeSpanLen_le (found : codeSpanLen b i e ≠ 0) : 3 ≤ codeSpanLen b i e ∧ i + codeSpanLen b i e ≤ e :=
  Url.codeLen_le found

theorem labelledAt_le {len : Nat} (found : labelledAt b i e = some (len, close)) :
    i + 1 < close ∧ close < i + len ∧ i + len ≤ e := by
  rw [labelledAt] at found
  split at found
  · cases found
  dsimp only at found
  split at found
  · cases found
  next closes =>
  split at found
  · cases found
  next nonempty =>
  split at found
  · cases found
  next addressed =>
  cases found
  have low : i + 1 ≤ e := by
    by_contra short
    rw [skip_done (by omega)] at closes
    exact closes (Or.inl (by omega))
  obtain ⟨after, -⟩ := skip_passes (fun p => !(isAt b p ']' || isAt b p '[' || isAt b p '\n')) low
  omega

theorem labelledLen_le (found : labelledLen b i e ≠ 0) : i + labelledLen b i e ≤ e := by
  rw [labelledLen] at found ⊢
  cases link : labelledAt b i e with
  | none =>
    rw [link] at found
    exact absurd rfl found
  | some result =>
    exact (labelledAt_le link).2.2

theorem timeAt_le {len : Nat} {ms : Int} (found : timeAt b e i = some (len, ms)) : 0 < len ∧ i + len ≤ e := by
  simp only [timeAt, bind_eq_bind, bind_eq_some_iff, guard_eq_some'] at found
  obtain ⟨-, -, y, -, -, -, m, -, -, -, d, -, -, -, h, -, -, -, mi, -, ⟨j, sec⟩, seconds, -, ends, -, -, same⟩ := found
  have length := (Prod.mk.inj (some.inj same)).1
  have late : i + 22 ≤ j := by
    split at seconds
    · simp only [bind_eq_some_iff, guard_eq_some'] at seconds
      obtain ⟨-, -, read, -, same⟩ := seconds
      have moved := (Prod.mk.inj (some.inj same)).1
      omega
    · have moved := (Prod.mk.inj (some.inj seconds)).1
      omega
  omega

theorem timeLen_le (found : timeLen b e i ≠ 0) : i + timeLen b e i ≤ e := by
  rw [timeLen] at found ⊢
  cases token : timeAt b e i with
  | none =>
    rw [token] at found
    exact absurd rfl found
  | some result =>
    exact (timeAt_le token).2

theorem brLen_le (found : brLen b i e ≠ 0) : i + brLen b i e ≤ e := by
  rw [brLen] at found ⊢
  split at found
  · exact absurd rfl found
  next breaks =>
  rw [if_neg breaks]
  dsimp only at found ⊢
  split at found
  · next closes =>
    rw [if_pos closes]
    omega
  · exact absurd rfl found

theorem tokenLen_le (found : tokenLen b i e ≠ 0) : i + tokenLen b i e ≤ e := by
  rw [tokenLen] at found ⊢
  split
  · next code => exact (codeSpanLen_le code).2
  next noCode =>
  rw [if_neg noCode] at found
  split
  · next url => exact urlLen_le url
  next noUrl =>
  rw [if_neg noUrl] at found
  split
  · next link => exact labelledLen_le link
  next noLink =>
  rw [if_neg noLink] at found
  split
  · next opens =>
    rw [if_pos opens] at found
    exact timeLen_le found
  · next no =>
    rw [if_neg no] at found
    exact absurd rfl found

theorem afterBackticks_bounds (inside : i < e) (tick : isAt b i '\x60' = true) :
    i < afterBackticks b i e ∧ afterBackticks b i e ≤ e := by
  rw [afterBackticks, skip_on inside tick]
  obtain ⟨low, high, -⟩ := skip_passes (fun p => isAt b p '\x60') (show i + 1 ≤ e from inside)
  exact ⟨low, high⟩

theorem escapeAt_lt (escape : escapeAt b i e = true) : i + 1 < e := by
  rw [escapeAt, Bool.and_eq_true, Bool.and_eq_true, decide_eq_true_iff] at escape
  exact escape.1.2

theorem atSpoilerOpen_lt (opens : atSpoilerOpen b i e = true) : i + 1 < e := by
  rw [atSpoilerOpen, Bool.and_eq_true, Bool.and_eq_true, decide_eq_true_iff] at opens
  exact opens.1.1

theorem closeTurn_cases {j : Nat} {state : Option Nat × Nat} (inside : j < e) :
    (closeTurn b e j state = .stop (some j) ∧ j + 2 ≤ e) ∨
      ∃ next after, closeTurn b e j state = .on next after ∧ j < next ∧ next ≤ e ∧
        (after.1 = state.1 ∨ (after.1 = some j ∧ next = j + 2)) := by
  rw [closeTurn]
  split
  · next escape =>
    have short := escapeAt_lt escape
    exact Or.inr ⟨_, _, rfl, by omega, by omega, Or.inl rfl⟩
  split
  · next token =>
    have short := tokenLen_le token
    exact Or.inr ⟨_, _, rfl, by omega, short, Or.inl rfl⟩
  split
  · next tick =>
    obtain ⟨later, short⟩ := afterBackticks_bounds inside tick
    exact Or.inr ⟨_, _, rfl, later, short, Or.inl rfl⟩
  split
  · next closer =>
    split
    · exact Or.inl ⟨rfl, by omega⟩
    · exact Or.inr ⟨_, _, rfl, by omega, by omega, Or.inr ⟨rfl, rfl⟩⟩
  split
  · next opener =>
    have short := atSpoilerOpen_lt opener.1
    exact Or.inr ⟨_, _, rfl, by omega, by omega, Or.inl rfl⟩
  · exact Or.inr ⟨_, _, rfl, by omega, by omega, Or.inl rfl⟩

theorem advancing_closeTurn (b : Text) (e : Nat) : Cursor.Advancing (closeTurn b e) e := by
  intro j state next after inside taken
  cases closeTurn_cases inside with
  | inl stopped =>
    rw [stopped.1] at taken
    cases taken
  | inr moved =>
    obtain ⟨_, _, same, later, -⟩ := moved
    rw [same] at taken
    cases taken
    exact later

theorem spoilerClose_bounds {j : Nat} (found : spoilerClose b i e = some j) : i + 2 ≤ j ∧ j + 2 ≤ e := by
  have closers : ∀ j, spoilerClose b i e = some j → i + 2 ≤ j ∧ j + 2 ≤ e := by
    apply run_holds (fun position state => i + 2 ≤ position ∧ ∀ j, state.1 = some j → i + 2 ≤ j ∧ j + 2 ≤ e)
      (fun result => ∀ j, result = some j → i + 2 ≤ j ∧ j + 2 ≤ e) (advancing_closeTurn b e)
    · intro position state result inside holds taken j same
      cases closeTurn_cases inside with
      | inl stopped =>
        rw [stopped.1] at taken
        cases taken
        cases same
        exact ⟨holds.1, stopped.2⟩
      | inr moved =>
        obtain ⟨_, _, on, -⟩ := moved
        rw [on] at taken
        cases taken
    · intro position state next after inside holds taken
      cases closeTurn_cases inside with
      | inl stopped =>
        rw [stopped.1] at taken
        cases taken
      | inr moved =>
        obtain ⟨_, _, on, later, short, last⟩ := moved
        rw [on] at taken
        cases taken
        refine ⟨by omega, ?_⟩
        intro j same
        cases last with
        | inl kept => exact holds.2 j (kept.symm.trans same)
        | inr closer =>
          have here := some.inj (closer.1.symm.trans same)
          omega
    · intro position state _ holds
      exact holds.2
    · exact ⟨le_refl _, fun j no => nomatch no⟩
  exact closers j found

variable {ch : UInt8}

theorem findTurn_cases {start d : Nat} {noSpoiler : Bool} (inside : i < e) :
    (findTurn b start e ch d i noSpoiler = .stop (some i) ∧ start < i ∧ i + d ≤ e) ∨
      ∃ next after, findTurn b start e ch d i noSpoiler = .on next after ∧ i < next ∧ next ≤ e := by
  rw [findTurn]
  split
  · next escape =>
    have short := escapeAt_lt escape
    exact Or.inr ⟨_, _, rfl, by omega, by omega⟩
  split
  · next close found =>
    have closer : spoilerClose b i e = some close := by
      split at found
      · exact found
      · cases found
    obtain ⟨low, high⟩ := spoilerClose_bounds closer
    exact Or.inr ⟨_, _, rfl, by omega, by omega⟩
  dsimp only
  split
  · next code =>
    obtain ⟨some, short⟩ := codeSpanLen_le code
    exact Or.inr ⟨_, _, rfl, by omega, short⟩
  split
  · next url =>
    have short := urlLen_le url
    exact Or.inr ⟨_, _, rfl, by omega, short⟩
  split
  · next link =>
    have short := labelledLen_le link
    exact Or.inr ⟨_, _, rfl, by omega, short⟩
  · split
    · next closer => exact Or.inl ⟨rfl, closer.1, closer.2.1⟩
    · exact Or.inr ⟨_, _, rfl, by omega, by omega⟩

theorem advancing_findTurn (b : Text) (start e : Nat) (ch : UInt8) (d : Nat) :
    Cursor.Advancing (findTurn b start e ch d) e := by
  intro i noSpoiler next after inside taken
  cases findTurn_cases inside with
  | inl stopped =>
    rw [stopped.1] at taken
    cases taken
  | inr moved =>
    obtain ⟨_, _, same, later, -⟩ := moved
    rw [same] at taken
    cases taken
    exact later

theorem findClose_bounds {inSpoiler : Bool} {start d j : Nat}
    (found : findClose b inSpoiler start e ch d = some j) : start < j ∧ j + d ≤ e := by
  have closers : ∀ j, findClose b inSpoiler start e ch d = some j → start < j ∧ j + d ≤ e := by
    apply run_holds (fun _ _ => True) (fun result => ∀ j, result = some j → start < j ∧ j + d ≤ e)
      (advancing_findTurn b start e ch d)
    · intro i noSpoiler result inside _ taken j same
      cases findTurn_cases inside with
      | inl stopped =>
        rw [stopped.1] at taken
        cases taken
        cases same
        exact stopped.2
      | inr moved =>
        obtain ⟨_, _, on, -⟩ := moved
        rw [on] at taken
        cases taken
    · exact fun _ _ _ _ _ _ _ => trivial
    · exact fun _ _ _ _ _ no => nomatch no
    · trivial
  exact closers j found

def Move.Covers (i e : Nat) : Move → Prop
  | .escape => i + 2 ≤ e
  | .lineBreak len | .time len | .link len | .literal len | .openEmphasis len =>
    0 < len ∧ i + len ≤ e
  | .labelled len close => i + 1 < close ∧ close < i + len ∧ i + len ≤ e
  | .code len => 3 ≤ len ∧ i + len ≤ e
  | .backticks stop => i < stop ∧ stop ≤ e
  | .spoiler close | .emptySpoiler close => i + 2 ≤ close ∧ close + 2 ≤ e
  | .openSpoiler => i < e
  | .emphasis construct d close =>
    construct ≠ .table ∧ 0 < d ∧ i + d < close ∧ close + d ≤ e

theorem runLen_bounds (inside : i < e) : 0 < runLen b i e ∧ i + runLen b i e ≤ e := by
  obtain ⟨low, high, -⟩ := skip_passes (fun p => byteAt b p == byteAt b i) (show i + 1 ≤ e from inside)
  rw [runLen]
  omega

theorem emphasis_ne_table {construct : Construct} (opens : emphasis ch = some construct) : construct ≠ .table := by
  rintro rfl
  rw [emphasis] at opens
  split at opens
  · cases opens
  split at opens
  · cases opens
  split at opens
  · cases opens
  · cases opens

theorem emphasisMove_covers {place : Place} {hopeless : Hopeless} (inside : i < e) :
    (emphasisMove b place e i hopeless).Covers i e := by
  have run := runLen_bounds (b := b) inside
  rw [emphasisMove]
  split
  · exact ⟨Nat.one_pos, inside⟩
  next construct opens =>
  dsimp only
  split
  · exact run
  split
  · split
    · exact run
    next close found =>
    obtain ⟨low, high⟩ := findClose_bounds found
    exact ⟨emphasis_ne_table opens, run.1, low, high⟩
  · exact run

theorem moveAt_covers {place : Place} {hopeless : Hopeless} (inside : i < e) :
    (moveAt b place e i hopeless).Covers i e := by
  rw [moveAt]
  split
  · next escape => exact escapeAt_lt escape
  split
  · next breaks => exact ⟨Nat.pos_of_ne_zero breaks.2, brLen_le breaks.2⟩
  split
  · next time => exact ⟨Nat.pos_of_ne_zero time, timeLen_le time⟩
  split
  · next url => exact ⟨Nat.pos_of_ne_zero url, urlLen_le url⟩
  split
  · next len close found =>
    exact labelledAt_le (filter_eq_some_iff.mp found).1
  split
  · next tick =>
    split
    · next code => exact codeSpanLen_le code
    · exact afterBackticks_bounds inside tick
  rw [spoilerMove]
  split
  · split
    · exact inside
    next close found =>
    split
    · exact spoilerClose_bounds found
    · exact spoilerClose_bounds found
  · exact emphasisMove_covers inside

theorem Move.Covers.next {move : Move} (covers : move.Covers i e) : i < move.next i ∧ move.next i ≤ e := by
  cases move <;> dsimp only [Move.Covers, Move.next] at covers ⊢ <;> omega

theorem skipBlanks_bounds {s : Nat} (inside : s ≤ e) : s ≤ skipBlanks b s e ∧ skipBlanks b s e ≤ e := by
  obtain ⟨low, high, -⟩ := skip_passes (fun p => blank (byteAt b p)) inside
  exact ⟨low, high⟩

theorem markerAt_bounds {p q : Nat} {construct : Construct}
    (found : markerAt b p e = some (construct, q)) : construct ≠ .table ∧ p < q ∧ q ≤ e := by
  rw [markerAt] at found
  split at found
  · cases found
  split at found
  · next quote =>
    cases found
    refine ⟨Construct.noConfusion, ?_⟩
    split
    · omega
    · omega
  split at found
  · next bullet =>
    cases found
    exact ⟨Construct.noConfusion, by omega, bullet.1⟩
  split at found
  · next ordered =>
    cases found
    rw [orderedAt, Bool.and_eq_true, Bool.and_eq_true, decide_eq_true_iff] at ordered
    exact ⟨Construct.noConfusion, by omega, by omega⟩
  · cases found

theorem lineAt_bounds (inside : i ≤ e) :
    i ≤ (lineAt b i e).2 ∧ (lineAt b i e).2 ≤ (lineAt b i e).1 ∧ (lineAt b i e).1 ≤ e := by
  obtain ⟨low, high, -⟩ := skip_passes (fun p => !isAt b p '\n') inside
  rw [lineAt]
  split
  · omega
  · omega

theorem tableTurn_cases {p : Nat} {state : Nat × Nat} (inside : p < e) : tableTurn b e p state = .stop (p, state) ∨
      ∃ next after, tableTurn b e p state = .on next after ∧ p < next ∧ next ≤ e ∧
        after = (state.1 + 1, (lineAt b p e).2) ∧ p ≤ after.2 ∧ after.2 ≤ next := by
  obtain ⟨low, trim, high⟩ := lineAt_bounds (b := b) inside.le
  rw [tableTurn]
  split
  · exact Or.inl rfl
  split
  · exact Or.inl rfl
  · refine Or.inr ⟨_, _, rfl, ?_, ?_, rfl, low, ?_⟩ <;> split <;> omega

theorem advancing_tableTurn (b : Text) (e : Nat) : Cursor.Advancing (tableTurn b e) e := by
  intro p state next after inside taken
  cases tableTurn_cases inside with
  | inl stopped =>
    rw [stopped] at taken
    cases taken
  | inr moved =>
    obtain ⟨_, _, same, later, -⟩ := moved
    rw [same] at taken
    cases taken
    exact later

/-- The end of the last row stays behind a position the header is behind, and before where the loop
is. -/
theorem tableRows_bounds {start : Nat} {state : Nat × Nat} {result : Nat × Nat × Nat}
    (after : i < state.2) (behind : state.2 ≤ start) (before : start ≤ e)
    (rows : run (tableTurn b e) (fun p state => (p, state)) e start state = result) :
    i < result.2.2 ∧ result.2.2 ≤ result.1 ∧ result.1 ≤ e := by
  rw [← rows]
  apply run_holds (fun p state => i < state.2 ∧ state.2 ≤ p ∧ p ≤ e)
    (fun result => i < result.2.2 ∧ result.2.2 ≤ result.1 ∧ result.1 ≤ e) (advancing_tableTurn b e)
  · intro p state result inside holds taken
    cases tableTurn_cases inside with
    | inl stopped =>
      rw [stopped] at taken
      cases taken
      exact holds
    | inr moved =>
      obtain ⟨_, _, on, -⟩ := moved
      rw [on] at taken
      cases taken
  · intro p state next after inside holds taken
    cases tableTurn_cases inside with
    | inl stopped =>
      rw [stopped] at taken
      cases taken
    | inr moved =>
      obtain ⟨_, _, on, later, short, same, begins, ends⟩ := moved
      rw [on] at taken
      cases taken
      exact ⟨by omega, ends, short⟩
  · intro p state _ holds
    exact holds
  · exact ⟨after, behind, before⟩

theorem tableAt_bounds {after : Nat} {table : Table} (inside : i ≤ e) (found : tableAt b i e = some (after, table)) :
    table.start = i ∧ 0 < table.len ∧ i + table.len ≤ after ∧ after ≤ e := by
  simp only [tableAt, bind_eq_bind, bind_eq_some_iff, guard_eq_some'] at found
  obtain ⟨-, ⟨more, -, -⟩, -, -, -, -, align, -, same⟩ := found
  obtain ⟨low, trim, high⟩ := lineAt_bounds (b := b) inside
  obtain ⟨sepLow, sepTrim, sepHigh⟩ := lineAt_bounds (b := b) (show (lineAt b i e).1 + 1 ≤ e from more)
  generalize found : run (tableTurn b e) _ e _ _ = rows at same
  have bounds := tableRows_bounds (i := i) (by dsimp only; omega) (by dsimp only; split <;> omega)
    (by split <;> omega) found
  cases some.inj same
  exact ⟨rfl, by dsimp only; omega, by dsimp only; omega, bounds.2.2⟩

theorem contentEnd_bounds {cs : Nat} (inside : cs ≤ close) :
    cs ≤ contentEnd b cs close ∧ contentEnd b cs close ≤ close := by
  rw [contentEnd]
  split
  · split
    · omega
    · omega
  · exact ⟨inside, le_refl _⟩

theorem blockStart_bounds {cs : Nat} (found : blockStart b i close = some cs) : i + 10 < cs ∧ cs ≤ close := by
  rw [blockStart] at found
  split at found
  · next opens =>
    dsimp only at found
    split at found
    · next ends =>
      cases found
      obtain ⟨low, -⟩ := skip_passes (fun p => !isAt b p '\n') opens.1
      omega
    · cases found
  · cases found

theorem codeStart_bounds (inside : i + 3 ≤ close) : i + 3 ≤ codeStart b i close ∧ codeStart b i close ≤ close := by
  rw [codeStart]
  split
  · omega
  split
  · omega
  · omega

theorem opensBlock_bounds (found : opensBlock b i = some close) : i + 3 ≤ close ∧ close + 3 ≤ b.length := by
  rw [opensBlock] at found
  split at found
  · exact Url.fenceClose_bounds (filter_eq_some_iff.mp found).1
  · cases found

def Part.Covers (low high : Nat) : Part → Prop
  | .text s e => low ≤ s ∧ s ≤ e ∧ e ≤ high
  | .code i cs ce close | .block i cs ce close =>
    low ≤ i ∧ i + 3 ≤ cs ∧ cs ≤ ce ∧ ce ≤ close ∧ close + 3 ≤ high

theorem fencedAt_covers (inside : i + 3 ≤ close) : (fencedAt b i close).Covers i (close + 3) := by
  rw [fencedAt]
  split
  · next cs found =>
    obtain ⟨low, high⟩ := blockStart_bounds found
    obtain ⟨after, before⟩ := contentEnd_bounds (b := b) high
    exact ⟨le_refl _, by omega, after, before, le_refl _⟩
  · obtain ⟨low, high⟩ := codeStart_bounds (b := b) inside
    obtain ⟨after, before⟩ := contentEnd_bounds (b := b) high
    exact ⟨le_refl _, low, after, before, le_refl _⟩

theorem bodyTurn_cases (b : Text) (i : Nat) (state : Nat × List Part) :
    (bodyTurn b i state = .on (i + 1) state ∧ opensBlock b i = none) ∨
      ∃ close, opensBlock b i = some close ∧ bodyTurn b i state =
        .on (close + 3) (close + 3, state.2 ++ [.text state.1 i, fencedAt b i close]) := by
  rw [bodyTurn]
  cases opens : opensBlock b i with
  | none => exact Or.inl ⟨rfl, rfl⟩
  | some close => exact Or.inr ⟨close, rfl, rfl⟩

theorem advancing_bodyTurn (b : Text) : Cursor.Advancing (bodyTurn b) b.length := by
  intro i state next after inside taken
  cases bodyTurn_cases b i state with
  | inl moved =>
    rw [moved.1] at taken
    cases taken
    exact Nat.lt_succ_self i
  | inr opened =>
    obtain ⟨close, found, on⟩ := opened
    have bounds := opensBlock_bounds found
    rw [on] at taken
    cases taken
    omega

end RichText

end OpenChime.Shared
