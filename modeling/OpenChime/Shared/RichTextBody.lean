import OpenChime.Shared.RichText

/-! The rest of the message formatting (`shared/richtext.c`): lines and their block markers, tables,
fenced blocks, and the readers built on the walk over a body. -/

set_option autoImplicit false

namespace OpenChime.Shared.RichText

open Cursor

open Cursor (Turn)

def blank (ch : UInt8) : Bool := ch == ascii ' ' || ch == ascii '\t'

variable (b : Text)

def skipBlanks (s e : Nat) : Nat := skip (fun p => blank (byteAt b p)) e s

def trimBlanks (s e : Nat) : Nat := back (fun p => blank (byteAt b p)) s e

/-- The end of the digits at `p`. -/
def afterDigits (p e : Nat) : Nat := skip (fun q => isDigit (byteAt b q)) e p

/-- The number of an ordered item stands at `p` and ends at `q`. -/
def orderedAt (p q e : Nat) : Bool := decide (p < q ∧ q + 1 < e) && isAt b q '.' && isAt b (q + 1) ' '

/-- The block marker at `p`: its construct, and where it ends. -/
def markerAt (p e : Nat) : Option (Construct × Nat) :=
  if spoilerOpens b p e then none
  else if p < e ∧ isAt b p '>' then
    some (.quote, p + (if p + 1 < e ∧ isAt b (p + 1) ' ' then 2 else 1))
  else if p + 1 < e ∧ isAt b p '-' ∧ isAt b (p + 1) ' ' then some (.bullet, p + 2)
  else if orderedAt b p (afterDigits b p e) e then some (.ordered, afterDigits b p e + 2)
  else none

/-- `scan_line`, with as many markers as may still be lifted off. -/
def scanLine (b : Text) (place : Place) : Nat → Nat → Nat → List Span
  | 0, s, e => scanInline b levels place s e
  | markers + 1, s, e =>
    let p := skipBlanks b s e
    match markerAt b p e with
    | none => scanInline b levels place s e
    | some (construct, q) =>
      emit p (q - p) construct.delim ++
        (if q < e then emit q (e - q) construct.style ++ scanLine b place markers q e else [])

/-- `line_at`: the end of the line at `i`, and of its content. -/
def lineAt (i e : Nat) : Nat × Nat :=
  let nl := skip (fun p => !isAt b p '\n') e i
  (nl, if i < nl ∧ isAt b (nl - 1) '\r' then nl - 1 else nl)

def tableMaxCols : Nat := 20

structure Cell where
  start : Nat
  len : Nat
  deriving DecidableEq

inductive Align where
  | none | left | center | right
  deriving DecidableEq

structure Table where
  start : Nat
  len : Nat
  cols : Nat
  header : Bool
  rows : Nat
  align : List Align
  deriving DecidableEq

/-- The state of `split_row`: where the cell began, whether a spoiler may still open, the cells so
far, and whether there was a pipe. -/
structure Row where
  cellStart : Nat
  spoilers : Bool
  cells : List Cell
  pipes : Bool
  deriving DecidableEq

/-- A cell ends at `k`. -/
def Row.close (k : Nat) (pipe : Bool) (row : Row) : Row :=
  let a := skipBlanks b row.cellStart k
  { row with
    cellStart := k + 1
    cells := row.cells ++ [⟨a, trimBlanks b a k - a⟩]
    pipes := row.pipes || pipe }

def codeInCell (k e : Nat) : Nat :=
  let L := codeSpanLen b k e
  if ((List.range L).any fun p => isAt b (k + p) '|') then 0 else L

/-- One turn of the loop of `split_row`, which goes one position past the end. -/
def rowTurn (e k : Nat) (row : Row) : Turn Row Row :=
  if k + 1 < e ∧ isAt b k '\\' then .on (k + 2) row
  else if row.spoilers ∧ k < e ∧ codeInCell b k e ≠ 0 then .on (k + codeInCell b k e) row
  else
    let close := if row.spoilers && atSpoilerOpen b k e then spoilerClose b k e else none
    match close.filter fun j => !allSpace b (k + 2) j with
    | some j => .on (j + 2) row
    | none =>
      let row := if row.spoilers && atSpoilerOpen b k e && close.isNone
        then { row with spoilers := false } else row
      if k = e then .on (k + 1) (row.close b k false)
      else if isAt b k '|' then .on (k + 1) (row.close b k true)
      else .on (k + 1) row

/-- The end of a row, a trailing pipe dropped unless it is escaped. -/
def trailingPipe (s e : Nat) : Bool :=
  decide (s < e) && isAt b (e - 1) '|' && decide ((e - 1 - back (fun p => isAt b p '\\') s (e - 1)) % 2 = 0)

/-- `split_row`: the cells, and whether there was a pipe. -/
def splitRow (s e : Nat) : List Cell × Bool :=
  let s := skipBlanks b s e
  let e := trimBlanks b s e
  let leading := decide (s < e) && isAt b s '|'
  let s := if leading then s + 1 else s
  let trailing := trailingPipe b s e
  let e := if trailing then e - 1 else e
  let spoilers := decide (skip (fun k => !(isAt b k '>' && isAt b (k + 1) '!')) (e - 1) s < e - 1)
  let row := run (rowTurn b e) (fun _ row => row) (e + 1) s ⟨s, spoilers, [], leading || trailing⟩
  (row.cells, row.pipes)

def sepCell (cell : Cell) : Option Align :=
  let s := cell.start
  let e := cell.start + cell.len
  let l := decide (s < e) && isAt b s ':'
  let s := if l then s + 1 else s
  let r := decide (s < e) && isAt b (e - 1) ':'
  let e := if r then e - 1 else e
  if e ≤ s ∨ skip (fun p => isAt b p '-') e s < e then none
  else some (if l && r then .center else if r then .right else if l then .left else .none)

def blockMarker (s e : Nat) : Bool := (markerAt b (skipBlanks b s e) e).isSome

/-- One turn of the loop of `table_at` over the rows. The state is how many there are, and where the
last one ends. -/
def tableTurn (e p : Nat) (state : Nat × Nat) : Turn (Nat × Nat) (Nat × Nat × Nat) :=
  let rn := (lineAt b p e).1
  let rt := (lineAt b p e).2
  if rt = p then .stop (p, state)
  else if (splitRow b p rt).2 = false then .stop (p, state)
  else .on (if rn < e then rn + 1 else e) (state.1 + 1, rt)

/-- `table_at`: the table at the line that begins at `i`, and where the text goes on. -/
def tableAt (i e : Nat) : Option (Nat × Table) := do
  let hn := (lineAt b i e).1
  let ht := (lineAt b i e).2
  guard (hn < e ∧ ht ≠ i ∧ blockMarker b i ht = false)
  let head := (splitRow b i ht).1
  guard ((splitRow b i ht).2 ∧ head.length ≠ 0 ∧ head.length ≤ tableMaxCols)
  let sn := (lineAt b (hn + 1) e).1
  let st := (lineAt b (hn + 1) e).2
  let sep := (splitRow b (hn + 1) st).1
  guard ((splitRow b (hn + 1) st).2 ∧ sep.length = head.length)
  let align ← sep.mapM (sepCell b)
  let rows := run (tableTurn b e) (fun p state => (p, state)) e (if sn < e then sn + 1 else e) (0, st)
  return (rows.1, ⟨i, rows.2.2 - i, head.length, head.any fun cell => cell.len != 0, rows.2.1, align⟩)

inductive Piece where
  | table (table : Table)
  | line (s e : Nat)
  deriving DecidableEq

/-- One turn of `scan_text`. -/
def textTurn (e i : Nat) (pieces : List Piece) : Turn (List Piece) (List Piece) :=
  match tableAt b i e with
  | some (after, table) => .on after (pieces ++ [.table table])
  | none =>
    let nl := (lineAt b i e).1
    let stop := (lineAt b i e).2
    .on (nl + 1) (if i < stop then pieces ++ [.line i stop] else pieces)

def scanText (s e : Nat) : List Piece := run (textTurn b e) (fun _ pieces => pieces) e s []

/-- What a body is made of: text, and fenced blocks of code or of hidden text, each with its fence,
its content and its closing fence. -/
inductive Part where
  | text (s e : Nat)
  | code (i cs ce close : Nat)
  | block (i cs ce close : Nat)
  deriving DecidableEq

/-- One turn of `in_line_spoiler`. -/
def inLineTurn (i e p : Nat) (_ : Unit) : Turn Unit Bool :=
  if escapeAt b p e then .on (p + 2) ()
  else if atSpoilerOpen b p e = false then .on (p + 1) ()
  else
    match spoilerClose b p e with
    | none => .stop false
    | some j => if i ≤ j ∧ allSpace b (p + 2) j = false then .stop true else .on (j + 2) ()

def inLineSpoiler (i : Nat) : Bool :=
  let s := back (fun p => !isAt b p '\n') 0 i
  let e := skip (fun p => !isAt b p '\n') b.length i
  run (inLineTurn b i e) (fun _ _ => false) i s ()

/-- The end of a fenced block's content: a line end before the closing fence belongs to the fence. -/
def contentEnd (cs close : Nat) : Nat :=
  if cs < close ∧ isAt b (close - 1) '\n' then
    if cs < close - 1 ∧ isAt b (close - 2) '\r' then close - 2 else close - 1
  else close

/-- The start of a hidden block's content, for a fence that opens one. -/
def blockStart (i close : Nat) : Option Nat :=
  if i + 10 ≤ close ∧ (b.drop (i + 3)).take 7 = text "spoiler" ∧ rtSpace (byteAt b (i + 10)) then
    let eol := skip (fun p => !isAt b p '\n') close (i + 10)
    if eol < close then some (eol + 1) else none
  else none

def codeStart (i close : Nat) : Nat :=
  if i + 4 < close ∧ isAt b (i + 3) '\r' ∧ isAt b (i + 4) '\n' then i + 5
  else if i + 3 < close ∧ isAt b (i + 3) '\n' then i + 4
  else i + 3

/-- The fenced block at `i`. -/
def fencedAt (i close : Nat) : Part :=
  match blockStart b i close with
  | some cs => .block i cs (contentEnd b cs close) close
  | none => .code i (codeStart b i close) (contentEnd b (codeStart b i close) close) close

/-- The fence that opens a block at `i` and is closed. -/
def opensBlock (i : Nat) : Option Nat :=
  if Url.fenceAt b i ∧ i + 2 < b.length ∧ openOk b i then
    (Url.fenceClose b i).filter fun _ => !inLineSpoiler b i
  else none

/-- One turn of `scan_body`. The state is where the text before `i` began, and the parts so far. -/
def bodyTurn (i : Nat) (state : Nat × List Part) : Turn (Nat × List Part) (List Part) :=
  match opensBlock b i with
  | none => .on (i + 1) state
  | some close => .on (close + 3) (close + 3, state.2 ++ [.text state.1 i, fencedAt b i close])

def scanBody : List Part := run (bodyTurn b) (fun _ state => state.2 ++ [.text state.1 b.length]) b.length 0 (0, [])

def pieceSpans : Piece → List Span
  | .table table => emit table.start table.len Construct.table.style
  | .line s e => scanLine b ⟨false, false⟩ 4 s e

def textSpans (s e : Nat) : List Span := (scanText b s e).flatMap (pieceSpans b)

def fenced (construct : Construct) (i cs ce close : Nat) (inner : List Span) : List Span :=
  emit i (cs - i) construct.delim ++ (emit cs (ce - cs) construct.style ++
    (inner ++ emit ce (close + 3 - ce) construct.delim))

def partSpans : Part → List Span
  | .text s e => textSpans b s e
  | .code i cs ce close => fenced .codeblock i cs ce close []
  | .block i cs ce close => fenced .spoilerBlock i cs ce close (textSpans b cs ce)

def allSpans : List Span := (scanBody b).flatMap (partSpans b)

/-- What `emit` keeps: the first spans, and how many there were. -/
structure Out where
  spans : List Span
  n : Nat
  deriving DecidableEq

/-- `emit` into an array of `max` spans. -/
def Out.emit (max : Nat) (out : Out) (span : Span) : Out :=
  ⟨if out.n < max then out.spans ++ [span] else out.spans, out.n + 1⟩

def rtScan (max : Nat) : Out := (allSpans b).foldl (Out.emit max) ⟨[], 0⟩

end OpenChime.Shared.RichText
