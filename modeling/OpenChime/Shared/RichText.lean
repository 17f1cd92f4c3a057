import OpenChime.Shared.Url

/-! The inline part of the message formatting (`shared/richtext.c`): what one line of text is made
of. A walk over the line is a `Cursor` loop, as in the source, and what it emits is a list of spans
over the bytes of the body. -/

set_option autoImplicit false

namespace OpenChime.Shared.RichText

open Cursor (Turn)

inductive Construct where
  | bold | italic | strike | code | codeblock | quote | bullet | ordered | link | labelled | table
  | lineBreak | time | spoiler | spoilerBlock
  deriving DecidableEq

/-- One construct, or the bytes that delimit it. A backslash delimits nothing. -/
structure Style where
  construct : Option Construct
  delim : Bool
  deriving DecidableEq

def Construct.style (construct : Construct) : Style := ⟨some construct, false⟩

def Construct.delim (construct : Construct) : Style := ⟨some construct, true⟩

structure Span where
  start : Nat
  len : Nat
  style : Style
  deriving DecidableEq

/-- The call of `emit`: an empty span is none. -/
def emit (start len : Nat) (style : Style) : List Span :=
  if len = 0 then [] else [⟨start, len, style⟩]

def rtSpace (ch : UInt8) : Bool := Url.space ch

def rtDelim (ch : UInt8) : Bool := Url.delim ch

def rtEscapable (ch : UInt8) : Bool :=
  rtDelim ch || ch == ascii '>' || ch == ascii '-' || ch == ascii '\\' || ch == ascii '|' || ch == ascii '!'

variable (b : Text)

/-- A backslash at `i` that escapes the byte behind it. -/
def escapeAt (i e : Nat) : Bool := isAt b i '\\' && decide (i + 1 < e) && rtEscapable (byteAt b (i + 1))

/-- Past the byte at `j` if it is `c`. -/
def past (e j : Nat) (c : Char) : Nat :=
  if j < e ∧ isAt b j c then j + 1 else j

def brLen (i e : Nat) : Nat :=
  if e < i + 4 ∨ isAt b i '<' = false ∨ byteAt b (i + 1) ||| 0x20 ≠ ascii 'b' ∨
      byteAt b (i + 2) ||| 0x20 ≠ ascii 'r' then 0
  else
    let j := past b e (past b e (i + 3) ' ') '/'
    if j < e ∧ isAt b j '>' then j + 1 - i else 0

def openOk (i : Nat) : Bool :=
  let i := Url.beforeDelims b i
  i == 0 || Url.opening (byteAt b (i - 1))

def innerOpenOk (i : Nat) : Bool := openOk b i || Url.afterSpoilerOpen b (Url.beforeDelims b i)

def codeSpanLen (i e : Nat) : Nat := Url.codeLen (innerOpenOk b i) b e i

def urlLen (b : Text) (i e : Nat) : Nat := Url.urlLen b e i

/-- `labelled_len`: the length of a labelled link, and the end of its label. -/
def labelledAt (i e : Nat) : Option (Nat × Nat) :=
  if isAt b i '[' = false then none
  else
    let j := Cursor.skip (fun p => !(isAt b p ']' || isAt b p '[' || isAt b p '\n')) e (i + 1)
    if e ≤ j ∨ isAt b j ']' = false then none
    else if j = i + 1 ∨ e ≤ j + 2 ∨ isAt b (j + 1) '(' = false then none
    else
      let L := urlLen b (j + 2) e
      if L = 0 ∨ e ≤ j + 2 + L ∨ isAt b (j + 2 + L) ')' = false then none
      else some (j + 2 + L + 1 - i, j)

def labelledLen (i e : Nat) : Nat := ((labelledAt b i e).map Prod.fst).getD 0

def daysFromCivil (y m d : Int) : Int :=
  let y := if m ≤ 2 then y - 1 else y
  let era := y / 400
  let yoe := y - era * 400
  let doy := (153 * (m + (if m > 2 then -3 else 9)) + 2) / 5 + d - 1
  let doe := yoe * 365 + yoe / 4 - yoe / 100 + doy
  era * 146097 + doe - 719468

def rtDigits (i n : Nat) : Option Nat :=
  (List.range n).foldlM (fun x k =>
    if isDigit (byteAt b (i + k)) then some (x * 10 + ((byteAt b (i + k)).toNat - 48)) else none) 0

def monthDays (m : Nat) : Nat := [31, 29, 31, 30, 31, 30, 31, 31, 30, 31, 30, 31].getD (m - 1) 0

def realTime (y m d h mi sec : Nat) : Bool :=
  decide (1 ≤ y ∧ 1 ≤ m ∧ m ≤ 12 ∧ 1 ≤ d ∧ d ≤ monthDays m ∧ h ≤ 23 ∧ mi ≤ 59 ∧ sec ≤ 59) &&
    !(m == 2 && d == 29 && !((y % 4 == 0 && y % 100 != 0) || y % 400 == 0))

/-- `time_len`: the length of a time token, and the moment it names. -/
def timeAt (e i : Nat) : Option (Nat × Int) := do
  let j := i + 6
  guard (j + 16 + 2 ≤ e ∧ (b.drop i).take 6 = text "<time:")
  let y ← rtDigits b j 4
  guard (isAt b (j + 4) '-')
  let m ← rtDigits b (j + 5) 2
  guard (isAt b (j + 7) '-')
  let d ← rtDigits b (j + 8) 2
  guard (isAt b (j + 10) 'T')
  let h ← rtDigits b (j + 11) 2
  guard (isAt b (j + 13) ':')
  let mi ← rtDigits b (j + 14) 2
  let (j, sec) ← (if isAt b (j + 16) ':' then do
      guard (j + 16 + 3 + 2 ≤ e)
      let sec ← rtDigits b (j + 17) 2
      return (j + 19, sec)
    else return (j + 16, 0))
  guard (j + 2 ≤ e ∧ isAt b j 'Z' ∧ isAt b (j + 1) '>')
  guard (realTime y m d h mi sec)
  return (j + 2 - i, ((daysFromCivil y m d * 86400) + h * 3600 + mi * 60 + sec) * 1000)

def timeLen (e i : Nat) : Nat := ((timeAt b e i).map Prod.fst).getD 0

def atSpoilerOpen (i e : Nat) : Bool := decide (i + 1 < e) && isAt b i '>' && isAt b (i + 1) '!'

/-- What a look for a spoiler's closer steps over whole: code, an address, a labelled link or a time
token. -/
def tokenLen (i e : Nat) : Nat :=
  if codeSpanLen b i e ≠ 0 then codeSpanLen b i e
  else if urlLen b i e ≠ 0 then urlLen b i e
  else if labelledLen b i e ≠ 0 then labelledLen b i e
  else if isAt b i '<' then timeLen b e i
  else 0

/-- The end of the run of backticks at `i`. -/
def afterBackticks (i e : Nat) : Nat := Cursor.skip (fun p => isAt b p '\x60') e i

/-- One turn of `spoiler_close`. The state is the last closer met and how many are still wanted. -/
def closeTurn (e j : Nat) (state : Option Nat × Nat) : Turn (Option Nat × Nat) (Option Nat) :=
  if escapeAt b j e then .on (j + 2) state
  else if tokenLen b j e ≠ 0 then .on (j + tokenLen b j e) state
  else if isAt b j '\x60' then .on (afterBackticks b j e) state
  else if isAt b j '!' ∧ j + 1 < e ∧ isAt b (j + 1) '<' then
    if state.2 ≤ 1 then .stop (some j) else .on (j + 2) (some j, state.2 - 1)
  else if atSpoilerOpen b j e ∧ ¬ (j + 2 < e ∧ isAt b (j + 2) '<') then
    .on (j + 2) (state.1, state.2 + 1)
  else .on (j + 1) state

def spoilerClose (i e : Nat) : Option Nat := Cursor.run (closeTurn b e) (fun _ state => state.1) e (i + 2) (none, 1)

def allSpace (s e : Nat) : Bool := decide (e ≤ Cursor.skip (fun p => rtSpace (byteAt b p)) e s)

def spoilerOpens (i e : Nat) : Bool := atSpoilerOpen b i e && ((spoilerClose b i e).any fun j => !allSpace b (i + 2) j)

/-- A run of `d` bytes `ch` stands at `i`. -/
def runAt (i d : Nat) (ch : UInt8) : Bool := (List.range d).all fun k => byteAt b (i + k) == ch

/-- One turn of `find_close`. The state says that no spoiler is looked for any more. -/
def findTurn (start e : Nat) (ch : UInt8) (d i : Nat) (noSpoiler : Bool) : Turn Bool (Option Nat) :=
  if escapeAt b i e then .on (i + 2) noSpoiler
  else
    match (if !noSpoiler && atSpoilerOpen b i e then spoilerClose b i e else none) with
    | some close => .on (close + 2) noSpoiler
    | none =>
      let noSpoiler := noSpoiler || atSpoilerOpen b i e
      if codeSpanLen b i e ≠ 0 then .on (i + codeSpanLen b i e) noSpoiler
      else if urlLen b i e ≠ 0 then .on (i + urlLen b i e) noSpoiler
      else if labelledLen b i e ≠ 0 then .on (i + labelledLen b i e) noSpoiler
      else if start < i ∧ i + d ≤ e ∧ rtSpace (byteAt b (i - 1)) = false ∧ runAt b i d ch then
        .stop (some i)
      else .on (i + 1) noSpoiler

def findClose (inSpoiler : Bool) (start e : Nat) (ch : UInt8) (d : Nat) : Option Nat :=
  Cursor.run (findTurn b start e ch d) (fun _ _ => none) e start inSpoiler

/-- One turn of `spoiler_leaves`. -/
def leavesTurn (z e s : Nat) (_ : Unit) : Turn Unit Bool :=
  if escapeAt b s z then .on (s + 2) ()
  else if codeSpanLen b s z ≠ 0 then .on (s + codeSpanLen b s z) ()
  else if atSpoilerOpen b s z then
    match spoilerClose b s e with
    | none => .stop false
    | some j => if z ≤ j then .stop true else .on (j + 2) ()
  else .on (s + 1) ()

def spoilerLeaves (inSpoiler : Bool) (s z e : Nat) : Bool :=
  !inSpoiler && Cursor.run (leavesTurn b z e) (fun _ _ => false) z s ()

/-- Where the walk is: in a table's cell, in a spoiler. -/
structure Place where
  inCell : Bool
  inSpoiler : Bool
  deriving DecidableEq

def emphasis (ch : UInt8) : Option Construct :=
  if ch == ascii '*' then some .bold
  else if ch == ascii '_' then some .italic
  else if ch == ascii '~' then some .strike
  else none

/-- How long the run of one byte at `i` is. -/
def runLen (i e : Nat) : Nat := Cursor.skip (fun p => byteAt b p == byteAt b i) e (i + 1) - i

/-- The searches that found nothing: delimiters of a length, and the closer of a spoiler. -/
structure Hopeless where
  runs : List (UInt8 × Nat)
  spoiler : Bool

/-- What the walk takes the bytes at a position for. -/
inductive Move where
  | escape
  | lineBreak (len : Nat)
  | time (len : Nat)
  | link (len : Nat)
  | labelled (len close : Nat)
  | code (len : Nat)
  | backticks (stop : Nat)
  | spoiler (close : Nat)
  | emptySpoiler (close : Nat)
  | openSpoiler
  | emphasis (construct : Construct) (d close : Nat)
  | openEmphasis (d : Nat)
  | literal (len : Nat)

def emphasisMove (place : Place) (e i : Nat) (hopeless : Hopeless) : Move :=
  match emphasis (byteAt b i) with
  | none => .literal 1
  | some construct =>
    let d := runLen b i e
    if d > 2 ∨ (d = 2 ∧ isAt b i '*' = false) then .literal d
    else if innerOpenOk b i ∧ i + d < e ∧ rtSpace (byteAt b (i + d)) = false ∧ (byteAt b i, d) ∉ hopeless.runs then
      match findClose b place.inSpoiler (i + d) e (byteAt b i) d with
      | none => .openEmphasis d
      | some j => .emphasis construct d j
    else .literal d

def spoilerMove (place : Place) (e i : Nat) (hopeless : Hopeless) : Move :=
  if atSpoilerOpen b i e ∧ place.inSpoiler = false ∧ hopeless.spoiler = false then
    match spoilerClose b i e with
    | none => .openSpoiler
    | some j => if allSpace b (i + 2) j then .emptySpoiler j else .spoiler j
  else emphasisMove b place e i hopeless

/-- The labelled link at `i` that the walk takes. -/
def linkAt (place : Place) (i e : Nat) : Option (Nat × Nat) :=
  (labelledAt b i e).filter fun link => !spoilerLeaves b place.inSpoiler (i + 1) link.2 e

/-- The order of `scan_inline`'s tests. -/
def moveAt (place : Place) (e i : Nat) (hopeless : Hopeless) : Move :=
  if escapeAt b i e then .escape
  else if place.inCell ∧ brLen b i e ≠ 0 then .lineBreak (brLen b i e)
  else if timeLen b e i ≠ 0 then .time (timeLen b e i)
  else if urlLen b i e ≠ 0 then .link (urlLen b i e)
  else
    match linkAt b place i e with
    | some (len, close) => .labelled len close
    | none =>
      if isAt b i '\x60' then
        if codeSpanLen b i e ≠ 0 then .code (codeSpanLen b i e) else .backticks (afterBackticks b i e)
      else spoilerMove b place e i hopeless

def Move.next (i : Nat) : Move → Nat
  | .escape => i + 2
  | .lineBreak len | .time len | .link len | .labelled len _ | .code len | .literal len => i + len
  | .backticks stop => stop
  | .spoiler close | .emptySpoiler close => close + 2
  | .openSpoiler => i + 1
  | .emphasis _ d close => close + d
  | .openEmphasis d => i + d

/-- A construct between two delimiters, with what was found in it. -/
def bracketed (construct : Construct) (i d j d' : Nat) (inner : List Span) : List Span :=
  emit i d construct.delim ++ (emit (i + d) (j - (i + d)) construct.style ++ (inner ++ emit j d' construct.delim))

/-- What is emitted, given what `scan_inline` finds inside. -/
def Move.emits (place : Place) (inner : Place → Nat → Nat → List Span) (i : Nat) : Move → List Span
  | .escape => emit i 1 ⟨none, true⟩
  | .lineBreak len => emit i len Construct.lineBreak.style
  | .time len => emit i len Construct.time.style
  | .link len => emit i len Construct.link.style
  | .labelled len close => bracketed .labelled i 1 close (i + len - close) (inner place (i + 1) close)
  | .code len => bracketed .code i 1 (i + len - 1) 1 []
  | .spoiler close =>
    bracketed .spoiler i 2 close 2 (inner { place with inSpoiler := true } (i + 2) close)
  | .emphasis construct d close => bracketed construct i d close d (inner place (i + d) close)
  | .backticks _ | .emptySpoiler _ | .openSpoiler | .openEmphasis _ | .literal _ => []

def Move.remember (i : Nat) (hopeless : Hopeless) : Move → Hopeless
  | .openSpoiler => { hopeless with spoiler := true }
  | .openEmphasis d => { hopeless with runs := (byteAt b i, d) :: hopeless.runs }
  | _ => hopeless

/-- One turn of `scan_inline`. -/
def inlineTurn (place : Place) (inner : Place → Nat → Nat → List Span) (e i : Nat)
    (state : Hopeless × List Span) : Turn (Hopeless × List Span) (List Span) :=
  let move := moveAt b place e i state.1
  .on (move.next i) (move.remember b i state.1, state.2 ++ move.emits place inner i)

/-- `scan_inline`, with as many levels of nesting as are left. -/
def scanInline (b : Text) : Nat → Place → Nat → Nat → List Span
  | 0, _, _, _ => []
  | level + 1, place, s, e =>
    Cursor.run (inlineTurn b place (scanInline b level) e) (fun _ state => state.2) e s (⟨[], false⟩, [])

/-- The nesting `scan_inline` takes. -/
def levels : Nat := 7

end OpenChime.Shared.RichText
