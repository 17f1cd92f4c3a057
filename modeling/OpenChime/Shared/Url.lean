import Mathlib.Data.Prod.Basic
import OpenChime.Lib.Cursor
import OpenChime.Shared.Text

/-! Where an address starts and ends in a message (`shared/url.c`). Every position is an offset into
the body, every end is exclusive, and a length of zero says that nothing starts there. -/

set_option autoImplicit false

namespace OpenChime.Shared

def byteAt (b : Text) (i : Nat) : UInt8 := b.getD i 0

/-- The byte at `i` is `c`. -/
def isAt (b : Text) (i : Nat) (c : Char) : Bool := byteAt b i == ascii c

namespace Url

def space (ch : UInt8) : Bool := ch == ascii ' ' || ch == ascii '\t' || ch == ascii '\n' || ch == ascii '\r'

def delim (ch : UInt8) : Bool := ch == ascii '*' || ch == ascii '_' || ch == ascii '~' || ch == ascii '\x60'

variable (b : Text)

/-- The start of the run of delimiters that ends at `i`. -/
def beforeDelims (i : Nat) : Nat := Cursor.back (fun p => delim (byteAt b p)) 0 i

def opening (ch : UInt8) : Bool :=
  space ch || ch == ascii '(' || ch == ascii '[' || ch == ascii '\x7b' || ch == ascii '<'

/-- A spoiler's opening stands just before `i`. -/
def afterSpoilerOpen (i : Nat) : Bool := decide (2 ≤ i) && isAt b (i - 1) '!' && isAt b (i - 2) '>'

def boundaryOk (i : Nat) : Bool :=
  let i := beforeDelims b i
  i == 0 || opening (byteAt b (i - 1)) || afterSpoilerOpen b i

/-- The letters at `i` are those of `word`, upper or lower case. -/
def wordAt (b : Text) (stop : Nat) : Text → Nat → Bool
  | [], _ => true
  | ch :: word, i => decide (i < stop) && lower (byteAt b i) == ch && wordAt b stop word (i + 1)

def schemeLen (stop i : Nat) : Nat :=
  if wordAt b stop (text "https://") i then 8 else if wordAt b stop (text "http://") i then 7 else 0

/-- `u_stop` -/
def stops (ch : UInt8) : Bool :=
  decide (ch ≤ 0x20) || ch == 0x7f || ch == ascii '<' || ch == ascii '>' || ch == ascii '"' || ch == ascii '\x60'

/-- `u_trim` -/
def trims (ch : UInt8) : Bool :=
  ch == ascii '.' || ch == ascii ',' || ch == ascii ';' || ch == ascii ':' || ch == ascii '!' ||
    ch == ascii '?' || ch == ascii '\'' || ch == ascii '*' || ch == ascii '~'

def opener (ch : UInt8) : Option UInt8 :=
  if ch == ascii ')' then some (ascii '(')
  else if ch == ascii ']' then some (ascii '[')
  else if ch == ascii '\x7d' then some (ascii '\x7b')
  else none

/-- How often `ch` stands in the `n` bytes at `i`. -/
def countAt (i n : Nat) (ch : UInt8) : Nat := (List.range n).countP fun k => byteAt b (i + k) == ch

/-- The last of the `n` bytes at `i` is a bracket that these bytes do not open. -/
def unbalanced (i n : Nat) (last : UInt8) : Bool :=
  match opener last with
  | none => false
  | some op => decide (countAt b i n op < countAt b i n last)

/-- The end of an address taken back over what belongs to the sentence. -/
def trimmed (b : Text) (i scheme : Nat) : Nat → Nat
  | 0 => 0
  | n + 1 =>
    if n + 1 ≤ scheme then 0
    else if trims (byteAt b (i + n)) then trimmed b i scheme n
    else if unbalanced b i (n + 1) (byteAt b (i + n)) then trimmed b i scheme n
    else n + 1

def urlLen (stop i : Nat) : Nat :=
  let s := schemeLen b stop i
  if s = 0 ∨ boundaryOk b i = false then 0
  else trimmed b i s (Cursor.skip (fun p => !stops (byteAt b p)) stop (i + s) - i)

/-- The length of an inline code span at `i`, where one may open. -/
def codeLen (opens : Bool) (b : Text) (stop i : Nat) : Nat :=
  if isAt b i '\x60' = false then 0
  else if i + 1 < stop ∧ isAt b (i + 1) '\x60' then 0
  else if opens = false then 0
  else if stop ≤ i + 1 ∨ space (byteAt b (i + 1)) then 0
  else
    let j := Cursor.skip (fun p => !(isAt b p '\x60' && !space (byteAt b (p - 1)))) stop (i + 2)
    if j < stop then j - i + 1 else 0

/-- Three backticks stand at `i`. -/
def fenceAt (i : Nat) : Bool := isAt b i '\x60' && isAt b (i + 1) '\x60' && isAt b (i + 2) '\x60'

/-- Where the fence is closed that opens at `i`. -/
def fenceClose (i : Nat) : Option Nat :=
  let j := Cursor.skip (fun p => !fenceAt b p) (b.length - 2) (i + 3)
  if j + 3 ≤ b.length then some j else none

/-! A value in a query string or a form body -/

section Query

open List

def hexv (c : UInt8) : Option Nat :=
  if isDigit c then some (c.toNat - 48)
  else if 97 ≤ c ∧ c ≤ 102 then some (c.toNat - 97 + 10)
  else if 65 ≤ c ∧ c ≤ 70 then some (c.toNat - 65 + 10)
  else none

/-- The characters a value stands for, up to a bad escape. -/
def queryChars : Text → List (Option UInt8)
  | [] => []
  | 37 :: hi :: lo :: rest => match hexv hi, hexv lo with
    | some hi, some lo => some (UInt8.ofNat (hi * 16 + lo)) :: queryChars rest
    | _, _ => [none]
  | 37 :: _ => [none]
  | c :: rest => some (if c = 43 then 32 else c) :: queryChars rest

/-- What is returned and what is in `out` then: after a bad escape, what was written so far. -/
def copyValue (cap : Nat) : List (Option UInt8) → Text → Int × Text
  | [], out => (1, out)
  | none :: _, out => (-1, out)
  | some c :: rest, out => if c = 0 ∨ cap ≤ out.length + 1 then (-1, []) else copyValue cap rest (out ++ [c])

/-- The value of the first pair with the key. -/
def queryValue (query key : Text) : Option Text := (query.splitOn 38).findSome? fun pair =>
  if 61 ∈ pair ∧ pair.takeWhile (· != 61) = key then some (pair.dropWhile (· != 61)).tail else none

/-- `oc_query_get` -/
def queryGet (query key : Text) (cap : Nat) : Int × Text :=
  if cap = 0 then (-1, [])
  else ((queryValue query key).map fun value => copyValue cap (queryChars value) []).getD (0, [])

/-- The first pair's value begins with these characters, which fit, and `rest` comes after them. -/
def Begins (query key : Text) (cap : Nat) (v : Text) (rest : List (Option UInt8)) : Prop :=
  0 ∉ v ∧ v.length < cap ∧ ∃ value, queryValue query key = some value ∧ queryChars value = v.map some ++ rest

variable {cap : Nat} {chars rest : List (Option UInt8)}

theorem copyValue_map {v out : Text} (nonzero : 0 ∉ v) (room : out.length + v.length < cap) :
    copyValue cap (v.map some ++ rest) out = copyValue cap rest (out ++ v) := by
  induction v generalizing out with
  | nil => simp
  | cons c v ih =>
    rw [mem_cons, not_or] at nonzero
    rw [length_cons] at room
    rw [map_cons, cons_append, copyValue, if_neg (by rintro (rfl | full) <;> [exact nonzero.1 rfl; omega]),
      ih nonzero.2 (by simp; omega), append_assoc, singleton_append]

theorem of_copyValue {rc : Int} {out w : Text} (room : out.length < cap) (copied : copyValue cap chars out = (rc, w))
    (kept : rc = 1 ∨ w ≠ []) : ∃ v, w = out ++ v ∧ 0 ∉ v ∧ out.length + v.length < cap ∧
      (rc = 1 ∧ chars = v.map some ∨ rc = -1 ∧ ∃ rest, chars = v.map some ++ none :: rest) := by
  induction chars generalizing out with
  | nil =>
    cases copied
    exact ⟨[], by simp [room]⟩
  | cons char chars ih =>
    cases char with
    | none =>
      cases copied
      exact ⟨[], by simp [room]⟩
    | some c =>
      rw [copyValue] at copied
      split at copied
      · cases copied
        simp at kept
      next fine =>
      rw [not_or] at fine
      obtain ⟨v, rfl, nonzero, short, came⟩ := ih (by simp; omega) copied
      refine ⟨c :: v, by simp, by simp [nonzero, Ne.symm fine.1], by simp at short ⊢; omega, ?_⟩
      simpa using came

/-- All or nothing, at every capacity but 0, unless there are characters before the first bad escape. -/
theorem queryGet_allOrNothing_iff (query key : Text) (cap : Nat) :
    ((∀ v, queryGet query key (cap + 1) = (1, v) ↔ Begins query key (cap + 1) v []) ∧
      ((queryGet query key (cap + 1)).1 ≠ 1 → (queryGet query key (cap + 1)).2 = [])) ↔
    ∀ v rest, Begins query key (cap + 1) v (none :: rest) → v = [] := by
  unfold queryGet Begins
  cases queryValue query key with
  | none => simp
  | some value =>
    simp only [Option.map_some, Option.getD_some]
    constructor
    · rintro ⟨-, empty⟩ v rest ⟨nonzero, short, _, ⟨⟩, begins⟩
      rw [begins, copyValue_map nonzero (by simpa using short)] at empty
      exact empty (by simp [copyValue])
    intro early
    refine ⟨fun v => ⟨fun copied => ?_, ?_⟩, fun failed => ?_⟩
    · obtain ⟨v, rfl, nonzero, short, came⟩ := of_copyValue (Nat.succ_pos cap) copied (.inl rfl)
      simpa [nonzero] using ⟨by simpa using short, by simpa using came⟩
    · rintro ⟨nonzero, short, _, ⟨⟩, begins⟩
      rw [begins, copyValue_map nonzero (by simpa using short)]
      rfl
    · by_contra left
      obtain ⟨v, isOut, nonzero, short, came⟩ := of_copyValue (Nat.succ_pos cap) Prod.mk.eta.symm (.inr left)
      rcases came with ⟨one, -⟩ | ⟨-, rest, begins⟩
      · exact failed one
      · exact left (isOut.trans (early v rest ⟨nonzero, by simpa using short, value, rfl, begins⟩))

theorem bad_escape_leaves_a_value : queryGet (text "k=ab%zz") (text "k") 10 = (-1, text "ab") := by decide +kernel

end Query

end Url

end OpenChime.Shared
