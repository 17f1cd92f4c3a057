import Mathlib.Algebra.Group.Int.Defs
import Mathlib.Data.List.TakeWhile

/-! Texts as the C sources hold them: bytes up to the terminating zero. -/

set_option autoImplicit false

namespace OpenChime.Shared

abbrev Text := List UInt8

instance : LawfulBEq Text := inferInstance

def ascii (c : Char) : UInt8 := UInt8.ofNat c.toNat

def text (s : String) : Text := s.toList.map ascii

def isLower (c : UInt8) : Bool := ascii 'a' ≤ c ∧ c ≤ ascii 'z'
def isUpper (c : UInt8) : Bool := ascii 'A' ≤ c ∧ c ≤ ascii 'Z'
def isDigit (c : UInt8) : Bool := ascii '0' ≤ c ∧ c ≤ ascii '9'

/-- `lower`, and `tolower` of the C locale. -/
def lower (c : UInt8) : UInt8 :=
  if isUpper c then c + 32 else c

/-- What `snprintf` leaves of a text in a field of `size` bytes. -/
def fitted (size : Nat) (s : Text) : Text := s.take (size - 1)

/-- The text a buffer holds: what stands before its first zero. -/
def cstr (buffer : List UInt8) : Text := buffer.takeWhile (· != 0)

theorem cstr_eq_self {s : Text} (plain : 0 ∉ s) : cstr s = s := by
  unfold cstr
  rw [List.takeWhile_eq_self_iff]
  intro c mem
  simp only [bne_iff_ne, ne_eq]
  rintro rfl
  exact plain mem

/-- Do the bytes begin with `needle`, upper or lower case? -/
def startsCi (needle bytes : List UInt8) : Bool := needle.map lower == (bytes.take needle.length).map lower

/-- `ci_find` from the start: where `needle` first stands. -/
def ciFind (needle : List UInt8) : List UInt8 → Option Nat
  | [] => none
  | c :: rest =>
    if startsCi needle (c :: rest) then some 0 else (ciFind needle rest).map (· + 1)

def decimal (digits : List UInt8) : Nat := digits.foldl (fun v c => v * 10 + (c.toNat - 48)) 0

def isSpace (c : UInt8) : Bool := c == 32 || (9 ≤ c && c ≤ 13)

/-- `atoi`: what `strtol` reads, cut to an `int`. -/
def atoi (s : Text) : Int :=
  let s := s.dropWhile isSpace
  let signed : Bool × Text := match s with
    | 45 :: rest => (true, rest)
    | 43 :: rest => (false, rest)
    | rest => (false, rest)
  let v : Int := decimal (signed.2.takeWhile isDigit)
  let long := if signed.1 then max (-v) (-2 ^ 63) else min v (2 ^ 63 - 1)
  (long + 2 ^ 31) % 2 ^ 32 - 2 ^ 31

end OpenChime.Shared
