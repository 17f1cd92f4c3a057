import OpenChime.Lib.BigEndian

/-! Boxes in a byte string: a size of four bytes, a tag of four bytes, and a payload that may hold
boxes again. A writer is what it does to the bytes so far; it opens a box with a size of zero and
puts the size in once the payload is there. -/

set_option autoImplicit false

namespace Boxes

open List BigEndian

/-- Four bytes that name a kind of box. -/
@[ext] structure Tag where
  bytes : List UInt8
  size : bytes.length = 4
  deriving DecidableEq

abbrev Put := List UInt8 → List UInt8

def Writes (put : Put) (bytes : List UInt8) : Prop := ∀ before, put before = before ++ bytes

def raw (bytes : List UInt8) : Put := fun before => before ++ bytes

def inOrder (puts : List Put) : Put := fun before => puts.foldl (fun bytes put => put bytes) before

def patch (bytes : List UInt8) (position value : Nat) : List UInt8 :=
  bytes.take position ++ (encode 4 value ++ bytes.drop (position + 4))

def boxed (tag : Tag) (body : Put) : Put := fun before =>
  let filled := body (before ++ (encode 4 0 ++ tag.bytes))
  patch filled before.length (filled.length - before.length)

def box (tag : Tag) (payload : List UInt8) : List UInt8 := encode 4 (8 + payload.length) ++ (tag.bytes ++ payload)

@[simp] theorem length_box (tag : Tag) (payload : List UInt8) : (box tag payload).length = 8 + payload.length := by
  rw [box, length_append, length_append, length_encode, tag.size]
  omega

theorem patch_append (before after : List UInt8) (old value : Nat) :
    patch (before ++ (encode 4 old ++ after)) before.length value = before ++ (encode 4 value ++ after) := by
  have size : (encode 4 old).length = 4 := length_encode 4 old
  rw [patch, take_left, ← drop_drop, drop_left, drop_left' size]

section Writes

variable {put : Put} {puts : List Put} {bytes rest : List UInt8}

@[simp] theorem raw_apply (bytes before : List UInt8) : raw bytes before = before ++ bytes := rfl

@[simp] theorem inOrder_nil (before : List UInt8) : inOrder [] before = before := rfl

@[simp] theorem inOrder_cons (before : List UInt8) : inOrder (put :: puts) before = inOrder puts (put before) := rfl

theorem Writes.nil (adds : Writes put bytes) : put [] = bytes := adds []

theorem writes_raw (bytes : List UInt8) : Writes (raw bytes) bytes := fun _ => rfl

theorem writes_none : Writes (inOrder []) [] := fun before => (append_nil before).symm

theorem writes_cons (first : Writes put bytes) (others : Writes (inOrder puts) rest) :
    Writes (inOrder (put :: puts)) (bytes ++ rest) := by
  intro before
  rw [inOrder_cons, first, others, append_assoc]

theorem writes_map {α : Type} {write : α → Put} {written : α → List UInt8}
    (each : ∀ value, Writes (write value) (written value)) (values : List α) :
    Writes (inOrder (values.map write)) (values.flatMap written) := by
  induction values with
  | nil => exact writes_none
  | cons value values ih => exact writes_cons (each value) ih

theorem writes_boxed (tag : Tag) (body : Writes put bytes) : Writes (boxed tag put) (box tag bytes) := by
  intro before
  have filled : put (before ++ (encode 4 0 ++ tag.bytes)) = before ++ (encode 4 0 ++ (tag.bytes ++ bytes)) := by
    rw [body]
    simp only [append_assoc]
  have size : (before ++ (encode 4 0 ++ (tag.bytes ++ bytes))).length - before.length = 8 + bytes.length := by
    simp only [length_append, length_encode, tag.size]
    omega
  rw [boxed, filled, size, patch_append, box]

end Writes

/-- A number of `width` bytes somewhere in a byte string. -/
def number (bytes : List UInt8) (position width : Nat) : Nat := decode ((bytes.drop position).take width)

theorem number_append (before after : List UInt8) (width value : Nat) :
    number (before ++ (encode width value ++ after)) before.length width = value % 256 ^ width := by
  rw [number, drop_left, take_left' (length_encode width value), decode_encode]

def row (values : List Nat) : List UInt8 := values.flatMap (encode 4)

@[simp] theorem length_row (values : List Nat) : (row values).length = 4 * values.length := by
  induction values with
  | nil => rfl
  | cons value values ih =>
    rw [row, flatMap_cons, length_append, length_encode, length_cons]
    rw [row] at ih
    omega

end Boxes
