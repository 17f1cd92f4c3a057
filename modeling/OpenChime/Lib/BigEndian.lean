import Mathlib.Data.List.Basic
import Mathlib.Data.List.Induction
import Mathlib.Tactic.Ring

/-! Big-endian numerals over bytes: the `width` low-order bytes of a number, most
significant first, and the number a run of bytes denotes. -/

set_option autoImplicit false

namespace BigEndian

open List

def encode : Nat → Nat → List UInt8
  | 0, _ => []
  | width + 1, value => UInt8.ofNat (value >>> (8 * width)) :: encode width value

def decode (bytes : List UInt8) : Nat := bytes.foldl (fun total byte => total * 256 + byte.toNat) 0

@[simp] theorem length_encode (width value : Nat) : (encode width value).length = width := by
  induction width with
  | zero => rfl
  | succ width ih => simp [encode, ih]

private theorem foldl_encode (width value total : Nat) :
    (encode width value).foldl (fun total byte => total * 256 + byte.toNat) total =
      total * 256 ^ width + value % 256 ^ width := by
  induction width generalizing total with
  | zero => simp [encode, Nat.mod_one]
  | succ width ih =>
    have head : (UInt8.ofNat (value >>> (8 * width))).toNat = value / 256 ^ width % 256 := by
      rw [UInt8.toNat_ofNat', Nat.shiftRight_eq_div_pow, pow_mul]
      rfl
    simp only [encode, foldl_cons, ih, head]
    rw [Nat.pow_succ, Nat.mod_mul]
    ring

theorem decode_encode (width value : Nat) : decode (encode width value) = value % 256 ^ width := by
  simpa [decode] using foldl_encode width value 0

theorem decode_encode_of_lt {width value : Nat} (fits : value < 256 ^ width) : decode (encode width value) = value := by
  rw [decode_encode, Nat.mod_eq_of_lt fits]

theorem decode_append_singleton (bytes : List UInt8) (last : UInt8) :
    decode (bytes ++ [last]) = decode bytes * 256 + last.toNat := by
  simp [decode]

theorem decode_lt (bytes : List UInt8) : decode bytes < 256 ^ bytes.length := by
  induction bytes using reverseRecOn with
  | nil => simp [decode]
  | append_singleton bytes last ih =>
    have bound := last.toNat_lt
    rw [decode_append_singleton, length_append, length_singleton]
    omega

theorem encode_succ_last (width value : Nat) :
    encode (width + 1) value = encode width (value / 256) ++ [UInt8.ofNat value] := by
  induction width with
  | zero => simp [encode]
  | succ width ih =>
    rw [encode, ih, encode]
    congr 2
    rw [Nat.shiftRight_eq_div_pow, Nat.shiftRight_eq_div_pow, Nat.div_div_eq_div_mul,
      Nat.mul_add, Nat.pow_add, Nat.mul_comm]

theorem encode_decode (bytes : List UInt8) : encode bytes.length (decode bytes) = bytes := by
  induction bytes using reverseRecOn with
  | nil => rfl
  | append_singleton bytes last ih =>
    have bound := last.toNat_lt
    have quotient : (decode bytes * 256 + last.toNat) / 256 = decode bytes := by omega
    have remainder : UInt8.ofNat (decode bytes * 256 + last.toNat) = last := by
      apply UInt8.toNat_inj.mp
      rw [UInt8.toNat_ofNat']
      omega
    rw [length_append, length_singleton, decode_append_singleton, encode_succ_last, quotient, remainder, ih]

end BigEndian
