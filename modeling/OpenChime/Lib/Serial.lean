import Mathlib.Algebra.Group.Nat.Defs

/-! Serial numbers of 32 bits: counted on from a base, compared by the sign of their
difference. Numbers less than half the ring apart compare as their counts from a base. -/

set_option autoImplicit false

namespace Serial

/-- How far `a` is ahead of `b`: their difference as a signed number. -/
def ahead (a b : BitVec 32) : Int := (a - b).toInt

/-- The number `n` places on from `base`. -/
def place (base : BitVec 32) (n : Nat) : BitVec 32 := base + BitVec.ofNat 32 n

/-- How many places a number is on from `base`. -/
def count (base number : BitVec 32) : Nat := (number - base).toNat

variable {base : BitVec 32} {m n : Nat}

@[simp] theorem place_count (base number : BitVec 32) : place base (count base number) = number := by
  rw [place, count, BitVec.ofNat_toNat, BitVec.setWidth_eq, BitVec.add_comm, BitVec.sub_add_cancel]

theorem count_place (small : n < 2 ^ 32) : count base (place base n) = n := by
  have cancel : base + BitVec.ofNat 32 n - base = BitVec.ofNat 32 n := by
    rw [BitVec.add_comm, BitVec.add_sub_cancel]
  rw [count, place, cancel, BitVec.toNat_ofNat, Nat.mod_eq_of_lt small]

theorem place_succ (base : BitVec 32) (n : Nat) : place base n + 1 = place base (n + 1) := by
  simp only [place]
  bv_omega

theorem place_inj (small : m < 2 ^ 32) (small' : n < 2 ^ 32) : place base m = place base n ↔ m = n := by
  constructor
  · intro same
    rw [← count_place small, same, count_place small']
  · intro same
    rw [same]

theorem ahead_place (near : m < n + 2 ^ 31) (near' : n < m + 2 ^ 31) :
    ahead (place base m) (place base n) = (m : Int) - n := by
  have cancel : place base m - place base n = BitVec.ofNat 32 m - BitVec.ofNat 32 n := by
    simp only [place]
    bv_omega
  rw [ahead, cancel, BitVec.toInt_sub, BitVec.toInt_ofNat', BitVec.toInt_ofNat', Int.sub_bmod_bmod, Int.bmod_sub_bmod,
    Int.bmod_eq_of_le] <;> omega

theorem eq_of_ring (within : m < n + 64) (within' : n < m + 64)
    (same : (place base m).toNat % 64 = (place base n).toNat % 64) : m = n := by
  simp only [place, BitVec.toNat_add, BitVec.toNat_ofNat] at same
  omega

end Serial
