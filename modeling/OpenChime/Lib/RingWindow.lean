import Mathlib.Data.Nat.Basic

/-! A ring of bits that stands for the numbers of a window: the bit of `n` is at `n % size`,
and the window holds the `size` numbers up to `top`. -/

set_option autoImplicit false

namespace RingWindow

variable {size top newTop n m : Nat} {ring newRing : Nat → Bool} {kept : Nat → Prop}

def Stands (size : Nat) (ring : Nat → Bool) (top : Nat) (kept : Nat → Prop) : Prop :=
  ∀ n ≤ top, top < n + size → (ring (n % size) = true ↔ kept n)

theorem eq_of_mod_eq (below : n ≤ top) (inside : top < n + size) (below' : m ≤ top)
    (inside' : top < m + size) (same : n % size = m % size) : n = m := by
  have less := Nat.sub_mod_eq_zero_of_mod_eq same
  have more := Nat.sub_mod_eq_zero_of_mod_eq same.symm
  rw [Nat.mod_eq_of_lt (by omega)] at less more
  omega

theorem Stands.mono {kept' : Nat → Prop} (stands : Stands size ring top kept)
    (same : ∀ n, kept n ↔ kept' n) : Stands size ring top kept' := by
  intro n below inside
  rw [stands n below inside, same]

theorem Stands.empty (clear : ∀ i, newRing i = false) (bound : ∀ n, kept n → n + size ≤ top) :
    Stands size newRing top kept := by
  intro n _ inside
  rw [clear]
  constructor
  · nofun
  · intro isKept
    exact absurd (bound n isKept) (not_le.mpr inside)

theorem Stands.mark (stands : Stands size ring top kept) (below : n ≤ top) (inside : top < n + size)
    (set : newRing (n % size) = true) (others : ∀ i, i ≠ n % size → newRing i = ring i) :
    Stands size newRing top fun m => m = n ∨ kept m := by
  intro m below' inside'
  by_cases same : m = n
  · subst same
    simp [set]
  have apart : m % size ≠ n % size := fun equal =>
    same (eq_of_mod_eq below' inside' below inside equal)
  rw [others _ apart, stands m below' inside']
  simp [same]

/-- Moving the window: the bits it moves to are cleared, the others stay. -/
theorem Stands.slide (stands : Stands size ring top kept) (bound : ∀ n, kept n → n ≤ top) (forward : top ≤ newTop)
    (near : newTop < top + size) (cleared : ∀ n, top < n → n ≤ newTop → newRing (n % size) = false)
    (others : ∀ i, (∀ n, top < n → n ≤ newTop → i ≠ n % size) → newRing i = ring i) :
    Stands size newRing newTop kept := by
  intro n below inside
  by_cases new : top < n
  · rw [cleared n new below]
    constructor
    · nofun
    · intro isKept
      exact absurd (bound n isKept) (not_le.mpr new)
  have old : n ≤ top := not_lt.mp new
  have apart : ∀ m, top < m → m ≤ newTop → n % size ≠ m % size := by
    intro m after before equal
    have same := eq_of_mod_eq below inside before (by omega) equal
    omega
  rw [others _ apart]
  exact stands n old (by omega)

end RingWindow
