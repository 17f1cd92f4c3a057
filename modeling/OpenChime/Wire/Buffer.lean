import OpenChime.Lib.BigEndian

/-! The wire buffers of `shared/protocol.c`. A write that does not fit sets the
sticky `overflow` and writes nothing more; a read past the end sets the sticky
`underflow` and yields zeros. Both are checked once, when the frame ends. -/

set_option autoImplicit false

namespace OpenChime.Wire

/-- The failures of `oc_result`; `OC_OK` is success of the enclosing `Except`. -/
inductive OcError where
  | overflow
  | malformed
  | tooLarge
  | bodyTooLarge
  deriving DecidableEq, Repr

/-- `oc_slice`: a borrowed run of bytes, by its content. -/
abbrev Slice := List UInt8

/-- A `uint8_t[size]` field. -/
structure Raw (size : Nat) where
  bytes : List UInt8
  sized : bytes.length = size
  deriving DecidableEq

def Raw.zero (size : Nat) : Raw size := ⟨List.replicate size 0, List.length_replicate⟩

/-- `oc_wbuf`. The bytes are `data[0..len)`. -/
structure WBuf where
  data : List UInt8
  cap : Nat
  overflow : Bool
  fits : data.length ≤ cap

/-- `oc_rbuf`. The bytes are `data[pos..len)`, so `pos == len` is emptiness. -/
structure RBuf where
  rest : List UInt8
  underflow : Bool
  deriving DecidableEq

namespace WBuf

def init (cap : Nat) : WBuf := ⟨[], cap, false, Nat.zero_le cap⟩

variable (w : WBuf)

def setOverflow : WBuf := { w with overflow := true }

/-- `w_reserve`, then the copy into what it reserved. -/
def reserve (bytes : List UInt8) : WBuf :=
  if room : w.overflow = false ∧ bytes.length ≤ w.cap - w.data.length then
    { w with
      data := w.data ++ bytes
      fits := by have := w.fits; have := room.2; simp only [List.length_append]; omega }
  else w.setOverflow

def wU8 (value : UInt8) : WBuf := w.reserve (BigEndian.encode 1 value.toNat)
def wU16 (value : UInt16) : WBuf := w.reserve (BigEndian.encode 2 value.toNat)
def wU32 (value : UInt32) : WBuf := w.reserve (BigEndian.encode 4 value.toNat)
def wU64 (value : UInt64) : WBuf := w.reserve (BigEndian.encode 8 value.toNat)

/-- `w_lenpref`. A length the prefix cannot carry overflows the frame. -/
def wLenpref (s : Slice) (width : Nat) : WBuf :=
  if width = 2 then
    if s.length > 0xFFFF then w.setOverflow else (w.wU16 (UInt16.ofNat s.length)).reserve s
  else
    if s.length > 0xFFFFFFFF then w.setOverflow else (w.wU32 (UInt32.ofNat s.length)).reserve s

def wStr (s : Slice) : WBuf := w.wLenpref s 2
def wLstr (s : Slice) : WBuf := w.wLenpref s 4
def wBytes (s : Slice) : WBuf := w.wLenpref s 4

/-- `oc_w_idem` and `w_raw`: a fixed-width run with no length prefix. -/
def wRaw {size : Nat} (raw : Raw size) : WBuf := w.reserve raw.bytes

@[simp] theorem setOverflow_overflow : w.setOverflow.overflow = true := rfl

theorem reserve_ok {w : WBuf} {bytes : List UInt8} (clean : (w.reserve bytes).overflow = false) :
    w.overflow = false ∧ (w.reserve bytes).data = w.data ++ bytes := by
  unfold reserve at clean ⊢
  split
  · next room => exact ⟨room.1, rfl⟩
  · next full => simp [full] at clean

theorem prefix_reserve (bytes : List UInt8) : w.data <+: (w.reserve bytes).data := by
  unfold reserve
  split
  · exact List.prefix_append _ _
  · exact List.prefix_refl _

end WBuf

/-- Decoders thread the read buffer and may return early with an error. -/
abbrev Get := StateT RBuf (Except OcError)

namespace Get

/-- `r_take`. On underflow the pointer is NULL and the caller's value is zeros. -/
def take (count : Nat) : Get (Option (List UInt8)) := fun p =>
  if p.underflow = false ∧ count ≤ p.rest.length then
    .ok (some (p.rest.take count), { p with rest := p.rest.drop count })
  else .ok (none, { p with underflow := true })

def nat (width : Nat) : Get Nat := do
  match ← take width with
  | some bytes => return BigEndian.decode bytes
  | none => return 0

def rU8 : Get UInt8 := UInt8.ofNat <$> nat 1
def rU16 : Get UInt16 := UInt16.ofNat <$> nat 2
def rU32 : Get UInt32 := UInt32.ofNat <$> nat 4
def rU64 : Get UInt64 := UInt64.ofNat <$> nat 8

def rLenpref (width : Nat) : Get Slice := do
  let count ← if width = 2 then UInt16.toNat <$> rU16 else UInt32.toNat <$> rU32
  return (← take count).getD []

def rStr : Get Slice := rLenpref 2
def rLstr : Get Slice := rLenpref 4
def rBytes : Get Slice := rLenpref 4

/-- `oc_r_idem` and `r_raw`. -/
def rRaw (size : Nat) : Get (Raw size) := do
  match ← take size with
  | some bytes => return if sized : bytes.length = size then ⟨bytes, sized⟩ else Raw.zero size
  | none => return Raw.zero size

/-- The test `!p->underflow && p->pos < p->len` that guards an optional tail. -/
def more : Get Bool := fun p => .ok (!p.underflow && !p.rest.isEmpty, p)

/-- `return OC_E_MALFORMED` when the condition holds. -/
def refuseIf (bad : Prop) [Decidable bad] : Get Unit :=
  if bad then throw .malformed else pure ()

/-- `p->underflow = 1` when the condition holds: the frame fails at its end. -/
def spoilIf (bad : Prop) [Decidable bad] : Get Unit :=
  if bad then modify ({ · with underflow := true }) else pure ()

/-- `for (i = 0; i < count && !p->underflow; i++)`, gathering what each turn read. -/
def loopOk {α : Type} (item : Get α) : Nat → Get (List α)
  | 0 => pure []
  | count + 1 => do
    if (← get).underflow then return []
    let head ← item
    let tail ← loopOk item count
    return head :: tail

/-- `for (i = 0; i < count; i++)`, gathering what each turn read. -/
def loop {α : Type} (item : Get α) : Nat → Get (List α)
  | 0 => pure []
  | count + 1 => do
    let head ← item
    let tail ← loop item count
    return head :: tail

/-- `return r_done(p)`: the payload was consumed exactly. -/
def done {α : Type} (value : α) : Get α := fun p =>
  if p.underflow = false ∧ p.rest = [] then .ok (value, p) else .error .malformed

/-- `return OC_OK` without `r_done`. -/
def accept {α : Type} (value : α) : Get α := pure value

end Get

end OpenChime.Wire
