import OpenChime.Wire.Buffer

/-! Frames (PROTOCOL.md §2): `length(4) version(2) msg_type(2) payload`. An
encoder is the sequence of writes it makes between `oc_frame_begin` and
`oc_frame_end`, or a refusal before the first of them. -/

set_option autoImplicit false

namespace OpenChime.Wire

open List BigEndian

def handshakeVersion : UInt16 := 1
def headerSize : Nat := 8
def lengthMin : Nat := 4
def maxFrameSize : Nat := 66560
def maxBodySize : Nat := 65536
def idemSize : Nat := 16

/-- One `oc_w_*` call. -/
inductive Field where
  | u8 (value : UInt8)
  | u16 (value : UInt16)
  | u32 (value : UInt32)
  | u64 (value : UInt64)
  | str (s : Slice)
  | lstr (s : Slice)
  | bytes (s : Slice)
  | raw {size : Nat} (bytes : Raw size)

namespace Field

def write (w : WBuf) : Field → WBuf
  | u8 value => w.wU8 value
  | u16 value => w.wU16 value
  | u32 value => w.wU32 value
  | u64 value => w.wU64 value
  | str s => w.wStr s
  | lstr s => w.wLstr s
  | bytes s => w.wBytes s
  | raw run => w.wRaw run

def wire : Field → List UInt8
  | u8 value => encode 1 value.toNat
  | u16 value => encode 2 value.toNat
  | u32 value => encode 4 value.toNat
  | u64 value => encode 8 value.toNat
  | str s => encode 2 s.length ++ s
  | lstr s => encode 4 s.length ++ s
  | bytes s => encode 4 s.length ++ s
  | raw run => run.bytes

def Fits : Field → Prop
  | str s => s.length ≤ 0xFFFF
  | lstr s => s.length ≤ 0xFFFFFFFF
  | bytes s => s.length ≤ 0xFFFFFFFF
  | _ => True

@[simp] theorem fits_u8 (value : UInt8) : (u8 value).Fits := trivial
@[simp] theorem fits_u16 (value : UInt16) : (u16 value).Fits := trivial
@[simp] theorem fits_u32 (value : UInt32) : (u32 value).Fits := trivial
@[simp] theorem fits_u64 (value : UInt64) : (u64 value).Fits := trivial
@[simp] theorem fits_raw {size : Nat} (run : Raw size) : (raw run).Fits := trivial
@[simp] theorem fits_str (s : Slice) : (str s).Fits ↔ s.length ≤ 0xFFFF := Iff.rfl
@[simp] theorem fits_lstr (s : Slice) : (lstr s).Fits ↔ s.length ≤ 0xFFFFFFFF := Iff.rfl
@[simp] theorem fits_bytes (s : Slice) : (bytes s).Fits ↔ s.length ≤ 0xFFFFFFFF := Iff.rfl

private theorem reserve_pair_ok {w : WBuf} {front back : List UInt8}
    (clean : ((w.reserve front).reserve back).overflow = false) :
    w.overflow = false ∧ ((w.reserve front).reserve back).data = w.data ++ (front ++ back) := by
  obtain ⟨middle, backData⟩ := WBuf.reserve_ok clean
  obtain ⟨start, frontData⟩ := WBuf.reserve_ok middle
  exact ⟨start, by rw [backData, frontData, append_assoc]⟩

private theorem lenpref_ok {w : WBuf} {s : Slice} {width : Nat} (clean : (w.wLenpref s width).overflow = false) :
    w.overflow = false ∧ (if width = 2 then s.length ≤ 0xFFFF else s.length ≤ 0xFFFFFFFF) ∧
      (w.wLenpref s width).data = w.data ++ (encode (if width = 2 then 2 else 4) s.length ++ s) := by
  unfold WBuf.wLenpref at clean ⊢
  split
  · next narrow =>
    simp only [narrow, ↓reduceIte] at clean
    split
    · next long => simp [long] at clean
    next short =>
    simp only [short, ↓reduceIte] at clean
    have small : (UInt16.ofNat s.length).toNat = s.length := by
      rw [UInt16.toNat_ofNat']
      omega
    obtain ⟨ready, written⟩ := reserve_pair_ok clean
    exact ⟨ready, not_lt.mp short, written.trans (by rw [small])⟩
  · next wide =>
    simp only [wide, ↓reduceIte] at clean
    split
    · next long => simp [long] at clean
    next short =>
    simp only [short, ↓reduceIte] at clean
    have small : (UInt32.ofNat s.length).toNat = s.length := by
      rw [UInt32.toNat_ofNat']
      omega
    obtain ⟨ready, written⟩ := reserve_pair_ok clean
    exact ⟨ready, not_lt.mp short, written.trans (by rw [small])⟩

theorem write_ok {w : WBuf} {field : Field} (clean : (field.write w).overflow = false) :
    w.overflow = false ∧ field.Fits ∧ (field.write w).data = w.data ++ field.wire := by
  cases field with
  | u8 | u16 | u32 | u64 | raw =>
    obtain ⟨ready, written⟩ := WBuf.reserve_ok clean
    exact ⟨ready, trivial, written⟩
  | str | lstr | bytes => exact lenpref_ok clean

private theorem prefix_lenpref (w : WBuf) (s : Slice) (width : Nat) : w.data <+: (w.wLenpref s width).data := by
  unfold WBuf.wLenpref
  split <;> split
  · exact prefix_refl _
  · exact (WBuf.prefix_reserve _ _).trans (WBuf.prefix_reserve _ _)
  · exact prefix_refl _
  · exact (WBuf.prefix_reserve _ _).trans (WBuf.prefix_reserve _ _)

theorem prefix_write (w : WBuf) (field : Field) : w.data <+: (field.write w).data := by
  cases field with
  | u8 | u16 | u32 | u64 | raw => exact WBuf.prefix_reserve _ _
  | str | lstr | bytes => exact prefix_lenpref _ _ _

end Field

def AllFit (fields : List Field) : Prop := ∀ field ∈ fields, field.Fits

@[simp] theorem allFit_nil : AllFit [] := forall_mem_nil _

variable {fields : List Field} {w after : WBuf} {version msgType : UInt16}

@[simp] theorem allFit_cons {field : Field} : AllFit (field :: fields) ↔ field.Fits ∧ AllFit fields := forall_mem_cons

@[simp] theorem allFit_append {front back : List Field} : AllFit (front ++ back) ↔ AllFit front ∧ AllFit back :=
  forall_mem_append

def writeAll (w : WBuf) (fields : List Field) : WBuf := fields.foldl Field.write w

def payload (fields : List Field) : List UInt8 := fields.flatMap Field.wire

@[simp] theorem payload_nil : payload [] = [] := rfl

@[simp] theorem payload_cons (field : Field) (fields : List Field) :
    payload (field :: fields) = field.wire ++ payload fields := rfl

@[simp] theorem payload_append (front back : List Field) : payload (front ++ back) = payload front ++ payload back :=
  flatMap_append

theorem writeAll_ok (clean : (writeAll w fields).overflow = false) : w.overflow = false ∧ AllFit fields ∧
      (writeAll w fields).data = w.data ++ payload fields := by
  induction fields generalizing w with
  | nil => exact ⟨clean, allFit_nil, by simp [writeAll]⟩
  | cons field fields ih =>
    obtain ⟨middle, tailFits, tailData⟩ := ih clean
    obtain ⟨ready, fits, headData⟩ := Field.write_ok middle
    refine ⟨ready, allFit_cons.mpr ⟨fits, tailFits⟩, ?_⟩
    change (writeAll (field.write w) fields).data = _
    rw [tailData, headData, payload_cons, append_assoc]

theorem prefix_writeAll (w : WBuf) (fields : List Field) : w.data <+: (writeAll w fields).data := by
  induction fields generalizing w with
  | nil => exact prefix_refl _
  | cons field fields ih => exact (Field.prefix_write w field).trans (ih _)

/-- `oc_frame_begin`: a placeholder length, then the version and the type. -/
def frameBegin (w : WBuf) (version msgType : UInt16) : WBuf := writeAll w [.u32 0, .u16 version, .u16 msgType]

/-- `w->len = length_off`. -/
def WBuf.rollback (w : WBuf) (off : Nat) : WBuf :=
  { w with data := w.data.take off, fits := (length_take_le' _ _).trans w.fits }

@[simp] theorem WBuf.rollback_data (w : WBuf) (off : Nat) : (w.rollback off).data = w.data.take off := rfl

def backpatch (data : List UInt8) (off length : Nat) : List UInt8 :=
  (((data.set off (UInt8.ofNat (length >>> 24))).set (off + 1) (UInt8.ofNat (length >>> 16))).set
    (off + 2) (UInt8.ofNat (length >>> 8))).set (off + 3) (UInt8.ofNat length)

@[simp] theorem length_backpatch (data : List UInt8) (off length : Nat) :
    (backpatch data off length).length = data.length := by
  simp [backpatch]

theorem backpatch_append (front back : List UInt8) (old length : Nat) :
    backpatch (front ++ (encode 4 old ++ back)) front.length length = front ++ (encode 4 length ++ back) := by
  simp [backpatch, encode]

/-- `oc_frame_end`: a failed frame is taken back out of the buffer, a finished one
gets its length field. -/
def frameEnd (w : WBuf) (off : Nat) : Except OcError Unit × WBuf :=
  if w.overflow then (.error .overflow, w.rollback off)
  else if w.data.length - off > maxFrameSize then (.error .tooLarge, w.rollback off)
  else (.ok (), { w with
    data := backpatch w.data off (w.data.length - off - 4)
    fits := (length_backpatch _ _ _).le.trans w.fits })

theorem frameEnd_ok {off : Nat} (ended : frameEnd w off = (.ok (), after)) :
    w.overflow = false ∧ w.data.length - off ≤ maxFrameSize ∧
      after.data = backpatch w.data off (w.data.length - off - 4) ∧ after.overflow = false := by
  unfold frameEnd at ended
  split at ended
  · cases ended
  next clean =>
  rw [Bool.not_eq_true] at clean
  split at ended
  · cases ended
  next small =>
  cases ended
  exact ⟨clean, not_lt.mp small, rfl, clean⟩

theorem frameEnd_error {off : Nat} {error : OcError}
    (ended : frameEnd w off = (.error error, after)) : after = w.rollback off := by
  unfold frameEnd at ended
  split at ended
  · cases ended
    rfl
  · split at ended <;> cases ended
    rfl

/-- A call of an `oc_encode_*` function: a refusal before anything is written, or a frame. -/
inductive Put where
  | refuse (error : OcError)
  | frame (version msgType : UInt16) (fields : List Field)

def Put.run (w : WBuf) : Put → Except OcError Unit × WBuf
  | refuse error => (.error error, w)
  | frame version msgType fields =>
    frameEnd (writeAll (frameBegin w version msgType) fields) w.data.length

def checkBody (body : Slice) (call : Put) : Put :=
  if body.length > maxBodySize then .refuse .bodyTooLarge else call

/-- `n = count > limit ? limit : count`. -/
def clamp {α : Type} [LT α] [DecidableLT α] (limit count : α) : α :=
  if count > limit then limit else count

@[simp] theorem clamp_u8 {limit count : UInt8} (small : count ≤ limit) : clamp limit count = count :=
  if_neg (UInt8.not_lt.mpr small)

@[simp] theorem clamp_u16 {limit count : UInt16} (small : count ≤ limit) : clamp limit count = count :=
  if_neg (UInt16.not_lt.mpr small)

/-- `value ? 1 : 0`. -/
def flag (value : UInt8) : UInt8 :=
  if value ≠ 0 then 1 else 0

@[simp] theorem flag_of_le_one {value : UInt8} (isFlag : value ≤ 1) : flag value = value := by
  unfold flag
  split
  · next set =>
    have bound := UInt8.le_iff_toNat_le.mp isFlag
    have positive : value.toNat ≠ 0 := fun zero => set (UInt8.toNat_inj.mp zero)
    exact UInt8.toNat_inj.mp (by simp at bound ⊢; omega)
  · next clear => exact (not_not.mp clear).symm

def frameBytes (version msgType : UInt16) (fields : List Field) : List UInt8 :=
  encode 4 (4 + (payload fields).length) ++ (encode 2 version.toNat ++ encode 2 msgType.toNat ++ payload fields)

@[simp] theorem length_frameBytes (version msgType : UInt16) (fields : List Field) :
    (frameBytes version msgType fields).length = 8 + (payload fields).length := by
  simp [frameBytes]
  omega

theorem begin_writeAll_ok (clean : (writeAll (frameBegin w version msgType) fields).overflow = false) :
    w.overflow = false ∧ AllFit fields ∧ (writeAll (frameBegin w version msgType) fields).data =
        w.data ++ (encode 4 0 ++ (encode 2 version.toNat ++ encode 2 msgType.toNat ++ payload fields)) := by
  obtain ⟨middle, fits, written⟩ := writeAll_ok clean
  obtain ⟨ready, _, begun⟩ := writeAll_ok middle
  refine ⟨ready, fits, ?_⟩
  rw [written, frameBegin, begun]
  simp [payload, Field.wire]

theorem frame_run_ok (ran : (Put.frame version msgType fields).run w = (.ok (), after)) :
    w.overflow = false ∧ AllFit fields ∧ (frameBytes version msgType fields).length ≤ maxFrameSize ∧
      after.data = w.data ++ frameBytes version msgType fields ∧ after.overflow = false := by
  obtain ⟨clean, small, patched, still⟩ := frameEnd_ok ran
  obtain ⟨ready, fits, written⟩ := begin_writeAll_ok clean
  have size : (writeAll (frameBegin w version msgType) fields).data.length - w.data.length =
      8 + (payload fields).length := by
    rw [written]
    simp only [length_append, length_encode]
    omega
  rw [size] at small patched
  refine ⟨ready, fits, by rwa [length_frameBytes], ?_, still⟩
  rw [patched, written, backpatch_append, frameBytes, show 8 + (payload fields).length - 4 =
    4 + (payload fields).length by omega]

theorem run_error {call : Put} {error : OcError} (ran : call.run w = (.error error, after)) :
    after.data = w.data := by
  cases call with
  | refuse reason =>
    obtain ⟨-, rfl⟩ := Prod.mk.inj ran
    rfl
  | frame version msgType fields =>
    have grown : w.data <+: (writeAll (frameBegin w version msgType) fields).data :=
      (prefix_writeAll _ _).trans (prefix_writeAll _ _)
    obtain ⟨more, split⟩ := grown
    rw [frameEnd_error ran, WBuf.rollback_data, ← split, take_left]

structure Header where
  length : UInt32
  version : UInt16
  msgType : UInt16
  deriving DecidableEq

def lengthField (data : List UInt8) : UInt32 := UInt32.ofNat (decode (data.take 4))

def parseFrame (data : List UInt8) : Except OcError (Header × RBuf) :=
  if data.length < headerSize then .error .malformed
  else
    let length := lengthField data
    if length.toNat < lengthMin then .error .malformed
    else if length.toNat + 4 > maxFrameSize then .error .tooLarge
    else if data.length < length.toNat + 4 then .error .malformed
    else .ok (⟨length, UInt16.ofNat (decode ((data.drop 4).take 2)), UInt16.ofNat (decode ((data.drop 6).take 2))⟩,
      ⟨(data.drop headerSize).take (length.toNat - 4), false⟩)

theorem lengthField_encode (length : Nat) (back : List UInt8) (fits : length < 2 ^ 32) :
    (lengthField (encode 4 length ++ back)).toNat = length := by
  rw [lengthField, take_left' (length_encode 4 length), decode_encode_of_lt fits, UInt32.toNat_ofNat_of_lt' fits]

theorem decode_encode_u16 (value : UInt16) : UInt16.ofNat (decode (encode 2 value.toNat)) = value := by
  rw [decode_encode_of_lt value.toNat_lt, UInt16.ofNat_toNat]

theorem parseFrame_frameBytes (small : (frameBytes version msgType fields).length ≤ maxFrameSize) (back : List UInt8) :
    parseFrame (frameBytes version msgType fields ++ back) =
      .ok (⟨UInt32.ofNat (4 + (payload fields).length), version, msgType⟩, ⟨payload fields, false⟩) := by
  rw [length_frameBytes] at small
  unfold maxFrameSize at small
  have field : (lengthField (frameBytes version msgType fields ++ back)).toNat = 4 + (payload fields).length := by
    exact lengthField_encode _ _ (by omega)
  have value : lengthField (frameBytes version msgType fields ++ back) =
      UInt32.ofNat (4 + (payload fields).length) := by
    rw [← field, UInt32.ofNat_toNat]
  have size : (frameBytes version msgType fields ++ back).length = 8 + (payload fields).length + back.length := by
    rw [length_append, length_frameBytes]
  unfold parseFrame
  simp only [field, size, headerSize, lengthMin, maxFrameSize]
  rw [if_neg (by omega), if_neg (by omega), if_neg (by omega), if_neg (by omega), value]
  have split : frameBytes version msgType fields ++ back =
      encode 4 (4 + (payload fields).length) ++ (encode 2 version.toNat ++
        (encode 2 msgType.toNat ++ (payload fields ++ back))) := by
    simp [frameBytes]
  have versionAt : ((frameBytes version msgType fields ++ back).drop 4).take 2 = encode 2 version.toNat := by
    rw [split, drop_left' (by simp), take_left' (by simp)]
  have typeAt : ((frameBytes version msgType fields ++ back).drop 6).take 2 = encode 2 msgType.toNat := by
    rw [split, ← append_assoc, drop_left' (by simp), take_left' (by simp)]
  have restAt : ((frameBytes version msgType fields ++ back).drop 8).take
      (4 + (payload fields).length - 4) = payload fields := by
    rw [split, ← append_assoc, ← append_assoc, drop_left' (by simp), take_left' (by omega)]
  rw [versionAt, typeAt, restAt, decode_encode_u16, decode_encode_u16]

end OpenChime.Wire
