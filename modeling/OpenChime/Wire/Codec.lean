import OpenChime.Wire.MsgType

/-! Reading back what an encoder wrote. A reader placed on the fields it is about to
read returns their values and leaves the read position behind them; the rules below
advance a decoder over the fields of its encoder one call at a time. -/

set_option autoImplicit false

namespace OpenChime.Wire

open Get List BigEndian

namespace Get

def on {α : Type} (g : Get α) (fields : List Field) (rest : List UInt8) :
    Except OcError (α × RBuf) := g ⟨payload fields ++ rest, false⟩

/-- The decoder takes exactly these fields and returns this value. -/
def Reads {α : Type} (g : Get α) (fields : List Field) (value : α) : Prop :=
  AllFit fields → ∀ rest, g.on fields rest = .ok (value, ⟨rest, false⟩)

def EachReads {α : Type} (item : Get α) (fieldsOf : α → List Field) (values : List α) : Prop :=
  ∀ value ∈ values, Reads item (fieldsOf value) value

@[simp] theorem eachReads_of_reads {α : Type} {item : Get α} {fieldsOf : α → List Field} {values : List α}
    (reads : ∀ value, Reads item (fieldsOf value) value) : EachReads item fieldsOf values := fun value _ => reads value

section Primitives

variable (rest : List UInt8)

private theorem take_append (front : List UInt8) {count : Nat} (size : front.length = count) :
    take count ⟨front ++ rest, false⟩ = .ok (some front, ⟨rest, false⟩) := by
  subst size
  simp [take]

private theorem nat_append {width value : Nat} (fits : value < 256 ^ width) :
    nat width ⟨encode width value ++ rest, false⟩ = .ok (value, ⟨rest, false⟩) := by
  change (take width ⟨_, false⟩ >>= _) = _
  rw [take_append rest _ (length_encode width value)]
  change Except.ok (decode (encode width value), _) = _
  rw [decode_encode_of_lt fits]

private theorem map_run {α β : Type} {g : Get α} {f : α → β} {p after : RBuf} {value : α}
    (ran : g p = .ok (value, after)) : (f <$> g) p = .ok (f value, after) := by
  change (g p >>= _) = _
  rw [ran]
  rfl

private theorem rU8_append (value : UInt8) : rU8 ⟨encode 1 value.toNat ++ rest, false⟩ = .ok
    (value, ⟨rest, false⟩) := by
  rw [rU8, map_run (nat_append rest value.toNat_lt), UInt8.ofNat_toNat]

private theorem rU16_append (value : UInt16) :
    rU16 ⟨encode 2 value.toNat ++ rest, false⟩ = .ok (value, ⟨rest, false⟩) := by
  rw [rU16, map_run (nat_append rest value.toNat_lt), UInt16.ofNat_toNat]

private theorem rU32_append (value : UInt32) :
    rU32 ⟨encode 4 value.toNat ++ rest, false⟩ = .ok (value, ⟨rest, false⟩) := by
  rw [rU32, map_run (nat_append rest value.toNat_lt), UInt32.ofNat_toNat]

private theorem rU64_append (value : UInt64) :
    rU64 ⟨encode 8 value.toNat ++ rest, false⟩ = .ok (value, ⟨rest, false⟩) := by
  rw [rU64, map_run (nat_append rest value.toNat_lt), UInt64.ofNat_toNat]

private theorem bind_run {α β : Type} {g : Get α} {k : α → Get β} {p after : RBuf} {value : α}
    (ran : g p = .ok (value, after)) : (g >>= k) p = k value after := by
  change (g p >>= _) = _
  rw [ran]
  rfl

private theorem rStr_append {s : Slice} (fits : s.length ≤ 0xFFFF) :
    rStr ⟨encode 2 s.length ++ s ++ rest, false⟩ = .ok (s, ⟨rest, false⟩) := by
  have size : (UInt16.ofNat s.length).toNat = s.length := by
    rw [UInt16.toNat_ofNat']
    omega
  have count := map_run (f := UInt16.toNat) (rU16_append (s ++ rest) (UInt16.ofNat s.length))
  rw [size, ← append_assoc] at count
  rw [rStr, rLenpref, if_pos rfl, bind_run count]
  exact bind_run (take_append rest s rfl)

private theorem rLenpref_append {s : Slice} (fits : s.length ≤ 0xFFFFFFFF) :
    rLenpref 4 ⟨encode 4 s.length ++ s ++ rest, false⟩ = .ok (s, ⟨rest, false⟩) := by
  have size : (UInt32.ofNat s.length).toNat = s.length := by
    rw [UInt32.toNat_ofNat']
    omega
  have count := map_run (f := UInt32.toNat) (rU32_append (s ++ rest) (UInt32.ofNat s.length))
  rw [size, ← append_assoc] at count
  rw [rLenpref, if_neg (by decide), bind_run count]
  exact bind_run (take_append rest s rfl)

private theorem rRaw_append {size : Nat} (run : Raw size) :
    rRaw size ⟨run.bytes ++ rest, false⟩ = .ok (run, ⟨rest, false⟩) := by
  rw [rRaw, bind_run (take_append rest run.bytes run.sized)]
  simp only [run.sized, ↓reduceDIte]
  rfl

end Primitives

section Rules

variable {α β : Type} (fields : List Field) (rest : List UInt8) {value : α} {g : Get α}

private theorem on_cons {k : α → Get β} {field : Field}
    (ran : ∀ rest, g ⟨field.wire ++ rest, false⟩ = .ok (value, ⟨rest, false⟩)) :
    (g >>= k).on (field :: fields) rest = (k value).on fields rest := by
  rw [on, payload_cons, append_assoc, bind_run (ran _), on]

@[simp] theorem on_rU8 (k : UInt8 → Get β) (value : UInt8) :
    (rU8 >>= k).on (.u8 value :: fields) rest = (k value).on fields rest :=
  on_cons fields rest fun rest => rU8_append rest value

@[simp] theorem on_rU16 (k : UInt16 → Get β) (value : UInt16) :
    (rU16 >>= k).on (.u16 value :: fields) rest = (k value).on fields rest :=
  on_cons fields rest fun rest => rU16_append rest value

@[simp] theorem on_rU32 (k : UInt32 → Get β) (value : UInt32) :
    (rU32 >>= k).on (.u32 value :: fields) rest = (k value).on fields rest :=
  on_cons fields rest fun rest => rU32_append rest value

@[simp] theorem on_rU64 (k : UInt64 → Get β) (value : UInt64) :
    (rU64 >>= k).on (.u64 value :: fields) rest = (k value).on fields rest :=
  on_cons fields rest fun rest => rU64_append rest value

@[simp] theorem on_rStr (k : Slice → Get β) {s : Slice} (fits : s.length ≤ 0xFFFF) :
    (rStr >>= k).on (.str s :: fields) rest = (k s).on fields rest :=
  on_cons fields rest fun rest => rStr_append rest fits

@[simp] theorem on_rLstr (k : Slice → Get β) {s : Slice} (fits : s.length ≤ 0xFFFFFFFF) :
    (rLstr >>= k).on (.lstr s :: fields) rest = (k s).on fields rest :=
  on_cons fields rest fun rest => rLenpref_append rest fits

@[simp] theorem on_rBytes (k : Slice → Get β) {s : Slice} (fits : s.length ≤ 0xFFFFFFFF) :
    (rBytes >>= k).on (.bytes s :: fields) rest = (k s).on fields rest :=
  on_cons fields rest fun rest => rLenpref_append rest fits

@[simp] theorem on_rRaw {size : Nat} (k : Raw size → Get β) (run : Raw size) :
    (rRaw size >>= k).on (.raw run :: fields) rest = (k run).on fields rest :=
  on_cons fields rest fun rest => rRaw_append rest run

@[simp] theorem on_pure (value : α) : (pure value : Get α).on [] rest = .ok (value, ⟨rest, false⟩) := rfl

@[simp] theorem on_done (value : α) : (done value).on [] [] = .ok (value, ⟨[], false⟩) := rfl

@[simp] theorem on_accept (value : α) : (accept value).on [] rest = .ok (value, ⟨rest, false⟩) := rfl

@[simp] theorem on_refuseIf {bad : Prop} [Decidable bad] (k : Unit → Get β) (fine : ¬bad) :
    (refuseIf bad >>= k).on fields rest = (k ()).on fields rest := by
  rw [refuseIf, if_neg fine]
  rfl

@[simp] theorem on_spoilIf {bad : Prop} [Decidable bad] (k : Unit → Get β) (fine : ¬bad) :
    (spoilIf bad >>= k).on fields rest = (k ()).on fields rest := by
  rw [spoilIf, if_neg fine]
  rfl

@[simp] theorem on_more_nil (k : Bool → Get β) : (more >>= k).on [] [] = (k false).on [] [] := rfl

@[simp] theorem on_more_u8 (k : Bool → Get β) (value : UInt8) :
    (more >>= k).on (.u8 value :: fields) rest = (k true).on (.u8 value :: fields) rest := rfl

@[simp] theorem on_more_u16 (k : Bool → Get β) (value : UInt16) :
    (more >>= k).on (.u16 value :: fields) rest = (k true).on (.u16 value :: fields) rest := rfl

@[simp] theorem on_more_str (k : Bool → Get β) (s : Slice) :
    (more >>= k).on (.str s :: fields) rest = (k true).on (.str s :: fields) rest := rfl

theorem Reads.on_append {front : List Field} (reads : Reads g front value) (fits : AllFit front) (k : α → Get β) :
    (g >>= k).on (front ++ fields) rest = (k value).on fields rest := by
  have ran := reads fits (payload fields ++ rest)
  rw [on] at ran
  rw [on, payload_append, append_assoc, bind_run ran, on]

theorem Reads.on_end {front : List Field} (reads : Reads g front value)
    (fits : AllFit front) (k : α → Get β) : (g >>= k).on front rest = (k value).on [] rest := by
  have ran := reads.on_append [] rest fits k
  rwa [append_nil] at ran

variable {item : Get α} {fieldsOf : α → List Field} {values : List α} {count : Nat}

theorem Reads.cons {head : α} {tail : List α} {tailGet : Get (List α)} (headReads : Reads item (fieldsOf head) head)
    (tailReads : Reads tailGet (tail.flatMap fieldsOf) tail) :
    Reads (item >>= fun head => tailGet >>= fun tail => pure (head :: tail))
      ((head :: tail).flatMap fieldsOf) (head :: tail) := by
  intro fits rest
  rw [flatMap_cons] at fits ⊢
  obtain ⟨headFits, tailFits⟩ := allFit_append.mp fits
  rw [headReads.on_append _ rest headFits, tailReads.on_end rest tailFits, on_pure]

theorem Reads.loop (reads : EachReads item fieldsOf values) :
    Reads (Get.loop item values.length) (values.flatMap fieldsOf) values := by
  induction values with
  | nil => exact fun _ rest => rfl
  | cons head tail ih =>
    obtain ⟨headReads, tailReads⟩ := forall_mem_cons.mp reads
    exact headReads.cons (ih tailReads)

theorem Reads.loopOk (reads : EachReads item fieldsOf values) :
    Reads (Get.loopOk item values.length) (values.flatMap fieldsOf) values := by
  induction values with
  | nil => exact fun _ rest => rfl
  | cons head tail ih =>
    obtain ⟨headReads, tailReads⟩ := forall_mem_cons.mp reads
    intro fits rest
    -- nothing has underflowed yet, so the turn is taken
    exact headReads.cons (ih tailReads) fits rest

@[simp] theorem reads_rU8 (value : UInt8) : Reads rU8 [.u8 value] value := fun _ rest => by
  rw [on, payload_cons, payload_nil, append_nil]
  exact rU8_append rest value

@[simp] theorem reads_rU64 (value : UInt64) : Reads rU64 [.u64 value] value := fun _ rest => by
  rw [on, payload_cons, payload_nil, append_nil]
  exact rU64_append rest value

@[simp] theorem reads_rStr (s : Slice) : Reads rStr [.str s] s := fun fits rest => by
  rw [on, payload_cons, payload_nil, append_nil]
  exact rStr_append rest (by simpa using fits)

variable (k : List α → Get β) (reads : EachReads item fieldsOf values) (fits : AllFit (values.flatMap fieldsOf))
  (counted : values.length = count)

include k reads fits counted

@[simp] theorem on_loop : (Get.loop item count >>= k).on (values.flatMap fieldsOf ++ fields) rest =
      (k values).on fields rest := by
  subst counted
  exact (Reads.loop reads).on_append fields rest fits k

@[simp] theorem on_loopOk : (Get.loopOk item count >>= k).on (values.flatMap fieldsOf ++ fields) rest =
      (k values).on fields rest := by
  subst counted
  exact (Reads.loopOk reads).on_append fields rest fits k

@[simp] theorem on_loop_end : (Get.loop item count >>= k).on (values.flatMap fieldsOf) rest = (k values).on []
    rest := by
  subst counted
  exact (Reads.loop reads).on_end rest fits k

@[simp] theorem on_loopOk_end :
    (Get.loopOk item count >>= k).on (values.flatMap fieldsOf) rest = (k values).on [] rest := by
  subst counted
  exact (Reads.loopOk reads).on_end rest fits k

end Rules

end Get

/-- The decoder returns the message from the payload of the frame the call writes. -/
def Put.ReadsBack {M : Type} (version msgType : UInt16) (decode : Get M) (m : M) : Put → Prop
  | refuse _ => True
  | frame v t fields => v = version ∧ t = msgType ∧ (AllFit fields → decode.on fields [] = .ok (m, ⟨[], false⟩))

/-- An encoder and its decoder. `Args` is what their callers pass besides the message:
the room in the arrays a decoder fills, or the type where one encoder serves several. -/
structure Codec where
  Msg : Type
  Args : Type
  msgType : Args → UInt16
  version : UInt16 → UInt16
  encode : Args → UInt16 → Msg → Put
  decode : Args → Get Msg
  Valid : Args → Msg → Prop

structure LawfulCodec extends Codec where
  readsBack : ∀ args v m, Valid args m → (encode args v m).ReadsBack (version v) (msgType args) (decode args) m

namespace LawfulCodec

variable {M : Type}

def handshake (type : MsgType) (encode : M → Put) (decode : Get M)
    (reads : ∀ m, (encode m).ReadsBack handshakeVersion type.code decode m := by simp +contextual) :
    LawfulCodec where
  Msg := M
  Args := Unit
  msgType _ := type.code
  version _ := handshakeVersion
  encode _ _ := encode
  decode _ := decode
  Valid _ _ := True
  readsBack _ _ m _ := reads m

def checked (type : MsgType) (Valid : M → Prop) (encode : UInt16 → M → Put) (decode : Get M)
    (reads : ∀ v m, Valid m → (encode v m).ReadsBack v type.code decode m) : LawfulCodec where
  Msg := M
  Args := Unit
  msgType _ := type.code
  version v := v
  encode _ := encode
  decode _ := decode
  Valid _ := Valid
  readsBack _ := reads

/-- Encoders and decoders are in the simp set, which settles the messages whose fields are all free. -/
def plain (type : MsgType) (encode : UInt16 → M → Put) (decode : Get M)
    (reads : ∀ v m, (encode v m).ReadsBack v type.code decode m := by simp +contextual) :
    LawfulCodec :=
  checked type (fun _ => True) encode decode fun v m _ => reads v m

def typed (Valid : M → Prop) (encode : UInt16 → UInt16 → M → Put) (decode : Get M)
    (reads : ∀ v type m, Valid m → (encode v type m).ReadsBack v type decode m) :
    LawfulCodec where
  Msg := M
  Args := UInt16
  msgType type := type
  version v := v
  encode type v := encode v type
  decode _ := decode
  Valid _ := Valid
  readsBack type v := reads v type

/-- The decoder fills arrays of the caller, with the room the caller says. -/
def capped {Cap : Type} (type : MsgType) (Valid : Cap → M → Prop)
    (encode : UInt16 → M → Put) (decode : Cap → Get M)
    (reads : ∀ cap v m, Valid cap m → (encode v m).ReadsBack v type.code (decode cap) m) :
    LawfulCodec where
  Msg := M
  Args := Cap
  msgType _ := type.code
  version v := v
  encode _ := encode
  decode := decode
  Valid := Valid
  readsBack := reads

end LawfulCodec

/-- An array and its count, within the room for them. -/
structure Counted {α : Type} (limit count : Nat) (entries : List α) : Prop where
  room : count ≤ limit
  counted : entries.length = count

namespace Counted

variable {α : Type} {entries : List α}

theorem whole {limit count : Nat} (held : Counted limit count entries) :
    entries.length = count ∧ entries.take count = entries ∧ entries.take limit = entries :=
  ⟨held.counted, take_of_length_le held.counted.le, take_of_length_le (held.counted.le.trans held.room)⟩

theorem u8 {limit count : UInt8} (held : Counted limit.toNat count.toNat entries) :
    count ≤ limit ∧ entries.length = count.toNat ∧ entries.take count.toNat = entries ∧
      entries.take limit.toNat = entries :=
  ⟨UInt8.le_iff_toNat_le.mpr held.room, held.whole⟩

theorem u16 {limit count : UInt16} (held : Counted limit.toNat count.toNat entries) :
    count ≤ limit ∧ entries.length = count.toNat ∧ entries.take count.toNat = entries ∧
      entries.take limit.toNat = entries :=
  ⟨UInt16.le_iff_toNat_le.mpr held.room, held.whole⟩

end Counted

section ReadsBack

variable {M : Type} {version msgType : UInt16} {decode : Get M} {m : M}

@[simp] theorem readsBack_frame {fields : List Field} :
    (Put.frame version msgType fields).ReadsBack version msgType decode m ↔
      (AllFit fields → decode.on fields [] = .ok (m, ⟨[], false⟩)) := by
  simp only [Put.ReadsBack, true_and]

@[simp] theorem readsBack_refuse {error : OcError} : (Put.refuse error).ReadsBack version msgType decode m := trivial

@[simp] theorem readsBack_checkBody {body : Slice} {call : Put} :
    (checkBody body call).ReadsBack version msgType decode m ↔
      (body.length ≤ maxBodySize → call.ReadsBack version msgType decode m) := by
  unfold checkBody
  split
  · next long => simp [not_le.mpr long]
  · next short => simp [not_lt.mp short]

@[simp] theorem readsBack_refuseIf {bad : Prop} [Decidable bad] {error : OcError} {call : Put} :
    (if bad then Put.refuse error else call).ReadsBack version msgType decode m ↔
      (¬bad → call.ReadsBack version msgType decode m) := by
  split
  · next held => simp [held]
  · next failed => simp [failed]

end ReadsBack

end OpenChime.Wire
