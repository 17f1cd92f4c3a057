import Mathlib.Data.LawfulXor.Basic
import Mathlib.Data.UInt
import OpenChime.Wire.FrameBuf

/-! A browser's connection (`daemon/http.c`, `daemon/ioloop.c`): WebSocket frames are
gathered in one buffer and their payloads go into a second one, which yields the frames of
the protocol. Memory is taken to be there when it is asked for. -/

set_option autoImplicit false

namespace OpenChime.Daemon

open Wire Framing List BigEndian

def wsMaxFrame : Nat := maxFrameSize + 64

/-- `oc_ws_frame` -/
structure WsParsed where
  opcode : UInt8
  fin : Bool
  (maskOff payloadOff len whole : Nat)

inductive WsResult where
  | refuse
  | more
  | frame (out : WsParsed)

def wsParse (buf : List UInt8) (maxLen : Nat) : WsResult :=
  match buf with
  | b0 :: b1 :: rest =>
    if b0 &&& 0x70 ≠ 0 then .refuse
    else if b1 &&& 0x80 = 0 then .refuse
    else
      let small := (b1 &&& 0x7f).toNat
      -- the bytes of an extended length
      let wide := if small = 126 then 2 else if small = 127 then 8 else 0
      if rest.length < wide then .more
      else
        let len := if wide = 0 then small else decode (rest.take wide)
        let hdr := 2 + wide
        if len > maxLen then .refuse
        else if buf.length < hdr + 4 + len then .more
        else .frame
          { opcode := b0 &&& 0x0f, fin := b0 &&& 0x80 ≠ 0, maskOff := hdr, payloadOff := hdr + 4
            len, whole := hdr + 4 + len }
  | _ => .more

theorem wsParse_whole {buf : List UInt8} {maxLen : Nat} {out : WsParsed}
    (parsed : wsParse buf maxLen = .frame out) : 0 < out.whole ∧ out.whole ≤ buf.length := by
  unfold wsParse at parsed
  split at parsed
  · next b0 b1 rest =>
    extract_lets small wide len hdr at parsed
    split at parsed
    · cases parsed
    split at parsed
    · cases parsed
    split at parsed
    · cases parsed
    split at parsed
    · cases parsed
    split at parsed
    · cases parsed
    next arrived =>
    cases parsed
    refine ⟨?_, not_lt.mp arrived⟩
    change 0 < hdr + 4 + len
    omega
  · cases parsed

/-- `payload[i] ^= mask[i & 3]` -/
def unmask (mask payload : List UInt8) : List UInt8 := payload.mapIdx fun i byte => byte ^^^ mask.getD (i &&& 3) 0

@[simp] theorem length_unmask (mask payload : List UInt8) : (unmask mask payload).length = payload.length :=
  length_mapIdx

@[simp] theorem unmask_unmask (mask payload : List UInt8) : unmask mask (unmask mask payload) = payload := by
  refine ext_getElem (by simp) fun i _ _ => ?_
  simp [unmask]

/-- What handling a WebSocket frame changes; `posted` are the OC_IO_FRAME events of the
connection, `queued` the chunks for its socket. -/
structure WsCore where
  fb : FrameBuf
  posted : List (List UInt8)
  queued : List (List UInt8)
  finished : Bool

def wsHeader (opcode : UInt8) (len : Nat) : List UInt8 :=
  (0x80 ||| (opcode &&& 0x0f)) ::
    if len < 126 then [UInt8.ofNat len]
    else if len < 65536 then 126 :: encode 2 len
    else 127 :: encode 8 len

/-- One frame of `ws_bytes`, unmasked. -/
def WsCore.take (c : WsCore) (opcode : UInt8) (payload : List UInt8) : WsCore :=
  if opcode = 0x2 ∨ opcode = 0x0 then
    match if payload = [] then some c.fb else c.fb.push payload with
    | none => { c with finished := true }
    | some pushed =>
      match pushed.drain with
      | (frames, .ok after) => { c with fb := after, posted := c.posted ++ frames }
      | (frames, .error _) => { c with posted := c.posted ++ frames, finished := true }
  else if opcode = 0x9 then
    { c with queued := c.queued ++ [wsHeader 0xA payload.length ++ payload] }
  else if opcode = 0xA then c
  else { c with finished := true }

structure WsConn where
  win : List UInt8
  wcap : Nat
  core : WsCore

namespace WsConn

def opened : WsConn := ⟨[], 0, ⟨.init, [], [], false⟩⟩

/-- `while (nc < need) nc *= 2` -/
def grown (nc need : Nat) (positive : 0 < nc) : Nat :=
  if nc < need then grown (nc * 2) need (Nat.mul_pos positive Nat.two_pos) else nc
termination_by need - nc

/-- The `for` of `ws_bytes`. -/
def wsLoop (c : WsConn) : WsConn :=
  match _parsed : wsParse c.win wsMaxFrame with
  | .more => c
  | .refuse => { c with core := { c.core with finished := true } }
  | .frame wf =>
    let mask := (c.win.drop wf.maskOff).take 4
    let payload := unmask mask ((c.win.drop wf.payloadOff).take wf.len)
    let core := c.core.take wf.opcode payload
    if core.finished then { c with core } else wsLoop { c with win := c.win.drop wf.whole, core }
termination_by c.win.length
decreasing_by
  have := wsParse_whole _parsed
  simp only [length_drop]
  omega

theorem firstCap_pos (wcap : Nat) : 0 < if wcap = 0 then 4096 else wcap := by
  split <;> omega

def wsBytes (c : WsConn) (chunk : List UInt8) : WsConn :=
  let need := c.win.length + chunk.length
  let nc := if need > c.wcap then grown _ need (firstCap_pos c.wcap) else c.wcap
  if need > c.wcap ∧ nc > wsMaxFrame * 2 then { c with core := { c.core with finished := true } }
  else wsLoop { c with win := c.win ++ chunk, wcap := nc }

/-- `read_some` over the reads of a connection; one that is finished is not read again. -/
def reads (c : WsConn) : List (List UInt8) → WsConn
  | [] => c
  | chunk :: chunks => if c.core.finished then c else (c.wsBytes chunk).reads chunks

end WsConn

inductive WsKind where
  | continuation
  | binary
  | ping
  | pong
  deriving DecidableEq

def WsKind.opcode : WsKind → UInt8
  | continuation => 0x0
  | binary => 0x2
  | ping => 0x9
  | pong => 0xA

inductive WsLength where
  | seven
  | sixteen
  | sixtyFour

def WsLength.width : WsLength → Nat
  | seven => 0
  | sixteen => 2
  | sixtyFour => 8

def WsLength.small (len : Nat) : WsLength → Nat
  | seven => len
  | sixteen => 126
  | sixtyFour => 127

def WsLength.Fits (len : Nat) : WsLength → Prop
  | seven => len < 126
  | sixteen => len < 65536
  | sixtyFour => True

instance WsLength.decidableFits (len : Nat) : (form : WsLength) → Decidable (form.Fits len)
  | seven => inferInstanceAs (Decidable (len < 126))
  | sixteen => inferInstanceAs (Decidable (len < 65536))
  | sixtyFour => .isTrue trivial

structure WsFrame where
  fin : Bool
  kind : WsKind
  form : WsLength
  mask : List UInt8
  payload : List UInt8
  mask_four : mask.length = 4
  payload_le : payload.length ≤ wsMaxFrame
  form_fits : form.Fits payload.length

namespace WsFrame

def byte0 (fin : Bool) (kind : WsKind) : UInt8 := (if fin then 0x80 else 0) ||| kind.opcode

def byte1 (small : Nat) : UInt8 := 0x80 ||| UInt8.ofNat small

variable (f : WsFrame)

def tail : List UInt8 := encode f.form.width f.payload.length ++ (f.mask ++ unmask f.mask f.payload)

def bytes : List UInt8 := byte0 f.fin f.kind :: byte1 (f.form.small f.payload.length) :: f.tail

def data : List UInt8 :=
  match f.kind with
  | .continuation | .binary => f.payload
  | .ping | .pong => []

/-- What `oc_ws_parse` says of it. -/
def parsed : WsParsed :=
  let hdr := 2 + f.form.width
  { opcode := f.kind.opcode, fin := f.fin, maskOff := hdr, payloadOff := hdr + 4
    len := f.payload.length, whole := hdr + 4 + f.payload.length }

theorem byte0_bits (fin : Bool) (kind : WsKind) : byte0 fin kind &&& 0x70 = 0 ∧ byte0 fin kind &&& 0x0f = kind.opcode ∧
      decide (byte0 fin kind &&& 0x80 ≠ 0) = fin := by
  cases fin <;> cases kind <;> decide

theorem byte1_bits : ∀ small < 128, byte1 small &&& 0x80 ≠ 0 ∧ (byte1 small &&& 0x7f).toNat = small := by
  decide

theorem small_lt : f.form.small f.payload.length < 128 := by
  have fits := f.form_fits
  cases isForm : f.form <;> simp only [isForm, WsLength.Fits, WsLength.small] at fits ⊢ <;> omega

theorem width_eq : (if f.form.small f.payload.length = 126 then 2
      else if f.form.small f.payload.length = 127 then 8 else 0) = f.form.width := by
  have fits := f.form_fits
  cases isForm : f.form with
  | seven =>
    rw [isForm] at fits
    have below : WsLength.small f.payload.length .seven < 126 := fits
    rw [if_neg (by omega), if_neg (by omega)]
    rfl
  | sixteen => rfl
  | sixtyFour => rfl

theorem length_eq {rest : List UInt8} (header : rest.take f.form.width = encode f.form.width f.payload.length) :
    (if f.form.width = 0 then f.form.small f.payload.length
      else decode (rest.take f.form.width)) = f.payload.length := by
  have fits := f.form_fits
  rw [header]
  cases isForm : f.form with
  | seven => rfl
  | sixteen =>
    simp only [isForm, WsLength.Fits] at fits
    exact @decode_encode_of_lt 2 _ fits
  | sixtyFour =>
    have small := f.payload_le
    unfold wsMaxFrame maxFrameSize at small
    exact @decode_encode_of_lt 8 _ (by omega)

theorem wsParse_header {rest : List UInt8}
    (header : f.form.width ≤ rest.length → rest.take f.form.width = encode f.form.width f.payload.length) :
    wsParse (byte0 f.fin f.kind :: byte1 (f.form.small f.payload.length) :: rest) wsMaxFrame =
      if rest.length < f.form.width + 4 + f.payload.length then .more else .frame f.parsed := by
  obtain ⟨reserved, opcode, fin⟩ := byte0_bits f.fin f.kind
  obtain ⟨masked, small⟩ := byte1_bits _ f.small_lt
  unfold wsParse
  simp only [reserved, masked, small, f.width_eq, ne_eq, not_true_eq_false, if_false]
  by_cases brief : rest.length < f.form.width
  · rw [if_pos brief, if_pos (by omega)]
  rw [if_neg brief, f.length_eq (header (not_lt.mp brief)),
    if_neg (not_lt.mpr f.payload_le)]
  simp only [length_cons]
  by_cases short : rest.length < f.form.width + 4 + f.payload.length
  · rw [if_pos (by omega), if_pos short]
  rw [if_neg (by omega), if_neg short]
  simp only [parsed, WsResult.frame.injEq, WsParsed.mk.injEq, opcode, and_true, true_and]
  exact fin

theorem length_tail : f.tail.length = f.form.width + 4 + f.payload.length := by
  simp [tail, f.mask_four]
  omega

theorem take_tail : f.tail.take f.form.width = encode f.form.width f.payload.length := take_left' (length_encode _ _)

theorem wsParse_bytes (rest : List UInt8) : wsParse (f.bytes ++ rest) wsMaxFrame = .frame f.parsed := by
  have long := f.length_tail
  have parse := @f.wsParse_header (f.tail ++ rest) fun _ => by
    rw [take_append_of_le_length (by omega), f.take_tail]
  rwa [if_neg (by rw [length_append]; omega)] at parse

theorem wsParse_short {front : List UInt8} (within : front <+: f.bytes)
    (shorter : front.length < f.bytes.length) : wsParse front wsMaxFrame = .more := by
  rcases front with _ | ⟨b0, _ | ⟨b1, rest⟩⟩
  · rfl
  · rfl
  obtain ⟨rfl, beyond⟩ := cons_prefix_cons.mp within
  obtain ⟨rfl, later, whole⟩ := cons_prefix_cons.mp beyond
  have long := f.length_tail
  simp only [bytes, length_cons] at shorter
  rw [f.wsParse_header, if_pos (by omega)]
  intro enough
  rw [← f.take_tail, ← whole, take_append_of_le_length enough]

end WsFrame

/-- What `oc_ws_parse` makes of the bytes gathered. -/
def wsCut (bytes : List UInt8) : Cut :=
  match wsParse bytes wsMaxFrame with
  | .refuse => .refuse
  | .more => .wait
  | .frame out => .frame out.whole

theorem WsFrame.length_bytes (f : WsFrame) : f.bytes.length = f.parsed.whole := by
  have long := f.length_tail
  simp only [bytes, parsed, length_cons]
  omega

def wsFormat : Format UInt8 where
  cut := wsCut
  Whole bytes := ∃ f : WsFrame, f.bytes = bytes
  cut_nil := rfl
  nonempty := by
    rintro _ ⟨f, rfl⟩ empty
    cases empty
  cut_whole := by
    rintro _ rest ⟨f, rfl⟩
    rw [wsCut, f.wsParse_bytes, f.length_bytes]
  cut_short := by
    rintro _ front ⟨f, rfl⟩ within shorter
    rw [wsCut, f.wsParse_short within shorter]

end OpenChime.Daemon
