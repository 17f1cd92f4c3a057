import OpenChime.Wire.Codec

/-! Audio calls and private direct messages. -/

set_option autoImplicit false

namespace OpenChime.Wire

open Get MsgType

def callDeviceKeyLen : Nat := 32

def wCounted {α : Type} (fieldsOf : α → List Field) (count : UInt16) (values : List α) :
    List Field := .u16 count :: (values.take count.toNat).flatMap fieldsOf

/-- A count past the room spoils the frame, and nothing is taken. -/
def rCounted {α : Type} (item : Get α) (cap : UInt16) : Get (UInt16 × List α) := do
  let n ← rU16
  if n > cap then
    spoilIf True
    accept (0, [])
  else
    let values ← loopOk item n.toNat
    accept (n, values)

variable {cap count : UInt16}

theorem reads_rCounted {α : Type} {item : Get α} {fieldsOf : α → List Field} {values : List α}
    (reads : ∀ value, Reads item (fieldsOf value) value) (valid : Counted cap.toNat count.toNat values) :
    Reads (rCounted item cap) (wCounted fieldsOf count values) (count, values) := by
  intro fits rest
  simp [wCounted, valid.whole] at fits
  simp [rCounted, wCounted, UInt16.not_lt.mpr valid.u16.1, valid.whole, fits, reads]

def wU64s : UInt16 → List UInt64 → List Field := wCounted fun value => [.u64 value]

def rU64s : UInt16 → Get (UInt16 × List UInt64) := rCounted rU64

theorem reads_rU64s {values : List UInt64} (valid : Counted cap.toNat count.toNat values) :
    Reads (rU64s cap) (wU64s count values) (count, values) := reads_rCounted reads_rU64 valid

structure CallPart where
  userId : UInt64
  slot : UInt8
  deviceKey : Raw callDeviceKeyLen
  (codecs flags : UInt8)

def CallPart.fields (e : CallPart) : List Field :=
  [.u64 e.userId, .u8 e.slot, .raw e.deviceKey, .u8 e.codecs, .u8 e.flags]

def rCallPart : Get CallPart := do
  accept ⟨← rU64, ← rU8, ← rRaw callDeviceKeyLen, ← rU8, ← rU8⟩

@[simp] theorem reads_callPart (e : CallPart) : Reads rCallPart e.fields e := by
  simp +contextual [Reads, rCallPart, CallPart.fields]

def wCallParts : UInt16 → List CallPart → List Field := wCounted CallPart.fields

def rCallParts : UInt16 → Get (UInt16 × List CallPart) := rCounted rCallPart

theorem reads_rCallParts {parts : List CallPart} (valid : Counted cap.toNat count.toNat parts) :
    Reads (rCallParts cap) (wCallParts count parts) (count, parts) :=
  reads_rCounted reads_callPart valid

structure CallJoin where
  channelId : UInt64
  deviceKey : Raw callDeviceKeyLen
  nInvite : UInt16
  invite : List UInt64
  codecs : UInt8

variable (cap : UInt16)

def CallJoin.Valid (m : CallJoin) : Prop := Counted cap.toNat m.nInvite.toNat m.invite

variable (version : UInt16)

@[simp] def encodeCallJoin (m : CallJoin) : Put :=
  .frame version callJoin.code ([.u64 m.channelId, .raw m.deviceKey, .u8 m.codecs] ++ wU64s m.nInvite m.invite)

@[simp] def decodeCallJoin : Get CallJoin := do
  let channelId ← rU64
  let deviceKey ← rRaw callDeviceKeyLen
  let codecs ← rU8
  let invite ← rU64s cap
  done { channelId, deviceKey, codecs, nInvite := invite.1, invite := invite.2 }

structure CallJoined where
  (channelId callId : UInt64)
  udpPort : UInt16
  token : Slice
  slot : UInt8
  epoch : UInt32
  (starter startedAt : UInt64)
  count : UInt16
  parts : List CallPart

def CallJoined.Valid (m : CallJoined) : Prop := Counted cap.toNat m.count.toNat m.parts

@[simp] def encodeCallJoined (m : CallJoined) : Put :=
  .frame version callJoined.code
    ([.u64 m.channelId, .u64 m.callId, .u16 m.udpPort, .bytes m.token, .u8 m.slot, .u32 m.epoch,
      .u64 m.starter, .u64 m.startedAt] ++ wCallParts m.count m.parts)

@[simp] def decodeCallJoined : Get CallJoined := do
  let channelId ← rU64
  let callId ← rU64
  let udpPort ← rU16
  let token ← rBytes
  let slot ← rU8
  let epoch ← rU32
  let starter ← rU64
  let startedAt ← rU64
  let parts ← rCallParts cap
  done { channelId, callId, udpPort, token, slot, epoch, starter, startedAt
         count := parts.1, parts := parts.2 }

structure CallRoster where
  (channelId callId : UInt64)
  epoch : UInt32
  count : UInt16
  parts : List CallPart

def CallRoster.Valid (m : CallRoster) : Prop := Counted cap.toNat m.count.toNat m.parts

@[simp] def encodeCallRoster (m : CallRoster) : Put :=
  .frame version callRoster.code ([.u64 m.channelId, .u64 m.callId, .u32 m.epoch] ++ wCallParts m.count m.parts)

@[simp] def decodeCallRoster : Get CallRoster := do
  let channelId ← rU64
  let callId ← rU64
  let epoch ← rU32
  let parts ← rCallParts cap
  done { channelId, callId, epoch, count := parts.1, parts := parts.2 }

structure CallInvite where
  channelId : UInt64
  count : UInt16
  users : List UInt64

def CallInvite.Valid (m : CallInvite) : Prop := Counted cap.toNat m.count.toNat m.users

@[simp] def encodeCallInvite (m : CallInvite) : Put :=
  .frame version callInvite.code (.u64 m.channelId :: wU64s m.count m.users)

@[simp] def decodeCallInvite : Get CallInvite := do
  let channelId ← rU64
  let users ← rU64s cap
  done { channelId, count := users.1, users := users.2 }

structure CallState where
  (channelId callId starter startedAt : UInt64)
  ended : UInt8
  nParts : UInt16
  parts : List UInt64
  nInvited : UInt16
  invited : List UInt64
  sharer : UInt64

structure CallState.Valid (caps : UInt16 × UInt16) (m : CallState) : Prop where
  parts : Counted caps.1.toNat m.nParts.toNat m.parts
  invited : Counted caps.2.toNat m.nInvited.toNat m.invited

@[simp] def encodeCallState (m : CallState) : Put :=
  .frame version callState.code
    ([.u64 m.channelId, .u64 m.callId, .u64 m.starter, .u64 m.startedAt, .u8 m.ended] ++
      (wU64s m.nParts m.parts ++ (wU64s m.nInvited m.invited ++ [.u64 m.sharer])))

@[simp] def decodeCallState (caps : UInt16 × UInt16) : Get CallState := do
  let channelId ← rU64
  let callId ← rU64
  let starter ← rU64
  let startedAt ← rU64
  let ended ← rU8
  let parts ← rU64s caps.1
  let invited ← rU64s caps.2
  let sharer ← rU64
  done { channelId, callId, starter, startedAt, ended, nParts := parts.1, parts := parts.2
         nInvited := invited.1, invited := invited.2, sharer }

structure CallLeave where
  channelId : UInt64

@[simp] def encodeCallLeave (m : CallLeave) : Put := .frame version callLeave.code [.u64 m.channelId]

@[simp] def decodeCallLeave : Get CallLeave := do
  done ⟨← rU64⟩

structure CallDecline where
  channelId : UInt64

@[simp] def encodeCallDecline (m : CallDecline) : Put :=
  .frame version callDecline.code [.u64 m.channelId]

@[simp] def decodeCallDecline : Get CallDecline := do
  done ⟨← rU64⟩

structure CallEnd where
  channelId : UInt64

@[simp] def encodeCallEnd (m : CallEnd) : Put := .frame version callEnd.code [.u64 m.channelId]

@[simp] def decodeCallEnd : Get CallEnd := do
  done ⟨← rU64⟩

structure CallKeyEntry where
  recipient : UInt64
  sealed : Slice

def CallKeyEntry.fields (e : CallKeyEntry) : List Field := [.u64 e.recipient, .bytes e.sealed]

def rCallKeyEntry : Get CallKeyEntry := do
  accept ⟨← rU64, ← rBytes⟩

@[simp] theorem reads_callKeyEntry (e : CallKeyEntry) : Reads rCallKeyEntry e.fields e := by
  simp +contextual [Reads, rCallKeyEntry, CallKeyEntry.fields]


structure CallKey where
  (channelId callId : UInt64)
  epoch : UInt32
  count : UInt16
  entries : List CallKeyEntry

def CallKey.Valid (m : CallKey) : Prop := Counted cap.toNat m.count.toNat m.entries

@[simp] def encodeCallKey (m : CallKey) : Put :=
  .frame version callKey.code
    ([.u64 m.channelId, .u64 m.callId, .u32 m.epoch, .u16 m.count] ++
      (m.entries.take m.count.toNat).flatMap CallKeyEntry.fields)

@[simp] def decodeCallKey : Get CallKey := do
  let channelId ← rU64
  let callId ← rU64
  let epoch ← rU32
  let n ← rU16
  spoilIf (n > cap)
  if n > cap then done { channelId, callId, epoch, count := 0, entries := [] }
  else
    let entries ← loopOk rCallKeyEntry n.toNat
    done { channelId, callId, epoch, count := n, entries }

structure CallKeyFor where
  (channelId callId : UInt64)
  epoch : UInt32
  sender : UInt64
  sealed : Slice

@[simp] def encodeCallKeyFor (m : CallKeyFor) : Put :=
  .frame version callKeyFor.code [.u64 m.channelId, .u64 m.callId, .u32 m.epoch, .u64 m.sender, .bytes m.sealed]

@[simp] def decodeCallKeyFor : Get CallKeyFor := do
  done ⟨← rU64, ← rU64, ← rU32, ← rU64, ← rBytes⟩

structure CallShare where
  channelId : UInt64
  on : UInt8

@[simp] def encodeCallShare (m : CallShare) : Put :=
  .frame version callShare.code [.u64 m.channelId, .u8 m.on]

@[simp] def decodeCallShare : Get CallShare := do
  done ⟨← rU64, ← rU8⟩

structure CallMediaPkt where
  sender : UInt64
  seq : UInt16
  ct : Slice

/-- On the way up the sender is not written: the server knows whose connection it is. -/
@[simp] def encodeCallMediaUp (m : CallMediaPkt) : Put :=
  .frame version callMedia.code [.u16 m.seq, .bytes m.ct]

@[simp] def decodeCallMediaUp : Get CallMediaPkt := do
  let seq ← rU16
  let ct ← rBytes
  done { sender := 0, seq, ct }

@[simp] def encodeCallMediaDown (m : CallMediaPkt) : Put :=
  .frame version callMedia.code [.u64 m.sender, .u16 m.seq, .bytes m.ct]

@[simp] def decodeCallMediaDown : Get CallMediaPkt := do
  done ⟨← rU64, ← rU16, ← rBytes⟩

def pdmMaxHs : Nat := 256
def pdmHeaderLen : Nat := 40
def pdmMaxCt : Nat := 16400

/-- The size a decoder asks of a handshake message. -/
def HsSized (hs : Slice) : Prop := hs.length ≠ 0 ∧ hs.length ≤ pdmMaxHs

theorem HsSized.sane {hs : Slice} (sized : HsSized hs) : ¬(hs.length = 0 ∨ hs.length > pdmMaxHs) :=
  not_or.mpr ⟨sized.1, Nat.not_lt.mpr sized.2⟩

structure PdmOpen where
  peer : UInt64
  hs : Slice

@[simp] def encodePdmOpen (m : PdmOpen) : Put := .frame version pdmOpen.code [.u64 m.peer, .bytes m.hs]

@[simp] def decodePdmOpen : Get PdmOpen := do
  let peer ← rU64
  let hs ← rBytes
  spoilIf (hs.length = 0 ∨ hs.length > pdmMaxHs)
  done { peer, hs }

structure PdmInvite where
  (pdmId «from» : UInt64)
  hs : Slice

@[simp] def encodePdmInvite (m : PdmInvite) : Put :=
  .frame version pdmInvite.code [.u64 m.pdmId, .u64 m.from, .bytes m.hs]

@[simp] def decodePdmInvite : Get PdmInvite := do
  let pdmId ← rU64
  let «from» ← rU64
  let hs ← rBytes
  spoilIf (hs.length = 0 ∨ hs.length > pdmMaxHs)
  done { pdmId, «from», hs }

structure PdmHs where
  pdmId : UInt64
  hs : Slice

@[simp] def encodePdmHs (version type : UInt16) (m : PdmHs) : Put :=
  .frame version type [.u64 m.pdmId, .bytes m.hs]

@[simp] def decodePdmHs : Get PdmHs := do
  let pdmId ← rU64
  let hs ← rBytes
  spoilIf (hs.length = 0 ∨ hs.length > pdmMaxHs)
  done { pdmId, hs }

structure PdmMsg where
  pdmId : UInt64
  (header ct : Slice)

structure PdmMsg.Valid (m : PdmMsg) : Prop where
  header : m.header.length = pdmHeaderLen
  tagged : 16 ≤ m.ct.length
  small : m.ct.length ≤ pdmMaxCt

@[simp] def encodePdmMsg (version type : UInt16) (m : PdmMsg) : Put :=
  .frame version type [.u64 m.pdmId, .bytes m.header, .bytes m.ct]

@[simp] def decodePdmMsg : Get PdmMsg := do
  let pdmId ← rU64
  let header ← rBytes
  let ct ← rBytes
  spoilIf (header.length ≠ pdmHeaderLen ∨ ct.length < 16 ∨ ct.length > pdmMaxCt)
  done { pdmId, header, ct }

structure PdmOpened where
  (pdmId peer : UInt64)

@[simp] def encodePdmOpened (m : PdmOpened) : Put :=
  .frame version pdmOpened.code [.u64 m.pdmId, .u64 m.peer]

@[simp] def decodePdmOpened : Get PdmOpened := do
  done ⟨← rU64, ← rU64⟩

structure PdmEnd where
  pdmId : UInt64
  reason : UInt8

@[simp] def encodePdmEnd (m : PdmEnd) : Put := .frame version pdmEnd.code [.u64 m.pdmId, .u8 m.reason]

@[simp] def decodePdmEnd : Get PdmEnd := do
  done ⟨← rU64, ← rU8⟩

def callCodecs : List LawfulCodec := [
  .capped .callJoin CallJoin.Valid encodeCallJoin decodeCallJoin fun _ _ _ valid => by
    simp +contextual [(reads_rU64s valid).on_end],
  .capped .callJoined CallJoined.Valid encodeCallJoined decodeCallJoined fun _ _ _ valid => by
    simp +contextual [(reads_rCallParts valid).on_end],
  .capped .callRoster CallRoster.Valid encodeCallRoster decodeCallRoster fun _ _ _ valid => by
    simp +contextual [(reads_rCallParts valid).on_end],
  .capped .callInvite CallInvite.Valid encodeCallInvite decodeCallInvite fun _ _ _ valid => by
    simp +contextual [(reads_rU64s valid).on_end],
  .capped .callState CallState.Valid encodeCallState decodeCallState fun _ _ _ valid => by
    have parts := reads_rU64s valid.parts
    have invited := reads_rU64s valid.invited
    simp +contextual [parts.on_append, invited.on_append],
  .plain .callLeave encodeCallLeave decodeCallLeave,
  .plain .callDecline encodeCallDecline decodeCallDecline,
  .plain .callEnd encodeCallEnd decodeCallEnd,
  .capped .callKey CallKey.Valid encodeCallKey decodeCallKey fun _ _ _ valid => by
    simp +contextual [UInt16.not_lt.mpr valid.u16.1, valid.whole],
  .plain .callKeyFor encodeCallKeyFor decodeCallKeyFor,
  .plain .callShare encodeCallShare decodeCallShare,
  .checked .callMedia (·.sender = 0) encodeCallMediaUp decodeCallMediaUp fun _ m unsent => by
    obtain ⟨sender, seq, ct⟩ := m
    obtain rfl : sender = 0 := unsent
    simp +contextual,
  .plain .callMedia encodeCallMediaDown decodeCallMediaDown,
  .checked .pdmOpen (HsSized ·.hs) encodePdmOpen decodePdmOpen fun _ _ sized => by
    simp +contextual [on_spoilIf _ _ _ sized.sane],
  .checked .pdmInvite (HsSized ·.hs) encodePdmInvite decodePdmInvite fun _ _ sized => by
    simp +contextual [on_spoilIf _ _ _ sized.sane],
  .typed (HsSized ·.hs) encodePdmHs decodePdmHs fun _ _ _ sized => by
    simp +contextual [on_spoilIf _ _ _ sized.sane],
  .typed PdmMsg.Valid encodePdmMsg decodePdmMsg fun _ _ m valid => by
    obtain ⟨header, tagged, small⟩ := valid
    have sane : ¬(m.header.length ≠ pdmHeaderLen ∨ m.ct.length < 16 ∨ m.ct.length > pdmMaxCt) := by
      omega
    simp +contextual [on_spoilIf _ _ _ sane],
  .plain .pdmOpened encodePdmOpened decodePdmOpened,
  .plain .pdmEnd encodePdmEnd decodePdmEnd]

end OpenChime.Wire
