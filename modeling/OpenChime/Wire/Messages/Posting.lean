import OpenChime.Wire.Codec

/-! Messages, replies, reactions and pins (PROTOCOL.md §5). -/

set_option autoImplicit false

namespace OpenChime.Wire

open Get MsgType

def maxAttach : UInt16 := 16
def mediaNone : UInt8 := 0
def mediaVideoMessage : UInt8 := 1
def msgKindCall : UInt8 := 1

structure AttachEntry where
  id : UInt64
  (filename mime : Slice)
  size : UInt64
  (reclaimed mediaKind : UInt8)
  durationMs : UInt32
  (width height : UInt16)
  posterId : UInt64

/-- The media fields belong to a video message; any other attachment has them zero. -/
def AttachEntry.Valid (a : AttachEntry) : Prop :=
  a.mediaKind = mediaVideoMessage ∨ (a.mediaKind = mediaNone ∧ a.durationMs = 0 ∧ a.width = 0 ∧
    a.height = 0 ∧ a.posterId = 0)

def wAttachEntry (a : AttachEntry) : List Field :=
  [.u64 a.id, .str a.filename, .str a.mime, .u64 a.size, .u8 a.reclaimed, .u8 a.mediaKind] ++
    if a.mediaKind = mediaVideoMessage then
      [.u32 a.durationMs, .u16 a.width, .u16 a.height, .u64 a.posterId]
    else []

def rAttachEntry : Get AttachEntry := do
  let id ← rU64
  let filename ← rStr
  let mime ← rStr
  let size ← rU64
  let reclaimed ← rU8
  let mediaKind ← rU8
  if mediaKind = mediaVideoMessage then
    let durationMs ← rU32
    let width ← rU16
    let height ← rU16
    let posterId ← rU64
    accept { id, filename, mime, size, reclaimed, mediaKind, durationMs, width, height, posterId }
  else
    refuseIf (mediaKind ≠ mediaNone)
    accept { id, filename, mime, size, reclaimed, mediaKind
             durationMs := 0, width := 0, height := 0, posterId := 0 }

theorem reads_attachEntry {a : AttachEntry} (valid : a.Valid) : Reads rAttachEntry (wAttachEntry a) a := by
  intro fits rest
  rcases valid with video | ⟨plain, noDuration, noWidth, noHeight, noPoster⟩
  · simp [wAttachEntry, if_pos video] at fits
    simp [rAttachEntry, wAttachEntry, if_pos video, fits]
  have still : mediaNone ≠ mediaVideoMessage := by decide
  have zeroed : { a with mediaKind := mediaNone, durationMs := 0, width := 0, height := 0,
                         posterId := 0 } = a := by
    cases a
    simp_all
  simp [wAttachEntry, plain, still] at fits
  simp [rAttachEntry, wAttachEntry, plain, still, fits, zeroed]

/-- The optional tail of SEND and SEND_REPLY: written only when there are attachments. -/
def attachIds (nAttach : UInt16) (ids : List UInt64) : List Field :=
  if nAttach ≠ 0 then
    let n := clamp maxAttach nAttach
    .u16 n :: (ids.take n.toNat).flatMap fun id => [.u64 id]
  else []

def rAttachIds {M : Type} (finish : UInt16 → List UInt64 → M) : Get M := do
  if ← more then
    let nAttach ← rU16
    refuseIf (nAttach > maxAttach)
    let ids ← loopOk rU64 nAttach.toNat
    done (finish nAttach ids)
  else done (finish 0 [])

theorem on_rAttachIds {M : Type} (finish : UInt16 → List UInt64 → M) {nAttach : UInt16} {ids : List UInt64}
    (valid : Counted maxAttach.toNat nAttach.toNat ids) (fits : AllFit (attachIds nAttach ids)) :
    (rAttachIds finish).on (attachIds nAttach ids) [] = .ok (finish nAttach ids, ⟨[], false⟩) := by
  unfold attachIds at fits ⊢
  by_cases absent : nAttach = 0
  · have none : ids = [] := List.eq_nil_of_length_eq_zero (by simp [valid.counted, absent])
    simp [rAttachIds, absent, none]
  · simp [absent, valid.u16] at fits
    simp [rAttachIds, absent, valid.u16, fits]

structure Send where
  channelId : UInt64
  idem : Raw idemSize
  body : Slice
  (srcChannel srcMessage : UInt64)
  nAttach : UInt16
  attachIds : List UInt64

def Send.Valid (m : Send) : Prop := Counted maxAttach.toNat m.nAttach.toNat m.attachIds

variable (version : UInt16)

@[simp] def encodeSend (m : Send) : Put :=
  checkBody m.body <| .frame version send.code
    ([.u64 m.channelId, .raw m.idem, .lstr m.body, .u64 m.srcChannel, .u64 m.srcMessage] ++
      attachIds m.nAttach m.attachIds)

@[simp] def decodeSend : Get Send := do
  let channelId ← rU64
  let idem ← rRaw idemSize
  let body ← rLstr
  let srcChannel ← rU64
  let srcMessage ← rU64
  rAttachIds fun nAttach attachIds =>
    { channelId, idem, body, srcChannel, srcMessage, nAttach, attachIds }

structure SendReply where
  channelId : UInt64
  idem : Raw idemSize
  parentId : UInt64
  body : Slice
  nAttach : UInt16
  attachIds : List UInt64

def SendReply.Valid (m : SendReply) : Prop := Counted maxAttach.toNat m.nAttach.toNat m.attachIds

@[simp] def encodeSendReply (m : SendReply) : Put :=
  checkBody m.body <| .frame version sendReply.code
    ([.u64 m.channelId, .raw m.idem, .u64 m.parentId, .lstr m.body] ++ attachIds m.nAttach m.attachIds)

@[simp] def decodeSendReply : Get SendReply := do
  let channelId ← rU64
  let idem ← rRaw idemSize
  let parentId ← rU64
  let body ← rLstr
  rAttachIds fun nAttach attachIds => { channelId, idem, parentId, body, nAttach, attachIds }

structure SendAck where
  idem : Raw idemSize
  (channelId messageId serverTime : UInt64)

@[simp] def encodeSendAck (m : SendAck) : Put :=
  .frame version sendAck.code [.raw m.idem, .u64 m.channelId, .u64 m.messageId, .u64 m.serverTime]

@[simp] def decodeSendAck : Get SendAck := do
  done ⟨← rRaw idemSize, ← rU64, ← rU64, ← rU64⟩

structure Broadcast where
  (messageId channelId authorId serverTime : UInt64)
  kind : UInt8
  body : Slice
  nAttach : UInt16
  attach : List AttachEntry
  authorName : Slice
  broadcastStored : UInt8

structure Broadcast.Valid (m : Broadcast) : Prop where
  kind : m.kind ≤ msgKindCall
  stored : m.broadcastStored ≤ 1
  counted : Counted maxAttach.toNat m.nAttach.toNat m.attach
  entries : ∀ a ∈ m.attach, a.Valid

/-- Attachments and author name share the tail of the frame: a name without attachments is
written behind a zero count. -/
def broadcastTail (m : Broadcast) : List Field :=
  if m.nAttach ≠ 0 ∨ m.authorName.length ≠ 0 then
    let n := clamp maxAttach m.nAttach
    .u16 n :: (m.attach.take n.toNat).flatMap wAttachEntry ++
      if m.authorName.length ≠ 0 then [.str m.authorName] else []
  else []

@[simp] def encodeBroadcastAs (version type : UInt16) (m : Broadcast) : Put :=
  checkBody m.body <| .frame version type
    ([.u64 m.messageId, .u64 m.channelId, .u64 m.authorId, .u64 m.serverTime, .u8 m.kind,
      .u8 (flag m.broadcastStored), .lstr m.body] ++ broadcastTail m)

def encodeBroadcast (m : Broadcast) : Put := encodeBroadcastAs version broadcast.code m

def encodeMsgRestored (m : Broadcast) : Put := encodeBroadcastAs version msgRestored.code m

/-- The optional block behind the body of a broadcast. -/
def rBroadcastTail (finish : UInt16 → List AttachEntry → Slice → Broadcast) : Get Broadcast := do
  if ← more then
    let nAttach ← rU16
    refuseIf (nAttach > maxAttach)
    let attach ← loopOk rAttachEntry nAttach.toNat
    if ← more then
      let authorName ← rStr
      done (finish nAttach attach authorName)
    else done (finish nAttach attach [])
  else done (finish 0 [] [])

@[simp] def decodeBroadcast : Get Broadcast := do
  let messageId ← rU64
  let channelId ← rU64
  let authorId ← rU64
  let serverTime ← rU64
  let kind ← rU8
  refuseIf (kind > msgKindCall)
  let broadcastStored ← rU8
  refuseIf (broadcastStored > 1)
  let body ← rLstr
  rBroadcastTail fun nAttach attach authorName =>
    { messageId, channelId, authorId, serverTime, kind, body, nAttach, attach, authorName, broadcastStored }

theorem on_rBroadcastTail (finish : UInt16 → List AttachEntry → Slice → Broadcast) {m : Broadcast}
    (valid : m.Valid) (fits : AllFit (broadcastTail m)) :
    (rBroadcastTail finish).on (broadcastTail m) [] = .ok (finish m.nAttach m.attach m.authorName, ⟨[], false⟩) := by
  obtain ⟨-, -, counted, entries⟩ := valid
  have reads : EachReads rAttachEntry wAttachEntry m.attach := fun a member =>
    reads_attachEntry (entries a member)
  unfold broadcastTail at fits ⊢
  by_cases unnamed : m.authorName = []
  · by_cases absent : m.nAttach = 0
    · have none : m.attach = [] := List.eq_nil_of_length_eq_zero (by simp [counted.counted, absent])
      simp [rBroadcastTail, unnamed, absent, none]
    · simp [unnamed, absent, counted.u16] at fits
      simp [rBroadcastTail, unnamed, absent, counted.u16, fits, reads]
  · simp [unnamed, counted.u16] at fits
    simp [rBroadcastTail, unnamed, counted.u16, fits, reads]

theorem broadcastAs_readsBack (version type : UInt16) (m : Broadcast) (valid : m.Valid) :
    (encodeBroadcastAs version type m).ReadsBack version type decodeBroadcast m := by
  simp +contextual [valid.kind, valid.stored, on_rBroadcastTail _ valid]

structure ClientAck where
  (channelId messageId : UInt64)

@[simp] def encodeClientAck (m : ClientAck) : Put :=
  .frame version clientAck.code [.u64 m.channelId, .u64 m.messageId]

@[simp] def decodeClientAck : Get ClientAck := do
  done ⟨← rU64, ← rU64⟩

structure ReadCursor where
  (channelId userId messageId : UInt64)

@[simp] def encodeReadCursor (m : ReadCursor) : Put :=
  .frame version readCursor.code [.u64 m.channelId, .u64 m.userId, .u64 m.messageId]

@[simp] def decodeReadCursor : Get ReadCursor := do
  done ⟨← rU64, ← rU64, ← rU64⟩

structure Edit where
  (channelId messageId : UInt64)
  body : Slice

@[simp] def encodeEdit (m : Edit) : Put :=
  checkBody m.body <| .frame version edit.code [.u64 m.channelId, .u64 m.messageId, .lstr m.body]

@[simp] def decodeEdit : Get Edit := do
  done ⟨← rU64, ← rU64, ← rLstr⟩

structure Delete where
  (channelId messageId : UInt64)

@[simp] def encodeDelete (m : Delete) : Put :=
  .frame version delete.code [.u64 m.channelId, .u64 m.messageId]

@[simp] def decodeDelete : Get Delete := do
  done ⟨← rU64, ← rU64⟩

structure Restore where
  (channelId messageId : UInt64)

@[simp] def encodeRestore (m : Restore) : Put :=
  .frame version restore.code [.u64 m.channelId, .u64 m.messageId]

@[simp] def decodeRestore : Get Restore := do
  done ⟨← rU64, ← rU64⟩

structure MsgEdited where
  (messageId channelId authorId editedAt : UInt64)
  body : Slice

@[simp] def encodeMsgEdited (m : MsgEdited) : Put :=
  checkBody m.body <| .frame version msgEdited.code
    [.u64 m.messageId, .u64 m.channelId, .u64 m.authorId, .u64 m.editedAt, .lstr m.body]

@[simp] def decodeMsgEdited : Get MsgEdited := do
  done ⟨← rU64, ← rU64, ← rU64, ← rU64, ← rLstr⟩

structure MsgDeleted where
  (messageId channelId authorId deletedBy deletedAt : UInt64)

@[simp] def encodeMsgDeleted (m : MsgDeleted) : Put :=
  .frame version msgDeleted.code
    [.u64 m.messageId, .u64 m.channelId, .u64 m.authorId, .u64 m.deletedBy, .u64 m.deletedAt]

@[simp] def decodeMsgDeleted : Get MsgDeleted := do
  done ⟨← rU64, ← rU64, ← rU64, ← rU64, ← rU64⟩

structure React where
  (channelId messageId : UInt64)
  emoji : Slice
  op : UInt8

@[simp] def encodeReact (m : React) : Put :=
  .frame version react.code [.u64 m.channelId, .u64 m.messageId, .str m.emoji, .u8 m.op]

@[simp] def decodeReact : Get React := do
  done ⟨← rU64, ← rU64, ← rStr, ← rU8⟩

structure ReactionUpdated where
  (messageId channelId userId : UInt64)
  emoji : Slice
  op : UInt8
  count : UInt64

@[simp] def encodeReactionUpdated (m : ReactionUpdated) : Put :=
  .frame version reactionUpdated.code
    [.u64 m.messageId, .u64 m.channelId, .u64 m.userId, .str m.emoji, .u8 m.op, .u64 m.count]

@[simp] def decodeReactionUpdated : Get ReactionUpdated := do
  done ⟨← rU64, ← rU64, ← rU64, ← rStr, ← rU8, ← rU64⟩

structure ListReactions where
  (channelId messageId : UInt64)

@[simp] def encodeListReactions (m : ListReactions) : Put :=
  .frame version listReactions.code [.u64 m.channelId, .u64 m.messageId]

@[simp] def decodeListReactions : Get ListReactions := do
  done ⟨← rU64, ← rU64⟩

structure ReactionEntry where
  emoji : Slice
  userId : UInt64

def ReactionEntry.fields (e : ReactionEntry) : List Field := [.str e.emoji, .u64 e.userId]

def rReactionEntry : Get ReactionEntry := do
  accept ⟨← rStr, ← rU64⟩

@[simp] theorem reads_reactionEntry (e : ReactionEntry) : Reads rReactionEntry e.fields e := by
  simp +contextual [Reads, rReactionEntry, ReactionEntry.fields]

structure Reactions where
  messageId : UInt64
  count : UInt16
  entries : List ReactionEntry

def Reactions.Valid (cap : UInt16) (m : Reactions) : Prop := Counted cap.toNat m.count.toNat m.entries

@[simp] def encodeReactions (m : Reactions) : Put :=
  .frame version reactions.code
    (.u64 m.messageId :: .u16 m.count :: (m.entries.take m.count.toNat).flatMap ReactionEntry.fields)

@[simp] def decodeReactions (cap : UInt16) : Get Reactions := do
  let messageId ← rU64
  let count ← rU16
  let entries ← loopOk rReactionEntry count.toNat
  done { messageId, count, entries := entries.take cap.toNat }

structure Pin where
  (channelId messageId : UInt64)
  op : UInt8

@[simp] def encodePin (m : Pin) : Put :=
  .frame version pin.code [.u64 m.channelId, .u64 m.messageId, .u8 m.op]

@[simp] def decodePin : Get Pin := do
  done ⟨← rU64, ← rU64, ← rU8⟩

structure PinUpdated where
  (messageId channelId userId : UInt64)
  op : UInt8
  pinnedAt : UInt64

@[simp] def encodePinUpdated (m : PinUpdated) : Put :=
  .frame version pinUpdated.code [.u64 m.messageId, .u64 m.channelId, .u64 m.userId, .u8 m.op, .u64 m.pinnedAt]

@[simp] def decodePinUpdated : Get PinUpdated := do
  done ⟨← rU64, ← rU64, ← rU64, ← rU8, ← rU64⟩

structure ListPins where
  channelId : UInt64

@[simp] def encodeListPins (m : ListPins) : Put := .frame version listPins.code [.u64 m.channelId]

@[simp] def decodeListPins : Get ListPins := do
  done ⟨← rU64⟩

structure PinnedMsg where
  (messageId channelId authorId serverTime pinnedBy pinnedAt : UInt64)
  (body attachName : Slice)
  action : UInt8

@[simp] def encodePinnedMsg (m : PinnedMsg) : Put :=
  .frame version pinnedMsg.code
    [.u64 m.messageId, .u64 m.channelId, .u64 m.authorId, .u64 m.serverTime, .u64 m.pinnedBy,
     .u64 m.pinnedAt, .str m.body, .str m.attachName, .u8 m.action]

@[simp] def decodePinnedMsg : Get PinnedMsg := do
  done { messageId := ← rU64, channelId := ← rU64, authorId := ← rU64, serverTime := ← rU64, pinnedBy := ← rU64,
         pinnedAt := ← rU64, body := ← rStr, attachName := ← rStr, action := ← rU8 }

structure Pins where
  channelId : UInt64
  count : UInt32

@[simp] def encodePins (m : Pins) : Put := .frame version pins.code [.u64 m.channelId, .u32 m.count]

@[simp] def decodePins : Get Pins := do
  done ⟨← rU64, ← rU32⟩

structure Unfurl where
  (messageId channelId : UInt64)
  (url title descr : Slice)

@[simp] def encodeUnfurl (m : Unfurl) : Put :=
  .frame version unfurl.code [.u64 m.messageId, .u64 m.channelId, .str m.url, .str m.title, .str m.descr]

@[simp] def decodeUnfurl : Get Unfurl := do
  done ⟨← rU64, ← rU64, ← rStr, ← rStr, ← rStr⟩

structure AttachMediaSet where
  attachmentId : UInt64
  mediaKind : UInt8
  durationMs : UInt32
  (width height : UInt16)
  posterId : UInt64

@[simp] def encodeAttachMediaSet (m : AttachMediaSet) : Put :=
  .frame version attachMediaSet.code
    [.u64 m.attachmentId, .u8 m.mediaKind, .u32 m.durationMs, .u16 m.width, .u16 m.height, .u64 m.posterId]

@[simp] def decodeAttachMediaSet : Get AttachMediaSet := do
  done ⟨← rU64, ← rU8, ← rU32, ← rU16, ← rU16, ← rU64⟩

structure AttachMediaOk where
  attachmentId : UInt64

@[simp] def encodeAttachMediaOk (m : AttachMediaOk) : Put :=
  .frame version attachMediaOk.code [.u64 m.attachmentId]

@[simp] def decodeAttachMediaOk : Get AttachMediaOk := do
  done ⟨← rU64⟩

structure Forward where
  (messageId channelId srcChannel srcMessage srcAuthor : UInt64)
  srcExcerpt : Slice
  nAttach : UInt16
  srcAttachName : Slice
  srcAction : UInt8

@[simp] def encodeForward (m : Forward) : Put :=
  .frame version forward.code
    [.u64 m.messageId, .u64 m.channelId, .u64 m.srcChannel, .u64 m.srcMessage, .u64 m.srcAuthor,
     .str m.srcExcerpt, .u16 m.nAttach, .str m.srcAttachName, .u8 m.srcAction]

@[simp] def decodeForward : Get Forward := do
  done { messageId := ← rU64, channelId := ← rU64, srcChannel := ← rU64, srcMessage := ← rU64, srcAuthor := ← rU64,
         srcExcerpt := ← rStr, nAttach := ← rU16, srcAttachName := ← rStr, srcAction := ← rU8 }

structure Action where
  (messageId channelId actorId : UInt64)
  actorName : Slice
  (textStart textLen : UInt32)

@[simp] def encodeAction (m : Action) : Put :=
  .frame version action.code
    [.u64 m.messageId, .u64 m.channelId, .u64 m.actorId, .str m.actorName, .u32 m.textStart, .u32 m.textLen]

@[simp] def decodeAction : Get Action := do
  done ⟨← rU64, ← rU64, ← rU64, ← rStr, ← rU32, ← rU32⟩

def unresolvedMax : UInt16 := 8
def maxDisplayName : Nat := 48

/-- `oc_slice_str`: the bytes of a `char` array before its terminator. -/
def cString (name : Slice) : Slice := name.takeWhile (· ≠ 0)

/-- The name is what the `char[OC_MAX_DISPLAY_NAME + 1]` holds before its terminator. -/
structure UnresolvedMention where
  userId : UInt64
  name : Slice

structure UnresolvedMention.Valid (e : UnresolvedMention) : Prop where
  noNul : cString e.name = e.name
  short : e.name.length ≤ maxDisplayName

def UnresolvedMention.fields (e : UnresolvedMention) : List Field := [.u64 e.userId, .str (cString e.name)]

def rUnresolvedMention : Get UnresolvedMention := do
  let userId ← rU64
  let name ← rStr
  accept { userId, name := cString (name.take maxDisplayName) }

theorem reads_unresolvedMention {e : UnresolvedMention} (valid : e.Valid) : Reads rUnresolvedMention e.fields e := by
  simp +contextual [Reads, rUnresolvedMention, UnresolvedMention.fields, valid.noNul,
    List.take_of_length_le valid.short]

structure MentionUnresolved where
  (channelId messageId : UInt64)
  (canAdd isPrivate : UInt8)
  count : UInt16
  who : List UnresolvedMention

structure MentionUnresolved.Valid (m : MentionUnresolved) : Prop where
  counted : Counted unresolvedMax.toNat m.count.toNat m.who
  names : ∀ e ∈ m.who, e.Valid

@[simp] def encodeMentionUnresolved (m : MentionUnresolved) : Put :=
  let n := clamp unresolvedMax m.count
  .frame version mentionUnresolved.code
    ([.u64 m.channelId, .u64 m.messageId, .u8 m.canAdd, .u8 m.isPrivate, .u16 n] ++
      (m.who.take n.toNat).flatMap UnresolvedMention.fields)

/-- Every entry is consumed; those past the room are dropped. -/
@[simp] def decodeMentionUnresolved : Get MentionUnresolved := do
  let channelId ← rU64
  let messageId ← rU64
  let canAdd ← rU8
  let isPrivate ← rU8
  let n ← rU16
  let who ← loop rUnresolvedMention n.toNat
  done { channelId, messageId, canAdd, isPrivate, count := clamp unresolvedMax n
         who := who.take unresolvedMax.toNat }

structure MentionUnresolvedMore where
  (channelId messageId : UInt64)
  total : UInt16

@[simp] def encodeMentionUnresolvedMore (m : MentionUnresolvedMore) : Put :=
  .frame version mentionUnresolvedMore.code [.u64 m.channelId, .u64 m.messageId, .u16 m.total]

@[simp] def decodeMentionUnresolvedMore : Get MentionUnresolvedMore := do
  done ⟨← rU64, ← rU64, ← rU16⟩

structure SetCollapsed where
  messageId : UInt64
  on : UInt8

def SetCollapsed.Valid (m : SetCollapsed) : Prop := m.on ≤ 1

@[simp] def encodeCollapsed (version type : UInt16) (m : SetCollapsed) : Put :=
  .frame version type [.u64 m.messageId, .u8 (flag m.on)]

def encodeSetCollapsed (m : SetCollapsed) : Put := encodeCollapsed version setCollapsed.code m

def encodeCollapsedUpdated (m : SetCollapsed) : Put := encodeCollapsed version collapsedUpdated.code m

@[simp] def decodeSetCollapsed : Get SetCollapsed := do
  done ⟨← rU64, ← rU8⟩

theorem collapsed_readsBack (version type : UInt16) (m : SetCollapsed) (valid : m.Valid) :
    (encodeCollapsed version type m).ReadsBack version type decodeSetCollapsed m := by
  simp +contextual [flag_of_le_one valid]

def postingCodecs : List LawfulCodec := [ .checked .send Send.Valid encodeSend decodeSend fun _ _ valid => by
    simp +contextual [on_rAttachIds _ valid],
  .checked .sendReply SendReply.Valid encodeSendReply decodeSendReply fun _ _ valid => by
    simp +contextual [on_rAttachIds _ valid],
  .plain .sendAck encodeSendAck decodeSendAck,
  .checked .broadcast Broadcast.Valid encodeBroadcast decodeBroadcast fun version =>
    broadcastAs_readsBack version _,
  .checked .msgRestored Broadcast.Valid encodeMsgRestored decodeBroadcast fun version =>
    broadcastAs_readsBack version _,
  .plain .clientAck encodeClientAck decodeClientAck,
  .plain .readCursor encodeReadCursor decodeReadCursor,
  .plain .edit encodeEdit decodeEdit,
  .plain .delete encodeDelete decodeDelete,
  .plain .restore encodeRestore decodeRestore,
  .plain .msgEdited encodeMsgEdited decodeMsgEdited,
  .plain .msgDeleted encodeMsgDeleted decodeMsgDeleted,
  .plain .react encodeReact decodeReact,
  .plain .reactionUpdated encodeReactionUpdated decodeReactionUpdated,
  .plain .listReactions encodeListReactions decodeListReactions,
  .capped .reactions Reactions.Valid encodeReactions decodeReactions fun _ _ _ valid => by
    simp +contextual [valid.whole],
  .plain .pin encodePin decodePin,
  .plain .pinUpdated encodePinUpdated decodePinUpdated,
  .plain .listPins encodeListPins decodeListPins,
  .plain .pinnedMsg encodePinnedMsg decodePinnedMsg,
  .plain .pins encodePins decodePins,
  .plain .unfurl encodeUnfurl decodeUnfurl,
  .plain .attachMediaSet encodeAttachMediaSet decodeAttachMediaSet,
  .plain .attachMediaOk encodeAttachMediaOk decodeAttachMediaOk,
  .plain .forward encodeForward decodeForward,
  .plain .action encodeAction decodeAction,
  .checked .mentionUnresolved MentionUnresolved.Valid encodeMentionUnresolved
    decodeMentionUnresolved fun _ m valid => by
    obtain ⟨counted, names⟩ := valid
    have reads : EachReads rUnresolvedMention UnresolvedMention.fields m.who := fun e member =>
      reads_unresolvedMention (names e member)
    simp +contextual [counted.u16, reads],
  .plain .mentionUnresolvedMore encodeMentionUnresolvedMore decodeMentionUnresolvedMore,
  .checked .setCollapsed SetCollapsed.Valid encodeSetCollapsed decodeSetCollapsed fun version =>
    collapsed_readsBack version _,
  .checked .collapsedUpdated SetCollapsed.Valid encodeCollapsedUpdated decodeSetCollapsed
    fun version => collapsed_readsBack version _]

end OpenChime.Wire
