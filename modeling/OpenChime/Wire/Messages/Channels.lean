import OpenChime.Wire.Codec

/-! Channels, their members and groups, and webhooks. -/

set_option autoImplicit false

namespace OpenChime.Wire

open Get MsgType

structure CreateChannel where
  name : Slice
  isPublic : UInt8

variable (version : UInt16)

@[simp] def encodeCreateChannel (m : CreateChannel) : Put :=
  .frame version createChannel.code [.str m.name, .u8 m.isPublic]

@[simp] def decodeCreateChannel : Get CreateChannel := do
  done ⟨← rStr, ← rU8⟩

structure UpdateChannel where
  channelId : UInt64
  op : UInt8
  value : Slice

@[simp] def encodeUpdateChannel (m : UpdateChannel) : Put :=
  .frame version updateChannel.code [.u64 m.channelId, .u8 m.op, .str m.value]

@[simp] def decodeUpdateChannel : Get UpdateChannel := do
  done ⟨← rU64, ← rU8, ← rStr⟩

def maxGroupDm : UInt16 := 8

structure ChannelInfo where
  channelId : UInt64
  kind : UInt8
  name : Slice
  (isPublic joined : UInt8)
  (createdAt peerId : UInt64)
  topic : Slice
  archived : UInt8
  nPeers : UInt16
  peers : List UInt64
  e2e : UInt8

def ChannelInfo.Valid (m : ChannelInfo) : Prop := Counted (maxGroupDm + 1).toNat m.nPeers.toNat m.peers

@[simp] def encodeChannelInfo (m : ChannelInfo) : Put :=
  let np := clamp (maxGroupDm + 1) m.nPeers
  .frame version channelInfo.code
    ([.u64 m.channelId, .u8 m.kind, .str m.name, .u8 m.isPublic, .u8 m.joined, .u64 m.createdAt,
      .u64 m.peerId, .str m.topic, .u8 m.archived, .u16 np] ++
      ((m.peers.take np.toNat).flatMap fun peer => [.u64 peer]) ++ [.u8 m.e2e])

@[simp] def decodeChannelInfo : Get ChannelInfo := do
  let channelId ← rU64
  let kind ← rU8
  let name ← rStr
  let isPublic ← rU8
  let joined ← rU8
  let createdAt ← rU64
  let peerId ← rU64
  let topic ← rStr
  let archived ← rU8
  let nPeers ← rU16
  refuseIf (nPeers > maxGroupDm + 1)
  let peers ← loop rU64 nPeers.toNat
  let e2e ← rU8
  done { channelId, kind, name, isPublic, joined, createdAt, peerId, topic, archived, nPeers, peers
         e2e }

@[simp] def encodeListChannels (_ : Unit) : Put := .frame version listChannels.code []

@[simp] def decodeListChannels : Get Unit := done ()

structure ChannelListEntry where
  channelId : UInt64
  name : Slice
  (isPublic joined kind : UInt8)
  lastMessageAt : UInt64
  unread : UInt32
  peerId : UInt64
  topic : Slice
  archived : UInt8
  createdAt : UInt64
  preview : Slice
  previewAuthor : UInt64
  previewAction : UInt8
  nPeers : UInt16
  peers : List UInt64
  e2e : UInt8

def ChannelListEntry.Valid (e : ChannelListEntry) : Prop := Counted (maxGroupDm + 1).toNat e.nPeers.toNat e.peers

def ChannelListEntry.fields (e : ChannelListEntry) : List Field :=
  let np := clamp (maxGroupDm + 1) e.nPeers
  [.u64 e.channelId, .str e.name, .u8 e.isPublic, .u8 e.joined, .u8 e.kind, .u64 e.lastMessageAt,
    .u32 e.unread, .u64 e.peerId, .str e.topic, .u8 e.archived, .u64 e.createdAt, .str e.preview,
    .u64 e.previewAuthor, .u8 e.previewAction, .u16 np] ++
    ((e.peers.take np.toNat).flatMap fun peer => [.u64 peer]) ++ [.u8 e.e2e]

def rChannelListEntry : Get ChannelListEntry := do
  let channelId ← rU64
  let name ← rStr
  let isPublic ← rU8
  let joined ← rU8
  let kind ← rU8
  let lastMessageAt ← rU64
  let unread ← rU32
  let peerId ← rU64
  let topic ← rStr
  let archived ← rU8
  let createdAt ← rU64
  let preview ← rStr
  let previewAuthor ← rU64
  let previewAction ← rU8
  let nPeers ← rU16
  refuseIf (nPeers > maxGroupDm + 1)
  let peers ← loop rU64 nPeers.toNat
  let e2e ← rU8
  accept { channelId, name, isPublic, joined, kind, lastMessageAt, unread, peerId, topic, archived
           createdAt, preview, previewAuthor, previewAction, nPeers, peers, e2e }

theorem reads_channelListEntry {e : ChannelListEntry} (valid : e.Valid) : Reads rChannelListEntry e.fields e := by
  intro fits rest
  simp [ChannelListEntry.fields, valid.u16] at fits
  simp [rChannelListEntry, ChannelListEntry.fields, valid.u16, fits]

structure ChannelList where
  count : UInt16
  entries : List ChannelListEntry

structure ChannelList.Valid (cap : UInt16) (m : ChannelList) : Prop where
  counted : Counted cap.toNat m.count.toNat m.entries
  entries : ∀ e ∈ m.entries, e.Valid

@[simp] def encodeChannelList (m : ChannelList) : Put :=
  .frame version channelList.code (.u16 m.count :: (m.entries.take m.count.toNat).flatMap ChannelListEntry.fields)

variable (cap : UInt16)

@[simp] def decodeChannelList : Get ChannelList := do
  let count ← rU16
  let entries ← loopOk rChannelListEntry count.toNat
  done { count, entries := entries.take cap.toNat }

structure GetChannelDescription where
  channelId : UInt64

@[simp] def encodeGetChannelDescription (m : GetChannelDescription) : Put :=
  .frame version getChannelDescription.code [.u64 m.channelId]

@[simp] def decodeGetChannelDescription : Get GetChannelDescription := do
  done ⟨← rU64⟩

structure ChannelDescription where
  channelId : UInt64
  description : Slice

@[simp] def encodeChannelDescription (m : ChannelDescription) : Put :=
  .frame version channelDescription.code [.u64 m.channelId, .str m.description]

@[simp] def decodeChannelDescription : Get ChannelDescription := do
  done ⟨← rU64, ← rStr⟩

structure ChannelRef where
  channelId : UInt64

@[simp] def encodeJoinChannel (m : ChannelRef) : Put :=
  .frame version joinChannel.code [.u64 m.channelId]

@[simp] def decodeJoinChannel : Get ChannelRef := do
  done ⟨← rU64⟩

@[simp] def encodeLeaveChannel (m : ChannelRef) : Put :=
  .frame version leaveChannel.code [.u64 m.channelId]

@[simp] def decodeLeaveChannel : Get ChannelRef := do
  done ⟨← rU64⟩

structure ChannelMemberOp where
  (channelId userId : UInt64)

@[simp] def encodeInviteToChannel (m : ChannelMemberOp) : Put :=
  .frame version inviteToChannel.code [.u64 m.channelId, .u64 m.userId]

@[simp] def decodeInviteToChannel : Get ChannelMemberOp := do
  done ⟨← rU64, ← rU64⟩

@[simp] def encodeRemoveFromChannel (m : ChannelMemberOp) : Put :=
  .frame version removeFromChannel.code [.u64 m.channelId, .u64 m.userId]

@[simp] def decodeRemoveFromChannel : Get ChannelMemberOp := do
  done ⟨← rU64, ← rU64⟩

structure ListMembers where
  channelId : UInt64

@[simp] def encodeListMembers (m : ListMembers) : Put :=
  .frame version listMembers.code [.u64 m.channelId]

@[simp] def decodeListMembers : Get ListMembers := do
  done ⟨← rU64⟩

structure MemberEntry where
  (channelId userId : UInt64)
  role : UInt8
  joinedAt : UInt64

@[simp] def encodeMemberEntry (m : MemberEntry) : Put :=
  .frame version memberEntry.code [.u64 m.channelId, .u64 m.userId, .u8 m.role, .u64 m.joinedAt]

@[simp] def decodeMemberEntry : Get MemberEntry := do
  done ⟨← rU64, ← rU64, ← rU8, ← rU64⟩

structure Members where
  channelId : UInt64
  count : UInt32

@[simp] def encodeMembers (m : Members) : Put :=
  .frame version members.code [.u64 m.channelId, .u32 m.count]

@[simp] def decodeMembers : Get Members := do
  done ⟨← rU64, ← rU32⟩

structure OpenDm where
  userId : UInt64

@[simp] def encodeOpenDm (m : OpenDm) : Put := .frame version openDm.code [.u64 m.userId]

@[simp] def decodeOpenDm : Get OpenDm := do
  done ⟨← rU64⟩

structure OpenGroupDm where
  count : UInt16
  userIds : List UInt64

def OpenGroupDm.Valid (m : OpenGroupDm) : Prop := Counted maxGroupDm.toNat m.count.toNat m.userIds

@[simp] def encodeOpenGroupDm (m : OpenGroupDm) : Put :=
  let n := clamp maxGroupDm m.count
  .frame version openGroupDm.code (.u16 n :: (m.userIds.take n.toNat).flatMap fun id => [.u64 id])

@[simp] def decodeOpenGroupDm : Get OpenGroupDm := do
  let count ← rU16
  refuseIf (count > maxGroupDm)
  let userIds ← loop rU64 count.toNat
  done { count, userIds }

structure CreateWebhook where
  channelId : UInt64
  label : Slice

@[simp] def encodeCreateWebhook (m : CreateWebhook) : Put :=
  .frame version createWebhook.code [.u64 m.channelId, .str m.label]

@[simp] def decodeCreateWebhook : Get CreateWebhook := do
  done ⟨← rU64, ← rStr⟩

structure WebhookInfo where
  (webhookId channelId : UInt64)
  token : Slice

@[simp] def encodeWebhookInfo (m : WebhookInfo) : Put :=
  .frame version webhookInfo.code [.u64 m.webhookId, .u64 m.channelId, .bytes m.token]

@[simp] def decodeWebhookInfo : Get WebhookInfo := do
  done ⟨← rU64, ← rU64, ← rBytes⟩

structure ListWebhooks where
  channelId : UInt64

@[simp] def encodeListWebhooks (m : ListWebhooks) : Put :=
  .frame version listWebhooks.code [.u64 m.channelId]

@[simp] def decodeListWebhooks : Get ListWebhooks := do
  done ⟨← rU64⟩

structure WebhookListEntry where
  (webhookId channelId : UInt64)
  label : Slice
  disabled : UInt8

def WebhookListEntry.fields (e : WebhookListEntry) : List Field :=
  [.u64 e.webhookId, .u64 e.channelId, .str e.label, .u8 e.disabled]

def rWebhookListEntry : Get WebhookListEntry := do
  accept ⟨← rU64, ← rU64, ← rStr, ← rU8⟩

@[simp] theorem reads_webhookListEntry (e : WebhookListEntry) : Reads rWebhookListEntry e.fields e := by
  simp +contextual [Reads, rWebhookListEntry, WebhookListEntry.fields]

structure WebhookList where
  count : UInt16
  entries : List WebhookListEntry

def WebhookList.Valid (m : WebhookList) : Prop := Counted cap.toNat m.count.toNat m.entries

@[simp] def encodeWebhookList (m : WebhookList) : Put :=
  .frame version webhookList.code (.u16 m.count :: (m.entries.take m.count.toNat).flatMap WebhookListEntry.fields)

@[simp] def decodeWebhookList : Get WebhookList := do
  let count ← rU16
  let entries ← loopOk rWebhookListEntry count.toNat
  done { count, entries := entries.take cap.toNat }

structure DeleteWebhook where
  webhookId : UInt64

@[simp] def encodeDeleteWebhook (m : DeleteWebhook) : Put :=
  .frame version deleteWebhook.code [.u64 m.webhookId]

@[simp] def decodeDeleteWebhook : Get DeleteWebhook := do
  done ⟨← rU64⟩

structure WebhookDeleted where
  webhookId : UInt64

@[simp] def encodeWebhookDeleted (m : WebhookDeleted) : Put :=
  .frame version webhookDeleted.code [.u64 m.webhookId]

@[simp] def decodeWebhookDeleted : Get WebhookDeleted := do
  done ⟨← rU64⟩

structure SetWebhookState where
  webhookId : UInt64
  disabled : UInt8

@[simp] def encodeSetWebhookState (m : SetWebhookState) : Put :=
  .frame version setWebhookState.code [.u64 m.webhookId, .u8 m.disabled]

@[simp] def decodeSetWebhookState : Get SetWebhookState := do
  done ⟨← rU64, ← rU8⟩

structure RotateWebhook where
  webhookId : UInt64

@[simp] def encodeRotateWebhook (m : RotateWebhook) : Put :=
  .frame version rotateWebhook.code [.u64 m.webhookId]

@[simp] def decodeRotateWebhook : Get RotateWebhook := do
  done ⟨← rU64⟩

@[simp] def encodeListGroups (_ : Unit) : Put := .frame version listGroups.code []

@[simp] def decodeListGroups : Get Unit := done ()

structure CreateGroup where
  (handle name description : Slice)

@[simp] def encodeCreateGroup (m : CreateGroup) : Put :=
  .frame version createGroup.code [.str m.handle, .str m.name, .str m.description]

@[simp] def decodeCreateGroup : Get CreateGroup := do
  done ⟨← rStr, ← rStr, ← rStr⟩

structure UpdateGroup where
  groupId : UInt64
  (handle name description : Slice)

@[simp] def encodeUpdateGroup (m : UpdateGroup) : Put :=
  .frame version updateGroup.code [.u64 m.groupId, .str m.handle, .str m.name, .str m.description]

@[simp] def decodeUpdateGroup : Get UpdateGroup := do
  done ⟨← rU64, ← rStr, ← rStr, ← rStr⟩

structure GroupRef where
  groupId : UInt64

@[simp] def encodeDeleteGroup (m : GroupRef) : Put := .frame version deleteGroup.code [.u64 m.groupId]

@[simp] def decodeGroupRef : Get GroupRef := do
  done ⟨← rU64⟩

@[simp] def encodeGroupDeleted (m : GroupRef) : Put := .frame version groupDeleted.code [.u64 m.groupId]

def maxGroupOp : UInt16 := 256
def maxGroupMembers : UInt16 := 1024
def maxChannelGroups : UInt16 := 32
def maxMemberList : UInt16 := 500

structure GroupMembersOp where
  groupId : UInt64
  count : UInt16
  userIds : List UInt64

def GroupMembersOp.Valid (m : GroupMembersOp) : Prop := Counted maxGroupOp.toNat m.count.toNat m.userIds

@[simp] def encodeGroupMembersOp (version type : UInt16) (m : GroupMembersOp) : Put :=
  if type ≠ groupAddMembers.code ∧ type ≠ groupRemoveMembers.code then
    .refuse .malformed
  else if m.count > maxGroupOp then .refuse .malformed
  else .frame version type (.u64 m.groupId :: .u16 m.count ::
      (m.userIds.take m.count.toNat).flatMap fun id => [.u64 id])

@[simp] def decodeGroupMembersOp : Get GroupMembersOp := do
  let groupId ← rU64
  let count ← rU16
  refuseIf (count > maxGroupOp)
  let userIds ← loop rU64 count.toNat
  done { groupId, count, userIds }

structure GroupInfo where
  groupId : UInt64
  (handle name description : Slice)
  createdBy : UInt64
  count : UInt16
  members : List UInt64

structure GroupInfo.Valid (cap : UInt16) (m : GroupInfo) : Prop where
  counted : Counted cap.toNat m.count.toNat m.members
  limit : m.count ≤ maxGroupMembers

@[simp] def encodeGroupInfo (m : GroupInfo) : Put :=
  if m.count > maxGroupMembers then .refuse .malformed
  else .frame version groupInfo.code
    ([.u64 m.groupId, .str m.handle, .str m.name, .str m.description, .u64 m.createdBy,
      .u16 m.count] ++ (m.members.take m.count.toNat).flatMap fun id => [.u64 id])

@[simp] def decodeGroupInfo : Get GroupInfo := do
  let groupId ← rU64
  let handle ← rStr
  let name ← rStr
  let description ← rStr
  let createdBy ← rU64
  let count ← rU16
  refuseIf (count > cap ∨ count > maxGroupMembers)
  let members ← loop rU64 count.toNat
  done { groupId, handle, name, description, createdBy, count, members }

structure ChannelGroupOp where
  (channelId groupId : UInt64)

@[simp] def encodeChannelGroupOp (version type : UInt16) (m : ChannelGroupOp) : Put :=
  if type ≠ channelAddGroup.code ∧ type ≠ channelRemoveGroup.code then
    .refuse .malformed
  else .frame version type [.u64 m.channelId, .u64 m.groupId]

@[simp] def decodeChannelGroupOp : Get ChannelGroupOp := do
  done ⟨← rU64, ← rU64⟩

/-- CHANNEL_GROUPS and CHANNEL_VIA_GROUP: the ids under one channel, refused past a limit at
either end. -/
@[simp] def encodeChannelIds (type : MsgType) (limit version : UInt16) (channelId : UInt64) (count : UInt16)
    (ids : List UInt64) : Put :=
  if count > limit then .refuse .malformed
  else .frame version type.code (.u64 channelId :: .u16 count :: (ids.take count.toNat).flatMap fun id => [.u64 id])

@[simp] def decodeChannelIds {M : Type} (limit cap : UInt16) (finish : UInt64 → UInt16 → List UInt64 → M) : Get M := do
  let channelId ← rU64
  let count ← rU16
  refuseIf (count > cap ∨ count > limit)
  let ids ← loop rU64 count.toNat
  done (finish channelId count ids)

theorem channelIds_readsBack {M : Type} (type : MsgType) {limit cap : UInt16} (version : UInt16)
    (finish : UInt64 → UInt16 → List UInt64 → M) (channelId : UInt64) {count : UInt16}
    {ids : List UInt64} (counted : Counted cap.toNat count.toNat ids) (small : count ≤ limit) :
    (encodeChannelIds type limit version channelId count ids).ReadsBack version type.code
      (decodeChannelIds limit cap finish) (finish channelId count ids) := by
  simp +contextual [counted.u16, small]

structure ChannelGroups where
  channelId : UInt64
  count : UInt16
  groupIds : List UInt64

structure ChannelGroups.Valid (cap : UInt16) (m : ChannelGroups) : Prop where
  counted : Counted cap.toNat m.count.toNat m.groupIds
  limit : m.count ≤ maxChannelGroups

def encodeChannelGroups (m : ChannelGroups) : Put :=
  encodeChannelIds .channelGroups maxChannelGroups version m.channelId m.count m.groupIds

def decodeChannelGroups : Get ChannelGroups := decodeChannelIds maxChannelGroups cap .mk

structure ChannelViaGroup where
  channelId : UInt64
  count : UInt16
  userIds : List UInt64

structure ChannelViaGroup.Valid (cap : UInt16) (m : ChannelViaGroup) : Prop where
  counted : Counted cap.toNat m.count.toNat m.userIds
  limit : m.count ≤ maxMemberList

def encodeChannelViaGroup (m : ChannelViaGroup) : Put :=
  encodeChannelIds .channelViaGroup maxMemberList version m.channelId m.count m.userIds

def decodeChannelViaGroup : Get ChannelViaGroup := decodeChannelIds maxMemberList cap .mk

structure GroupsEnd where
  count : UInt16

@[simp] def encodeGroupsEnd (m : GroupsEnd) : Put := .frame version groupsEnd.code [.u16 m.count]

@[simp] def decodeGroupsEnd : Get GroupsEnd := do
  done ⟨← rU16⟩

def channelCodecs : List LawfulCodec := [ .plain .createChannel encodeCreateChannel decodeCreateChannel,
  .plain .updateChannel encodeUpdateChannel decodeUpdateChannel,
  .checked .channelInfo ChannelInfo.Valid encodeChannelInfo decodeChannelInfo fun _ _ valid => by
    simp +contextual [valid.u16],
  .plain .listChannels encodeListChannels decodeListChannels,
  .capped .channelList ChannelList.Valid encodeChannelList decodeChannelList fun _ _ m valid => by
    obtain ⟨counted, entries⟩ := valid
    have reads : EachReads rChannelListEntry ChannelListEntry.fields m.entries := fun e member =>
      reads_channelListEntry (entries e member)
    simp +contextual [counted.whole, reads],
  .plain .getChannelDescription encodeGetChannelDescription decodeGetChannelDescription,
  .plain .channelDescription encodeChannelDescription decodeChannelDescription,
  .plain .joinChannel encodeJoinChannel decodeJoinChannel,
  .plain .leaveChannel encodeLeaveChannel decodeLeaveChannel,
  .plain .inviteToChannel encodeInviteToChannel decodeInviteToChannel,
  .plain .removeFromChannel encodeRemoveFromChannel decodeRemoveFromChannel,
  .plain .listMembers encodeListMembers decodeListMembers,
  .plain .memberEntry encodeMemberEntry decodeMemberEntry,
  .plain .members encodeMembers decodeMembers,
  .plain .openDm encodeOpenDm decodeOpenDm,
  .checked .openGroupDm OpenGroupDm.Valid encodeOpenGroupDm decodeOpenGroupDm fun _ _ valid => by
    simp +contextual [valid.u16],
  .plain .createWebhook encodeCreateWebhook decodeCreateWebhook,
  .plain .webhookInfo encodeWebhookInfo decodeWebhookInfo,
  .plain .listWebhooks encodeListWebhooks decodeListWebhooks,
  .capped .webhookList WebhookList.Valid encodeWebhookList decodeWebhookList fun _ _ _ valid => by
    simp +contextual [valid.whole],
  .plain .deleteWebhook encodeDeleteWebhook decodeDeleteWebhook,
  .plain .webhookDeleted encodeWebhookDeleted decodeWebhookDeleted,
  .plain .setWebhookState encodeSetWebhookState decodeSetWebhookState,
  .plain .rotateWebhook encodeRotateWebhook decodeRotateWebhook,
  .plain .listGroups encodeListGroups decodeListGroups,
  .plain .createGroup encodeCreateGroup decodeCreateGroup,
  .plain .updateGroup encodeUpdateGroup decodeUpdateGroup,
  .plain .deleteGroup encodeDeleteGroup decodeGroupRef,
  .plain .groupDeleted encodeGroupDeleted decodeGroupRef,
  .typed GroupMembersOp.Valid encodeGroupMembersOp decodeGroupMembersOp fun _ _ _ valid => by
    simp +contextual [valid.u16],
  .capped .groupInfo GroupInfo.Valid encodeGroupInfo decodeGroupInfo fun _ _ _ valid => by
    obtain ⟨counted, limit⟩ := valid
    simp +contextual [counted.u16, limit],
  .typed (fun _ => True) encodeChannelGroupOp decodeChannelGroupOp (by simp +contextual),
  .capped .channelGroups ChannelGroups.Valid encodeChannelGroups decodeChannelGroups fun _ version m valid => by
    exact channelIds_readsBack .channelGroups version ChannelGroups.mk m.channelId valid.counted valid.limit,
  .capped .channelViaGroup ChannelViaGroup.Valid encodeChannelViaGroup decodeChannelViaGroup fun _ version m valid => by
    exact channelIds_readsBack .channelViaGroup version ChannelViaGroup.mk m.channelId valid.counted valid.limit,
  .plain .groupsEnd encodeGroupsEnd decodeGroupsEnd]

end OpenChime.Wire
