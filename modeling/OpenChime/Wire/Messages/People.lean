import OpenChime.Wire.Codec

/-! The roster, roles, invitations, profiles, presence and custom emoji. -/

set_option autoImplicit false

namespace OpenChime.Wire

open Get MsgType

variable (version : UInt16)

@[simp] def encodeListUsers (_ : Unit) : Put := .frame version listUsers.code []

@[simp] def decodeListUsers : Get Unit := done ()

structure UserListEntry where
  userId : UInt64
  (role disabled : UInt8)
  (email displayName : Slice)
  avatarId : UInt64
  (title timezone statusEmoji statusText fullName pronouns voiceId : Slice)
  flags : UInt8

def UserListEntry.fields (e : UserListEntry) : List Field :=
  [.u64 e.userId, .u8 e.role, .u8 e.disabled, .str e.email, .str e.displayName, .u64 e.avatarId,
   .str e.title, .str e.timezone, .str e.statusEmoji, .str e.statusText, .str e.fullName,
   .str e.pronouns, .str e.voiceId, .u8 e.flags]

def rUserListEntry : Get UserListEntry := do
  let userId ← rU64
  let role ← rU8
  let disabled ← rU8
  let email ← rStr
  let displayName ← rStr
  let avatarId ← rU64
  let title ← rStr
  let timezone ← rStr
  let statusEmoji ← rStr
  let statusText ← rStr
  let fullName ← rStr
  let pronouns ← rStr
  let voiceId ← rStr
  let flags ← rU8
  accept {
    userId, role, disabled, email, displayName, avatarId, title, timezone, statusEmoji,
    statusText, fullName, pronouns, voiceId, flags }

@[simp] theorem reads_userListEntry (e : UserListEntry) : Reads rUserListEntry e.fields e := by
  simp +contextual [Reads, rUserListEntry, UserListEntry.fields]

structure UserList where
  count : UInt16
  entries : List UserListEntry

variable (cap : UInt16)

def UserList.Valid (m : UserList) : Prop := Counted cap.toNat m.count.toNat m.entries

@[simp] def encodeUserList (m : UserList) : Put :=
  .frame version userList.code (.u16 m.count :: (m.entries.take m.count.toNat).flatMap UserListEntry.fields)

@[simp] def decodeUserList : Get UserList := do
  let count ← rU16
  let entries ← loopOk rUserListEntry count.toNat
  done { count, entries := entries.take cap.toNat }

structure SetRole where
  userId : UInt64
  role : UInt8

@[simp] def encodeSetRole (m : SetRole) : Put := .frame version setRole.code [.u64 m.userId, .u8 m.role]

@[simp] def decodeSetRole : Get SetRole := do
  done ⟨← rU64, ← rU8⟩

structure InviteUser where
  role : UInt8
  email : Slice
  uses : UInt16

@[simp] def encodeInviteUser (m : InviteUser) : Put :=
  .frame version inviteUser.code [.u8 m.role, .str m.email, .u16 m.uses]

@[simp] def decodeInviteUser : Get InviteUser := do
  done ⟨← rU8, ← rStr, ← rU16⟩

structure RemoveUser where
  userId : UInt64

@[simp] def encodeRemoveUser (m : RemoveUser) : Put := .frame version removeUser.code [.u64 m.userId]

@[simp] def decodeRemoveUser : Get RemoveUser := do
  done ⟨← rU64⟩

structure ResetCredential where
  userId : UInt64
  clearFactors : UInt8

@[simp] def encodeResetCredential (m : ResetCredential) : Put :=
  .frame version resetCredential.code [.u64 m.userId, .u8 m.clearFactors]

@[simp] def decodeResetCredential : Get ResetCredential := do
  done ⟨← rU64, ← rU8⟩

structure CredentialReset where
  userId : UInt64
  token : Slice

@[simp] def encodeCredentialReset (m : CredentialReset) : Put :=
  .frame version credentialReset.code [.u64 m.userId, .str m.token]

@[simp] def decodeCredentialReset : Get CredentialReset := do
  done ⟨← rU64, ← rStr⟩

structure EnableUser where
  userId : UInt64

@[simp] def encodeEnableUser (m : EnableUser) : Put := .frame version enableUser.code [.u64 m.userId]

@[simp] def decodeEnableUser : Get EnableUser := do
  done ⟨← rU64⟩

structure GetProfile where
  userId : UInt64

@[simp] def encodeGetProfile (m : GetProfile) : Put := .frame version getProfile.code [.u64 m.userId]

@[simp] def decodeGetProfile : Get GetProfile := do
  done ⟨← rU64⟩

structure SetEmail where
  email : Slice

@[simp] def encodeSetEmail (m : SetEmail) : Put := .frame version setEmail.code [.str m.email]

@[simp] def decodeSetEmail : Get SetEmail := do
  done ⟨← rStr⟩

structure UserUpdated where
  userId : UInt64
  (role disabled : UInt8)

@[simp] def encodeUserUpdated (m : UserUpdated) : Put :=
  .frame version userUpdated.code [.u64 m.userId, .u8 m.role, .u8 m.disabled]

@[simp] def decodeUserUpdated : Get UserUpdated := do
  done ⟨← rU64, ← rU8, ← rU8⟩

structure InviteCreated where
  token : Slice
  role : UInt8
  expiresAt : UInt64
  uses : UInt16

@[simp] def encodeInviteCreated (m : InviteCreated) : Put :=
  .frame version inviteCreated.code [.bytes m.token, .u8 m.role, .u64 m.expiresAt, .u16 m.uses]

@[simp] def decodeInviteCreated : Get InviteCreated := do
  done ⟨← rBytes, ← rU8, ← rU64, ← rU16⟩

structure InviteEntry where
  inviteId : UInt64
  role : UInt8
  (createdAt expiresAt createdBy : UInt64)
  (uses used : UInt16)

def InviteEntry.fields (e : InviteEntry) : List Field :=
  [.u64 e.inviteId, .u8 e.role, .u64 e.createdAt, .u64 e.expiresAt, .u64 e.createdBy, .u16 e.uses, .u16 e.used]

def rInviteEntry : Get InviteEntry := do
  accept ⟨← rU64, ← rU8, ← rU64, ← rU64, ← rU64, ← rU16, ← rU16⟩

@[simp] theorem reads_inviteEntry (e : InviteEntry) : Reads rInviteEntry e.fields e := by
  simp +contextual [Reads, rInviteEntry, InviteEntry.fields]

structure InviteList where
  count : UInt16
  entries : List InviteEntry

def InviteList.Valid (m : InviteList) : Prop := Counted cap.toNat m.count.toNat m.entries

@[simp] def encodeInviteList (m : InviteList) : Put :=
  .frame version inviteList.code (.u16 m.count :: (m.entries.take m.count.toNat).flatMap InviteEntry.fields)

@[simp] def decodeInviteList : Get InviteList := do
  let count ← rU16
  let entries ← loopOk rInviteEntry count.toNat
  done { count := clamp cap count, entries := entries.take cap.toNat }

structure RevokeInvite where
  inviteId : UInt64

@[simp] def encodeRevokeInvite (m : RevokeInvite) : Put :=
  .frame version revokeInvite.code [.u64 m.inviteId]

@[simp] def decodeRevokeInvite : Get RevokeInvite := do
  done ⟨← rU64⟩

@[simp] def encodeInviteRevoked (m : RevokeInvite) : Put :=
  .frame version inviteRevoked.code [.u64 m.inviteId]

@[simp] def decodeInviteRevoked : Get RevokeInvite := do
  done ⟨← rU64⟩

structure SetDisplayName where
  name : Slice

@[simp] def encodeSetDisplayName (m : SetDisplayName) : Put :=
  .frame version setDisplayName.code [.str m.name]

@[simp] def decodeSetDisplayName : Get SetDisplayName := do
  done ⟨← rStr⟩

structure ProfileUpdated where
  userId : UInt64
  displayName : Slice

@[simp] def encodeProfileUpdated (m : ProfileUpdated) : Put :=
  .frame version profileUpdated.code [.u64 m.userId, .str m.displayName]

@[simp] def decodeProfileUpdated : Get ProfileUpdated := do
  done ⟨← rU64, ← rStr⟩

structure SetStatus where
  (emoji text : Slice)
  expiresAt : UInt64

@[simp] def encodeSetStatus (m : SetStatus) : Put :=
  .frame version setStatus.code [.str m.emoji, .str m.text, .u64 m.expiresAt]

@[simp] def decodeSetStatus : Get SetStatus := do
  done ⟨← rStr, ← rStr, ← rU64⟩

structure SetProfile where
  (fullName title pronouns phone timezone voiceId : Slice)

@[simp] def encodeSetProfile (m : SetProfile) : Put :=
  .frame version setProfile.code
    [.str m.fullName, .str m.title, .str m.pronouns, .str m.phone, .str m.timezone, .str m.voiceId]

@[simp] def decodeSetProfile : Get SetProfile := do
  done ⟨← rStr, ← rStr, ← rStr, ← rStr, ← rStr, ← rStr⟩

structure ProfileInfo where
  userId : UInt64
  (displayName email statusEmoji statusText : Slice)
  statusExpires : UInt64
  (title timezone : Slice)
  avatarId : UInt64
  role : UInt8
  (fullName pronouns phone voiceId : Slice)

@[simp] def encodeProfileInfo (m : ProfileInfo) : Put :=
  .frame version profileInfo.code
    [.u64 m.userId, .str m.displayName, .str m.email, .str m.statusEmoji, .str m.statusText,
     .u64 m.statusExpires, .str m.title, .str m.timezone, .u64 m.avatarId, .u8 m.role,
     .str m.fullName, .str m.pronouns, .str m.phone, .str m.voiceId]

@[simp] def decodeProfileInfo : Get ProfileInfo := do
  let userId ← rU64
  let displayName ← rStr
  let email ← rStr
  let statusEmoji ← rStr
  let statusText ← rStr
  let statusExpires ← rU64
  let title ← rStr
  let timezone ← rStr
  let avatarId ← rU64
  let role ← rU8
  let fullName ← rStr
  let pronouns ← rStr
  let phone ← rStr
  let voiceId ← rStr
  done {
    userId, displayName, email, statusEmoji, statusText, statusExpires, title, timezone, avatarId,
    role, fullName, pronouns, phone, voiceId }

structure SetAvatar where
  attachmentId : UInt64

@[simp] def encodeSetAvatar (m : SetAvatar) : Put := .frame version setAvatar.code [.u64 m.attachmentId]

@[simp] def decodeSetAvatar : Get SetAvatar := do
  done ⟨← rU64⟩

structure SetPresence where
  status : UInt8

@[simp] def encodeSetPresence (m : SetPresence) : Put := .frame version setPresence.code [.u8 m.status]

@[simp] def decodeSetPresence : Get SetPresence := do
  done ⟨← rU8⟩

structure PresenceUpdate where
  userId : UInt64
  (status dnd : UInt8)

@[simp] def encodePresenceUpdate (m : PresenceUpdate) : Put :=
  .frame version presenceUpdate.code [.u64 m.userId, .u8 m.status, .u8 m.dnd]

@[simp] def decodePresenceUpdate : Get PresenceUpdate := do
  done ⟨← rU64, ← rU8, ← rU8⟩

structure Typing where
  channelId : UInt64

@[simp] def encodeTyping (m : Typing) : Put := .frame version typing.code [.u64 m.channelId]

@[simp] def decodeTyping : Get Typing := do
  done ⟨← rU64⟩

structure TypingUpdate where
  (channelId userId : UInt64)

@[simp] def encodeTypingUpdate (m : TypingUpdate) : Put :=
  .frame version typingUpdate.code [.u64 m.channelId, .u64 m.userId]

@[simp] def decodeTypingUpdate : Get TypingUpdate := do
  done ⟨← rU64, ← rU64⟩

structure AddEmoji where
  name : Slice
  attachmentId : UInt64

@[simp] def encodeAddEmoji (m : AddEmoji) : Put :=
  .frame version addEmoji.code [.str m.name, .u64 m.attachmentId]

@[simp] def decodeAddEmoji : Get AddEmoji := do
  done ⟨← rStr, ← rU64⟩

structure DeleteEmoji where
  name : Slice

@[simp] def encodeDeleteEmoji (m : DeleteEmoji) : Put := .frame version deleteEmoji.code [.str m.name]

@[simp] def decodeDeleteEmoji : Get DeleteEmoji := do
  done ⟨← rStr⟩

@[simp] def encodeListEmoji (_ : Unit) : Put := .frame version listEmoji.code []

@[simp] def decodeListEmoji : Get Unit := done ()

structure EmojiEntry where
  name : Slice
  (attachmentId createdBy : UInt64)

def EmojiEntry.fields (e : EmojiEntry) : List Field := [.str e.name, .u64 e.attachmentId, .u64 e.createdBy]

def rEmojiEntry : Get EmojiEntry := do
  accept ⟨← rStr, ← rU64, ← rU64⟩

@[simp] theorem reads_emojiEntry (e : EmojiEntry) : Reads rEmojiEntry e.fields e := by
  simp +contextual [Reads, rEmojiEntry, EmojiEntry.fields]

structure EmojiList where
  count : UInt16
  entries : List EmojiEntry

def EmojiList.Valid (m : EmojiList) : Prop := Counted cap.toNat m.count.toNat m.entries

@[simp] def encodeEmojiList (m : EmojiList) : Put :=
  .frame version emojiList.code (.u16 m.count :: (m.entries.take m.count.toNat).flatMap EmojiEntry.fields)

@[simp] def decodeEmojiList : Get EmojiList := do
  let count ← rU16
  let entries ← loopOk rEmojiEntry count.toNat
  done { count, entries := entries.take cap.toNat }

def peopleCodecs : List LawfulCodec := [ .plain .listUsers encodeListUsers decodeListUsers,
  .capped .userList UserList.Valid encodeUserList decodeUserList fun _ _ _ valid => by
    simp +contextual [valid.whole],
  .plain .setRole encodeSetRole decodeSetRole,
  .plain .inviteUser encodeInviteUser decodeInviteUser,
  .plain .removeUser encodeRemoveUser decodeRemoveUser,
  .plain .resetCredential encodeResetCredential decodeResetCredential,
  .plain .credentialReset encodeCredentialReset decodeCredentialReset,
  .plain .enableUser encodeEnableUser decodeEnableUser,
  .plain .getProfile encodeGetProfile decodeGetProfile,
  .plain .setEmail encodeSetEmail decodeSetEmail,
  .plain .userUpdated encodeUserUpdated decodeUserUpdated,
  .plain .inviteCreated encodeInviteCreated decodeInviteCreated,
  .capped .inviteList InviteList.Valid encodeInviteList decodeInviteList fun _ _ _ valid => by
    simp +contextual [valid.u16],
  .plain .revokeInvite encodeRevokeInvite decodeRevokeInvite,
  .plain .inviteRevoked encodeInviteRevoked decodeInviteRevoked,
  .plain .setDisplayName encodeSetDisplayName decodeSetDisplayName,
  .plain .profileUpdated encodeProfileUpdated decodeProfileUpdated,
  .plain .setStatus encodeSetStatus decodeSetStatus,
  .plain .setProfile encodeSetProfile decodeSetProfile,
  .plain .profileInfo encodeProfileInfo decodeProfileInfo,
  .plain .setAvatar encodeSetAvatar decodeSetAvatar,
  .plain .setPresence encodeSetPresence decodeSetPresence,
  .plain .presenceUpdate encodePresenceUpdate decodePresenceUpdate,
  .plain .typing encodeTyping decodeTyping,
  .plain .typingUpdate encodeTypingUpdate decodeTypingUpdate,
  .plain .addEmoji encodeAddEmoji decodeAddEmoji,
  .plain .deleteEmoji encodeDeleteEmoji decodeDeleteEmoji,
  .plain .listEmoji encodeListEmoji decodeListEmoji,
  .capped .emojiList EmojiList.Valid encodeEmojiList decodeEmojiList fun _ _ _ valid => by
    simp +contextual [valid.whole]]

end OpenChime.Wire
