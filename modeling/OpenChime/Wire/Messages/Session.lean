import OpenChime.Wire.Codec

/-! Handshake, sign-in, sessions and devices (PROTOCOL.md §3, §4). -/

set_option autoImplicit false

namespace OpenChime.Wire

open Get MsgType

structure Hello where
  (minVersion maxVersion : UInt16)
  clientInfo : Slice

@[simp] def encodeHello (m : Hello) : Put :=
  .frame handshakeVersion hello.code [.u16 m.minVersion, .u16 m.maxVersion, .str m.clientInfo]

@[simp] def decodeHello : Get Hello := do
  done ⟨← rU16, ← rU16, ← rStr⟩

structure Welcome where
  chosenVersion : UInt16
  serverTime : UInt64

@[simp] def encodeWelcome (m : Welcome) : Put :=
  .frame handshakeVersion welcome.code [.u16 m.chosenVersion, .u64 m.serverTime]

@[simp] def decodeWelcome : Get Welcome := do
  done ⟨← rU16, ← rU64⟩

structure Reject where
  code : UInt16
  message : Slice

@[simp] def encodeReject (m : Reject) : Put :=
  .frame handshakeVersion reject.code [.u16 m.code, .str m.message]

@[simp] def decodeReject : Get Reject := do
  done ⟨← rU16, ← rStr⟩

structure AuthSource where
  id : Slice
  kind : UInt8
  label : Slice

def AuthSource.fields (s : AuthSource) : List Field := [.str s.id, .u8 s.kind, .str s.label]

def rAuthSource : Get AuthSource := do
  accept ⟨← rStr, ← rU8, ← rStr⟩

@[simp] theorem reads_authSource (s : AuthSource) : Reads rAuthSource s.fields s := by
  simp +contextual [Reads, rAuthSource, AuthSource.fields]

structure AuthChallenge where
  nSources : UInt8
  sources : List AuthSource

def maxSources : UInt8 := 8

def AuthChallenge.Valid (m : AuthChallenge) : Prop := Counted maxSources.toNat m.nSources.toNat m.sources

variable (version : UInt16)

@[simp] def encodeAuthChallenge (m : AuthChallenge) : Put :=
  let n := clamp maxSources m.nSources
  .frame version authChallenge.code (.u8 n :: (m.sources.take n.toNat).flatMap AuthSource.fields)

@[simp] def decodeAuthChallenge : Get AuthChallenge := do
  let nSources ← rU8
  refuseIf (nSources > maxSources)
  let sources ← loop rAuthSource nSources.toNat
  done { nSources, sources }

structure AuthBegin where
  (source redirectUri challenge : Slice)

@[simp] def encodeAuthBegin (m : AuthBegin) : Put :=
  .frame version authBegin.code [.str m.source, .str m.redirectUri, .str m.challenge]

@[simp] def decodeAuthBegin : Get AuthBegin := do
  done ⟨← rStr, ← rStr, ← rStr⟩

structure AuthRedirect where
  authorizeUrl : Slice

@[simp] def encodeAuthRedirect (m : AuthRedirect) : Put :=
  .frame version authRedirect.code [.str m.authorizeUrl]

@[simp] def decodeAuthRedirect : Get AuthRedirect := do
  done ⟨← rStr⟩

structure AuthDeviceBegin where
  (source challenge : Slice)

@[simp] def encodeAuthDeviceBegin (m : AuthDeviceBegin) : Put :=
  .frame version authDeviceBegin.code [.str m.source, .str m.challenge]

@[simp] def decodeAuthDeviceBegin : Get AuthDeviceBegin := do
  done ⟨← rStr, ← rStr⟩

structure AuthDevice where
  (deviceCode userCode verificationPath : Slice)
  (intervalS expiresInS : UInt16)

@[simp] def encodeAuthDevice (m : AuthDevice) : Put :=
  .frame version authDevice.code
    [.str m.deviceCode, .str m.userCode, .str m.verificationPath, .u16 m.intervalS, .u16 m.expiresInS]

@[simp] def decodeAuthDevice : Get AuthDevice := do
  done ⟨← rStr, ← rStr, ← rStr, ← rU16, ← rU16⟩

structure AuthDevicePoll where
  deviceCode : Slice

@[simp] def encodeAuthDevicePoll (m : AuthDevicePoll) : Put :=
  .frame version authDevicePoll.code [.str m.deviceCode]

@[simp] def decodeAuthDevicePoll : Get AuthDevicePoll := do
  done ⟨← rStr⟩

structure AuthDeviceToken where
  token : Slice

@[simp] def encodeAuthDeviceToken (m : AuthDeviceToken) : Put :=
  checkBody m.token <| .frame version authDeviceToken.code [.lstr m.token]

@[simp] def decodeAuthDeviceToken : Get AuthDeviceToken := do
  done ⟨← rLstr⟩

structure AuthContinue where
  step : UInt8

@[simp] def encodeAuthContinue (m : AuthContinue) : Put := .frame version authContinue.code [.u8 m.step]

@[simp] def decodeAuthContinue : Get AuthContinue := do
  done ⟨← rU8⟩

structure Auth where
  method : UInt8
  (source credential proof state : Slice)

@[simp] def encodeAuth (m : Auth) : Put :=
  checkBody m.credential <| .frame version auth.code
    [.u8 m.method, .str m.source, .lstr m.credential, .str m.proof, .str m.state]

@[simp] def decodeAuth : Get Auth := do
  done ⟨← rU8, ← rStr, ← rLstr, ← rStr, ← rStr⟩

structure AuthOk where
  userId : UInt64
  role : UInt8
  sessionExpiry : UInt64
  sessionToken : Slice

@[simp] def encodeAuthOk (m : AuthOk) : Put :=
  .frame version authOk.code [.u64 m.userId, .u8 m.role, .u64 m.sessionExpiry, .bytes m.sessionToken]

@[simp] def decodeAuthOk : Get AuthOk := do
  done ⟨← rU64, ← rU8, ← rU64, ← rBytes⟩

structure WorkspaceInfo where
  deploymentMode : UInt8
  maxUsers : UInt32
  workspaceName : Slice
  (callMax mode : UInt8)
  maxVideoSize : UInt64

@[simp] def encodeWorkspaceInfo (m : WorkspaceInfo) : Put :=
  .frame version workspaceInfo.code
    [.u8 m.deploymentMode, .u32 m.maxUsers, .str m.workspaceName, .u8 m.callMax, .u8 m.mode, .u64 m.maxVideoSize]

@[simp] def decodeWorkspaceInfo : Get WorkspaceInfo := do
  done ⟨← rU8, ← rU32, ← rStr, ← rU8, ← rU8, ← rU64⟩

structure WorkspaceAddress where
  address : Slice

@[simp] def encodeWorkspaceAddress (m : WorkspaceAddress) : Put :=
  .frame version workspaceAddress.code [.str m.address]

@[simp] def decodeWorkspaceAddress : Get WorkspaceAddress := do
  done ⟨← rStr⟩

structure ServerBuild where
  build : Slice

@[simp] def encodeServerBuild (m : ServerBuild) : Put := .frame version serverBuild.code [.str m.build]

@[simp] def decodeServerBuild : Get ServerBuild := do
  done ⟨← rStr⟩

structure Logout where
  scope : UInt8
  sessionToken : Slice

@[simp] def encodeLogout (m : Logout) : Put :=
  .frame version logout.code [.u8 m.scope, .bytes m.sessionToken]

@[simp] def decodeLogout : Get Logout := do
  done ⟨← rU8, ← rBytes⟩

structure RegisterDeviceToken where
  platform : UInt8
  token : Slice

@[simp] def encodeRegisterDeviceToken (m : RegisterDeviceToken) : Put :=
  .frame version registerDeviceToken.code [.u8 m.platform, .str m.token]

@[simp] def decodeRegisterDeviceToken : Get RegisterDeviceToken := do
  done ⟨← rU8, ← rStr⟩

@[simp] def encodeUnregisterDeviceToken (token : Slice) : Put :=
  .frame version unregisterDeviceToken.code [.str token]

@[simp] def decodeUnregisterDeviceToken : Get Slice := do
  let token ← rStr
  done token

structure DeviceTokenAck where
  ok : UInt8
  code : UInt16

@[simp] def encodeDeviceTokenAck (m : DeviceTokenAck) : Put :=
  .frame version deviceTokenAck.code [.u8 m.ok, .u16 m.code]

@[simp] def decodeDeviceTokenAck : Get DeviceTokenAck := do
  done ⟨← rU8, ← rU16⟩

structure SessionEntry where
  (sessionId createdAt lastSeen expiresAt : UInt64)
  current : UInt8
  deviceLabel : Slice

def SessionEntry.fields (e : SessionEntry) : List Field :=
  [.u64 e.sessionId, .u64 e.createdAt, .u64 e.lastSeen, .u64 e.expiresAt, .u8 e.current, .str e.deviceLabel]

def rSessionEntry : Get SessionEntry := do
  accept ⟨← rU64, ← rU64, ← rU64, ← rU64, ← rU8, ← rStr⟩

@[simp] theorem reads_sessionEntry (e : SessionEntry) : Reads rSessionEntry e.fields e := by
  simp +contextual [Reads, rSessionEntry, SessionEntry.fields]

structure SessionList where
  count : UInt16
  entries : List SessionEntry

def SessionList.Valid (cap : UInt16) (m : SessionList) : Prop := Counted cap.toNat m.count.toNat m.entries

@[simp] def encodeSessionList (m : SessionList) : Put :=
  .frame version sessionList.code (.u16 m.count :: (m.entries.take m.count.toNat).flatMap SessionEntry.fields)

@[simp] def decodeSessionList (cap : UInt16) : Get SessionList := do
  let count ← rU16
  let entries ← loopOk rSessionEntry count.toNat
  done { count := clamp cap count, entries := entries.take cap.toNat }

structure RevokeSession where
  sessionId : UInt64

@[simp] def encodeRevokeSession (m : RevokeSession) : Put :=
  .frame version revokeSession.code [.u64 m.sessionId]

@[simp] def decodeRevokeSession : Get RevokeSession := do
  done ⟨← rU64⟩

structure Error where
  code : UInt16
  fatal : UInt8
  (context message : Slice)

@[simp] def encodeError (m : Error) : Put :=
  .frame version error.code [.u16 m.code, .u8 m.fatal, .bytes m.context, .str m.message]

@[simp] def decodeError : Get Error := do
  done ⟨← rU16, ← rU8, ← rBytes, ← rStr⟩

def sessionCodecs : List LawfulCodec := [ .handshake .hello encodeHello decodeHello,
  .handshake .welcome encodeWelcome decodeWelcome,
  .handshake .reject encodeReject decodeReject,
  .checked .authChallenge AuthChallenge.Valid encodeAuthChallenge decodeAuthChallenge fun _ _ valid => by
    simp +contextual [valid.u8],
  .plain .authBegin encodeAuthBegin decodeAuthBegin,
  .plain .authRedirect encodeAuthRedirect decodeAuthRedirect,
  .plain .authDeviceBegin encodeAuthDeviceBegin decodeAuthDeviceBegin,
  .plain .authDevice encodeAuthDevice decodeAuthDevice,
  .plain .authDevicePoll encodeAuthDevicePoll decodeAuthDevicePoll,
  .plain .authDeviceToken encodeAuthDeviceToken decodeAuthDeviceToken,
  .plain .authContinue encodeAuthContinue decodeAuthContinue,
  .plain .auth encodeAuth decodeAuth,
  .plain .authOk encodeAuthOk decodeAuthOk,
  .plain .workspaceInfo encodeWorkspaceInfo decodeWorkspaceInfo,
  .plain .workspaceAddress encodeWorkspaceAddress decodeWorkspaceAddress,
  .plain .serverBuild encodeServerBuild decodeServerBuild,
  .plain .logout encodeLogout decodeLogout,
  .plain .registerDeviceToken encodeRegisterDeviceToken decodeRegisterDeviceToken,
  .plain .unregisterDeviceToken encodeUnregisterDeviceToken decodeUnregisterDeviceToken,
  .plain .deviceTokenAck encodeDeviceTokenAck decodeDeviceTokenAck,
  .capped .sessionList SessionList.Valid encodeSessionList decodeSessionList fun _ _ _ valid => by
    simp +contextual [valid.u16],
  .plain .revokeSession encodeRevokeSession decodeRevokeSession,
  .plain .error encodeError decodeError]

end OpenChime.Wire
