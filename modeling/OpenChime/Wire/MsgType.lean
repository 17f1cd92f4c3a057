import OpenChime.Wire.Frame

/-! The message types of the wire (PROTOCOL.md §9) and their codes. -/

set_option autoImplicit false

namespace OpenChime.Wire

inductive MsgType where
  | hello | welcome | reject | auth | authOk | authChallenge | logout | workspaceInfo | authBegin
  | authRedirect | authContinue | authDeviceBegin | authDevice | authDevicePoll | authDeviceToken
  | workspaceAddress | resetCredential | credentialReset | enableUser | send | sendAck | broadcast
  | clientAck | edit | delete | msgEdited | msgDeleted | react | reactionUpdated | listReactions
  | reactions | sendReply | threadReply | listThread | thread | threadMeta | readCursor
  | historyRequest | historyAround | pin | pinUpdated | listPins | pinnedMsg | pins | listMembers
  | memberEntry | members | listFiles | fileEntry | files | createChannel | channelInfo
  | listChannels | channelList | joinChannel | leaveChannel | inviteToChannel | removeFromChannel
  | openDm | createWebhook | webhookInfo | listWebhooks | webhookList | deleteWebhook
  | webhookDeleted | updateChannel | setNotifyDefault | setAvatar | openGroupDm | addEmoji
  | deleteEmoji | listEmoji | emojiList | listSessions | sessionList | listFileChannels
  | fileChannels | setStatus | setProfile | profileInfo | setMute | setReadCursor
  | setWebhookState | rotateWebhook | saveItem | savedUpdated | listSaved | savedMsg | saved
  | listActivity | activityEntry | activity | setPresence | presenceUpdate | typing | typingUpdate
  | uploadBegin | uploadReady | uploadChunk | uploadAck | uploadEnd | uploadOk | downloadBegin
  | downloadInfo | downloadChunk | downloadEnd | transferCancel | markAllRead
  | getChannelDescription | channelDescription | revokeSession | setNotifyPref | listNotifyPrefs
  | notifyPrefs | setClientSetting | listClientSettings | clientSettings | storageStatusReq
  | storageStatus | auditQuery | auditPage | callJoin | callLeave | callJoined | callRoster
  | callInvite | callDecline | callEnd | callState | callKey | callKeyFor | callShare | callMedia
  | registerDeviceToken | unregisterDeviceToken | deviceTokenAck | mentionUnresolved | setDraft
  | listDrafts | draft | drafts | scheduleMessage | listScheduled | cancelScheduled
  | updateScheduled | scheduled | scheduledList | setSnooze | snooze | setSchedule | schedule
  | setKeywords | setPriority | alertPrefs | listThreads | threadSummary | threads
  | setThreadFollow | markThreadRead | setTzOffset | unfurl | forward | action | attachMediaSet
  | attachMediaOk | ttsInfo | audioGet | audioInfo | audioChunk | audioEnd | capabilities
  | voicePreviewGet | sttInfo | sttBegin | sttChunk | sttEnd | sttText | listGroups | createGroup
  | updateGroup | deleteGroup | groupAddMembers | groupRemoveMembers | groupInfo | groupDeleted
  | groupsEnd | channelAddGroup | channelRemoveGroup | channelGroups | channelViaGroup
  | mentionUnresolvedMore | alertsSummary | alertsList | alerts | alertAck | restore | msgRestored
  | summarize | summary | summaryQueued | summaryDetach | summaryCancel | summaryReady
  | summaryOpen | summaryDismiss | serverBuild | pdmOpen | pdmOpened | pdmInvite | pdmHs
  | pdmHsFor | pdmSend | pdmMsg | pdmEnd | postPoll | vote | poll | listPollVoters | pollVoters
  | editPoll | deactivateSelf | getProfile | setCollapsed | collapsedUpdated | workspaceSettings
  | readReceipts | listUsers | userList | setRole | inviteUser | removeUser | userUpdated
  | inviteCreated | setDisplayName | profileUpdated | listInvites | inviteList | revokeInvite
  | setEmail | inviteRevoked | search | searchResults | backfillRequest | backfillDone | error

def MsgType.code : MsgType → UInt16
  | hello => 0x0001
  | welcome => 0x0002
  | reject => 0x0003
  | auth => 0x0010
  | authOk => 0x0011
  | authChallenge => 0x0012
  | logout => 0x0013
  | workspaceInfo => 0x0014
  | authBegin => 0x0015
  | authRedirect => 0x0016
  | authContinue => 0x0017
  | authDeviceBegin => 0x0018
  | authDevice => 0x0019
  | authDevicePoll => 0x001A
  | authDeviceToken => 0x001B
  | workspaceAddress => 0x001C
  | resetCredential => 0x001D
  | credentialReset => 0x001E
  | enableUser => 0x001F
  | send => 0x0020
  | sendAck => 0x0021
  | broadcast => 0x0022
  | clientAck => 0x0023
  | edit => 0x0024
  | delete => 0x0025
  | msgEdited => 0x0026
  | msgDeleted => 0x0027
  | react => 0x0028
  | reactionUpdated => 0x0029
  | listReactions => 0x002A
  | reactions => 0x002B
  | sendReply => 0x002C
  | threadReply => 0x002D
  | listThread => 0x002E
  | thread => 0x002F
  | threadMeta => 0x0032
  | readCursor => 0x0033
  | historyRequest => 0x0034
  | historyAround => 0x006A
  | pin => 0x0035
  | pinUpdated => 0x0036
  | listPins => 0x0037
  | pinnedMsg => 0x0038
  | pins => 0x0039
  | listMembers => 0x003A
  | memberEntry => 0x003B
  | members => 0x003C
  | listFiles => 0x003D
  | fileEntry => 0x003E
  | files => 0x003F
  | createChannel => 0x0050
  | channelInfo => 0x0051
  | listChannels => 0x0052
  | channelList => 0x0053
  | joinChannel => 0x0054
  | leaveChannel => 0x0055
  | inviteToChannel => 0x0056
  | removeFromChannel => 0x0057
  | openDm => 0x0058
  | createWebhook => 0x0059
  | webhookInfo => 0x005A
  | listWebhooks => 0x005B
  | webhookList => 0x005C
  | deleteWebhook => 0x005D
  | webhookDeleted => 0x005E
  | updateChannel => 0x005F
  | setNotifyDefault => 0x0077
  | setAvatar => 0x0078
  | openGroupDm => 0x0079
  | addEmoji => 0x007A
  | deleteEmoji => 0x007B
  | listEmoji => 0x007C
  | emojiList => 0x007D
  | listSessions => 0x0075
  | sessionList => 0x0076
  | listFileChannels => 0x0073
  | fileChannels => 0x0074
  | setStatus => 0x006F
  | setProfile => 0x00D8
  | profileInfo => 0x0072
  | setMute => 0x006D
  | setReadCursor => 0x006E
  | setWebhookState => 0x006B
  | rotateWebhook => 0x006C
  | saveItem => 0x0062
  | savedUpdated => 0x0063
  | listSaved => 0x0064
  | savedMsg => 0x0065
  | saved => 0x0066
  | listActivity => 0x0067
  | activityEntry => 0x0068
  | activity => 0x0069
  | setPresence => 0x0070
  | presenceUpdate => 0x0071
  | typing => 0x007E
  | typingUpdate => 0x007F
  | uploadBegin => 0x0080
  | uploadReady => 0x0081
  | uploadChunk => 0x0082
  | uploadAck => 0x0083
  | uploadEnd => 0x0084
  | uploadOk => 0x0085
  | downloadBegin => 0x0086
  | downloadInfo => 0x0087
  | downloadChunk => 0x0088
  | downloadEnd => 0x0089
  | transferCancel => 0x008A
  | markAllRead => 0x008B
  | getChannelDescription => 0x008C
  | channelDescription => 0x008D
  | revokeSession => 0x008E
  | setNotifyPref => 0x0090
  | listNotifyPrefs => 0x0092
  | notifyPrefs => 0x0093
  | setClientSetting => 0x0094
  | listClientSettings => 0x0095
  | clientSettings => 0x0096
  | storageStatusReq => 0x0097
  | storageStatus => 0x0098
  | auditQuery => 0x0099
  | auditPage => 0x009A
  | callJoin => 0x00A0
  | callLeave => 0x00A1
  | callJoined => 0x00A2
  | callRoster => 0x00A3
  | callInvite => 0x00A4
  | callDecline => 0x00A5
  | callEnd => 0x00A6
  | callState => 0x00A7
  | callKey => 0x00A8
  | callKeyFor => 0x00A9
  | callShare => 0x00AA
  | callMedia => 0x00AB
  | registerDeviceToken => 0x00B0
  | unregisterDeviceToken => 0x00B1
  | deviceTokenAck => 0x00B2
  | mentionUnresolved => 0x00B3
  | setDraft => 0x00C0
  | listDrafts => 0x00C1
  | draft => 0x00C2
  | drafts => 0x00C3
  | scheduleMessage => 0x00C4
  | listScheduled => 0x00C5
  | cancelScheduled => 0x00C6
  | updateScheduled => 0x00C7
  | scheduled => 0x00C8
  | scheduledList => 0x00C9
  | setSnooze => 0x00CA
  | snooze => 0x00CB
  | setSchedule => 0x00CC
  | schedule => 0x00CD
  | setKeywords => 0x00CE
  | setPriority => 0x00CF
  | alertPrefs => 0x00D0
  | listThreads => 0x00D1
  | threadSummary => 0x00D2
  | threads => 0x00D3
  | setThreadFollow => 0x00D4
  | markThreadRead => 0x00D5
  | setTzOffset => 0x00D6
  | unfurl => 0x00D7
  | forward => 0x00D9
  | action => 0x00FC
  | attachMediaSet => 0x00DA
  | attachMediaOk => 0x00DB
  | ttsInfo => 0x00DC
  | audioGet => 0x00DD
  | audioInfo => 0x00DE
  | audioChunk => 0x00DF
  | audioEnd => 0x00E0
  | capabilities => 0x00E1
  | voicePreviewGet => 0x00E2
  | sttInfo => 0x00E3
  | sttBegin => 0x00E4
  | sttChunk => 0x00E5
  | sttEnd => 0x00E6
  | sttText => 0x00E7
  | listGroups => 0x00E8
  | createGroup => 0x00E9
  | updateGroup => 0x00EA
  | deleteGroup => 0x00EB
  | groupAddMembers => 0x00EC
  | groupRemoveMembers => 0x00ED
  | groupInfo => 0x00EE
  | groupDeleted => 0x00EF
  | groupsEnd => 0x00F0
  | channelAddGroup => 0x00F1
  | channelRemoveGroup => 0x00F2
  | channelGroups => 0x00F3
  | channelViaGroup => 0x00F4
  | mentionUnresolvedMore => 0x00F5
  | alertsSummary => 0x00F6
  | alertsList => 0x00F7
  | alerts => 0x00F8
  | alertAck => 0x00F9
  | restore => 0x00FA
  | msgRestored => 0x00FB
  | summarize => 0x00FD
  | summary => 0x00FE
  | summaryQueued => 0x0100
  | summaryDetach => 0x0101
  | summaryCancel => 0x0102
  | summaryReady => 0x0103
  | summaryOpen => 0x0104
  | summaryDismiss => 0x0105
  | serverBuild => 0x0106
  | pdmOpen => 0x0107
  | pdmOpened => 0x0108
  | pdmInvite => 0x0109
  | pdmHs => 0x010A
  | pdmHsFor => 0x010B
  | pdmSend => 0x010C
  | pdmMsg => 0x010D
  | pdmEnd => 0x010E
  | postPoll => 0x010F
  | vote => 0x0110
  | poll => 0x0111
  | listPollVoters => 0x0112
  | pollVoters => 0x0113
  | editPoll => 0x0114
  | deactivateSelf => 0x0115
  | getProfile => 0x0116
  | setCollapsed => 0x0117
  | collapsedUpdated => 0x0118
  | workspaceSettings => 0x0119
  | readReceipts => 0x011A
  | listUsers => 0x0040
  | userList => 0x0041
  | setRole => 0x0042
  | inviteUser => 0x0043
  | removeUser => 0x0044
  | userUpdated => 0x0045
  | inviteCreated => 0x0046
  | setDisplayName => 0x0048
  | profileUpdated => 0x004A
  | listInvites => 0x004B
  | inviteList => 0x004C
  | revokeInvite => 0x004D
  | setEmail => 0x004F
  | inviteRevoked => 0x004E
  | search => 0x0060
  | searchResults => 0x0061
  | backfillRequest => 0x0030
  | backfillDone => 0x0031
  | error => 0x00FF

end OpenChime.Wire
