import OpenChime.Wire.Codec

/-! Notification rules, drafts, scheduled messages and synced settings. -/

set_option autoImplicit false

namespace OpenChime.Wire

open Get MsgType

structure SetTzOffset where
  tzOffsetMin : Int16

variable (version : UInt16)

@[simp] def encodeSetTzOffset (m : SetTzOffset) : Put :=
  .frame version setTzOffset.code [.u16 m.tzOffsetMin.toUInt16]

@[simp] def decodeSetTzOffset : Get SetTzOffset := do
  let tzOffsetMin ← rU16
  done { tzOffsetMin := tzOffsetMin.toInt16 }

structure SetSnooze where
  minutes : UInt32

@[simp] def encodeSetSnooze (m : SetSnooze) : Put := .frame version setSnooze.code [.u32 m.minutes]

@[simp] def decodeSetSnooze : Get SetSnooze := do
  done ⟨← rU32⟩

structure Snooze where
  untilMs : UInt64

@[simp] def encodeSnooze (m : Snooze) : Put := .frame version snooze.code [.u64 m.untilMs]

@[simp] def decodeSnooze : Get Snooze := do
  done ⟨← rU64⟩

def scheduleDays : UInt8 := 7

structure ScheduleDay where
  (weekday enabled : UInt8)
  (startMin endMin : UInt16)

def ScheduleDay.fields (d : ScheduleDay) : List Field := [.u8 d.weekday, .u8 d.enabled, .u16 d.startMin, .u16 d.endMin]

def rScheduleDay : Get ScheduleDay := do
  accept ⟨← rU8, ← rU8, ← rU16, ← rU16⟩

@[simp] theorem reads_scheduleDay (d : ScheduleDay) : Reads rScheduleDay d.fields d := by
  simp +contextual [Reads, rScheduleDay, ScheduleDay.fields]


structure Schedule where
  mode : UInt8
  tzOffsetMin : Int16
  (startMin endMin : UInt16)
  count : UInt8
  days : List ScheduleDay

def Schedule.Valid (m : Schedule) : Prop := Counted scheduleDays.toNat m.count.toNat m.days

@[simp] def encSchedule (version type : UInt16) (m : Schedule) : Put :=
  let n := clamp scheduleDays m.count
  .frame version type ([.u8 m.mode, .u16 m.tzOffsetMin.toUInt16, .u16 m.startMin, .u16 m.endMin, .u8 n] ++
      (m.days.take n.toNat).flatMap ScheduleDay.fields)

def encodeSetSchedule (m : Schedule) : Put := encSchedule version setSchedule.code m

def encodeSchedule (m : Schedule) : Put := encSchedule version schedule.code m

@[simp] def decodeSchedule : Get Schedule := do
  let mode ← rU8
  let tzOffsetMin ← rU16
  let startMin ← rU16
  let endMin ← rU16
  let count ← rU8
  refuseIf (count > scheduleDays)
  let days ← loopOk rScheduleDay count.toNat
  done { mode, tzOffsetMin := tzOffsetMin.toInt16, startMin, endMin, count, days }

theorem schedule_readsBack (version type : UInt16) (m : Schedule) (valid : m.Valid) :
    (encSchedule version type m).ReadsBack version type decodeSchedule m := by
  simp +contextual [valid.u8]

def maxKeywords : UInt8 := 64
def maxPriority : UInt8 := 64

structure SetKeywords where
  count : UInt8
  terms : List Slice

structure SetKeywords.Valid (cap : UInt8) (m : SetKeywords) : Prop where
  counted : Counted cap.toNat m.count.toNat m.terms
  limit : m.count ≤ maxKeywords

@[simp] def encodeSetKeywords (m : SetKeywords) : Put :=
  let n := clamp maxKeywords m.count
  .frame version setKeywords.code (.u8 n :: (m.terms.take n.toNat).flatMap fun term => [.str term])

@[simp] def decodeSetKeywords (cap : UInt8) : Get SetKeywords := do
  let n ← rU8
  let terms ← loopOk rStr n.toNat
  done { count := clamp cap n, terms := terms.take cap.toNat }

structure SetPriority where
  count : UInt8
  people : List UInt64

structure SetPriority.Valid (cap : UInt8) (m : SetPriority) : Prop where
  counted : Counted cap.toNat m.count.toNat m.people
  limit : m.count ≤ maxPriority

@[simp] def encodeSetPriority (m : SetPriority) : Put :=
  let n := clamp maxPriority m.count
  .frame version setPriority.code (.u8 n :: (m.people.take n.toNat).flatMap fun id => [.u64 id])

@[simp] def decodeSetPriority (cap : UInt8) : Get SetPriority := do
  let n ← rU8
  let people ← loopOk rU64 n.toNat
  done { count := clamp cap n, people := people.take cap.toNat }

structure AlertPrefs where
  nTerms : UInt8
  terms : List Slice
  nPeople : UInt8
  people : List UInt64

structure AlertPrefs.Valid (caps : UInt8 × UInt8) (m : AlertPrefs) : Prop where
  terms : Counted caps.1.toNat m.nTerms.toNat m.terms
  termLimit : m.nTerms ≤ maxKeywords
  people : Counted caps.2.toNat m.nPeople.toNat m.people
  peopleLimit : m.nPeople ≤ maxPriority

@[simp] def encodeAlertPrefs (m : AlertPrefs) : Put :=
  let nt := clamp maxKeywords m.nTerms
  let np := clamp maxPriority m.nPeople
  .frame version alertPrefs.code ((.u8 nt :: (m.terms.take nt.toNat).flatMap fun term => [.str term]) ++
      (.u8 np :: (m.people.take np.toNat).flatMap fun id => [.u64 id]))

@[simp] def decodeAlertPrefs (caps : UInt8 × UInt8) : Get AlertPrefs := do
  let nt ← rU8
  let terms ← loopOk rStr nt.toNat
  let np ← rU8
  let people ← loopOk rU64 np.toNat
  done { nTerms := clamp caps.1 nt, terms := terms.take caps.1.toNat
         nPeople := clamp caps.2 np, people := people.take caps.2.toNat }

structure SetNotifyPref where
  channelId : UInt64
  level : UInt8

@[simp] def encodeSetNotifyPref (m : SetNotifyPref) : Put :=
  .frame version setNotifyPref.code [.u64 m.channelId, .u8 m.level]

@[simp] def decodeSetNotifyPref : Get SetNotifyPref := do
  done ⟨← rU64, ← rU8⟩

@[simp] def encodeListNotifyPrefs (_ : Unit) : Put := .frame version listNotifyPrefs.code []

@[simp] def decodeListNotifyPrefs : Get Unit := done ()

structure NotifyPrefEntry where
  channelId : UInt64
  (level muted : UInt8)

def NotifyPrefEntry.fields (e : NotifyPrefEntry) : List Field := [.u64 e.channelId, .u8 e.level, .u8 e.muted]

def rNotifyPrefEntry : Get NotifyPrefEntry := do
  accept ⟨← rU64, ← rU8, ← rU8⟩

@[simp] theorem reads_notifyPrefEntry (e : NotifyPrefEntry) : Reads rNotifyPrefEntry e.fields e := by
  simp +contextual [Reads, rNotifyPrefEntry, NotifyPrefEntry.fields]

structure NotifyPrefs where
  notifyDefault : UInt8
  count : UInt16
  entries : List NotifyPrefEntry

def NotifyPrefs.Valid (cap : UInt16) (m : NotifyPrefs) : Prop := Counted cap.toNat m.count.toNat m.entries

@[simp] def encodeNotifyPrefs (m : NotifyPrefs) : Put :=
  .frame version notifyPrefs.code
    (.u8 m.notifyDefault :: .u16 m.count :: (m.entries.take m.count.toNat).flatMap NotifyPrefEntry.fields)

@[simp] def decodeNotifyPrefs (cap : UInt16) : Get NotifyPrefs := do
  let notifyDefault ← rU8
  let count ← rU16
  let entries ← loopOk rNotifyPrefEntry count.toNat
  done { notifyDefault, count, entries := entries.take cap.toNat }

structure SetNotifyDefault where
  level : UInt8

@[simp] def encodeSetNotifyDefault (m : SetNotifyDefault) : Put :=
  .frame version setNotifyDefault.code [.u8 m.level]

@[simp] def decodeSetNotifyDefault : Get SetNotifyDefault := do
  done ⟨← rU8⟩

structure SetMute where
  channelId : UInt64
  muted : UInt8

@[simp] def encodeSetMute (m : SetMute) : Put :=
  .frame version setMute.code [.u64 m.channelId, .u8 m.muted]

@[simp] def decodeSetMute : Get SetMute := do
  done ⟨← rU64, ← rU8⟩

structure SetReadCursor where
  (channelId messageId : UInt64)

@[simp] def encodeSetReadCursor (m : SetReadCursor) : Put :=
  .frame version setReadCursor.code [.u64 m.channelId, .u64 m.messageId]

@[simp] def decodeSetReadCursor : Get SetReadCursor := do
  done ⟨← rU64, ← rU64⟩

structure SetDraft where
  (channelId threadRoot : UInt64)
  (recipients body : Slice)

@[simp] def encodeSetDraft (m : SetDraft) : Put :=
  .frame version setDraft.code [.u64 m.channelId, .u64 m.threadRoot, .str m.recipients, .str m.body]

@[simp] def decodeSetDraft : Get SetDraft := do
  done ⟨← rU64, ← rU64, ← rStr, ← rStr⟩

structure Draft where
  (id channelId threadRoot updatedMs : UInt64)
  (recipients body : Slice)

@[simp] def encodeDraft (m : Draft) : Put :=
  .frame version draft.code
    [.u64 m.id, .u64 m.channelId, .u64 m.threadRoot, .u64 m.updatedMs, .str m.recipients, .str m.body]

@[simp] def decodeDraft : Get Draft := do
  done ⟨← rU64, ← rU64, ← rU64, ← rU64, ← rStr, ← rStr⟩

structure Drafts where
  count : UInt16

@[simp] def encodeDrafts (m : Drafts) : Put := .frame version drafts.code [.u16 m.count]

@[simp] def decodeDrafts : Get Drafts := do
  done ⟨← rU16⟩

structure ScheduleMessage where
  (channelId threadRoot sendAtMs : UInt64)
  body : Slice

@[simp] def encodeScheduleMessage (m : ScheduleMessage) : Put :=
  .frame version scheduleMessage.code [.u64 m.channelId, .u64 m.threadRoot, .u64 m.sendAtMs, .str m.body]

@[simp] def decodeScheduleMessage : Get ScheduleMessage := do
  done ⟨← rU64, ← rU64, ← rU64, ← rStr⟩

structure CancelScheduled where
  id : UInt64

@[simp] def encodeCancelScheduled (m : CancelScheduled) : Put :=
  .frame version cancelScheduled.code [.u64 m.id]

@[simp] def decodeCancelScheduled : Get CancelScheduled := do
  done ⟨← rU64⟩

structure UpdateScheduled where
  (id sendAtMs : UInt64)
  body : Slice

@[simp] def encodeUpdateScheduled (m : UpdateScheduled) : Put :=
  .frame version updateScheduled.code [.u64 m.id, .u64 m.sendAtMs, .str m.body]

@[simp] def decodeUpdateScheduled : Get UpdateScheduled := do
  done ⟨← rU64, ← rU64, ← rStr⟩

structure Scheduled where
  (id channelId threadRoot sendAtMs createdMs : UInt64)
  state : UInt8
  (failReason body : Slice)

@[simp] def encodeScheduled (m : Scheduled) : Put :=
  .frame version scheduled.code
    [.u64 m.id, .u64 m.channelId, .u64 m.threadRoot, .u64 m.sendAtMs, .u64 m.createdMs,
     .u8 m.state, .str m.failReason, .str m.body]

@[simp] def decodeScheduled : Get Scheduled := do
  done { id := ← rU64, channelId := ← rU64, threadRoot := ← rU64, sendAtMs := ← rU64, createdMs := ← rU64,
         state := ← rU8, failReason := ← rStr, body := ← rStr }

structure ScheduledList where
  count : UInt16

@[simp] def encodeScheduledList (m : ScheduledList) : Put :=
  .frame version scheduledList.code [.u16 m.count]

@[simp] def decodeScheduledList : Get ScheduledList := do
  done ⟨← rU16⟩

structure SetClientSetting where
  (clientType key value : Slice)

@[simp] def encodeSetClientSetting (m : SetClientSetting) : Put :=
  .frame version setClientSetting.code [.str m.clientType, .str m.key, .str m.value]

@[simp] def decodeSetClientSetting : Get SetClientSetting := do
  done ⟨← rStr, ← rStr, ← rStr⟩

structure ListClientSettings where
  clientType : Slice

@[simp] def encodeListClientSettings (m : ListClientSettings) : Put :=
  .frame version listClientSettings.code [.str m.clientType]

@[simp] def decodeListClientSettings : Get ListClientSettings := do
  done ⟨← rStr⟩

structure ClientSettingEntry where
  (key value : Slice)

def ClientSettingEntry.fields (e : ClientSettingEntry) : List Field := [.str e.key, .str e.value]

def rClientSettingEntry : Get ClientSettingEntry := do
  accept ⟨← rStr, ← rStr⟩

@[simp] theorem reads_clientSettingEntry (e : ClientSettingEntry) : Reads rClientSettingEntry e.fields e := by
  simp +contextual [Reads, rClientSettingEntry, ClientSettingEntry.fields]

structure ClientSettings where
  clientType : Slice
  count : UInt16
  entries : List ClientSettingEntry

def ClientSettings.Valid (cap : UInt16) (m : ClientSettings) : Prop := Counted cap.toNat m.count.toNat m.entries

@[simp] def encodeClientSettings (m : ClientSettings) : Put :=
  .frame version clientSettings.code
    (.str m.clientType :: .u16 m.count :: (m.entries.take m.count.toNat).flatMap ClientSettingEntry.fields)

@[simp] def decodeClientSettings (cap : UInt16) : Get ClientSettings := do
  let clientType ← rStr
  let count ← rU16
  let entries ← loopOk rClientSettingEntry count.toNat
  done { clientType, count := clamp cap count, entries := entries.take cap.toNat }

def wsSettingsMax : UInt8 := 64
def capMax : UInt8 := 16
def receiptsAsk : UInt8 := 2

structure Capabilities where
  count : UInt8
  names : List Slice

def Capabilities.Valid (m : Capabilities) : Prop := Counted capMax.toNat m.count.toNat m.names

@[simp] def encodeCapabilities (m : Capabilities) : Put :=
  let n := clamp capMax m.count
  .frame version capabilities.code (.u8 n :: (m.names.take n.toNat).flatMap fun name => [.str name])

@[simp] def decodeCapabilities : Get Capabilities := do
  let count ← rU8
  refuseIf (count > capMax)
  let names ← loop rStr count.toNat
  done { count, names }

structure WorkspaceSettings where
  count : UInt8
  (keys values : List Slice)

structure WorkspaceSettings.Valid (m : WorkspaceSettings) : Prop where
  keys : Counted wsSettingsMax.toNat m.count.toNat m.keys
  values : Counted wsSettingsMax.toNat m.count.toNat m.values

def settingFields (pair : Slice × Slice) : List Field := [.str pair.1, .str pair.2]

def rSetting : Get (Slice × Slice) := do
  let key ← rStr
  let value ← rStr
  accept (key, value)

@[simp] theorem reads_setting (pair : Slice × Slice) : Reads rSetting (settingFields pair) pair := by
  simp +contextual [Reads, rSetting, settingFields]

@[simp] def encodeWorkspaceSettings (m : WorkspaceSettings) : Put :=
  let n := clamp wsSettingsMax m.count
  .frame version workspaceSettings.code
    (.u8 n :: ((m.keys.take n.toNat).zip (m.values.take n.toNat)).flatMap settingFields)

@[simp] def decodeWorkspaceSettings : Get WorkspaceSettings := do
  let count ← rU8
  refuseIf (count > wsSettingsMax)
  let pairs ← loop rSetting count.toNat
  done { count, keys := pairs.map Prod.fst, values := pairs.map Prod.snd }

theorem workspaceSettings_readsBack (m : WorkspaceSettings) (valid : m.Valid) :
    (encodeWorkspaceSettings version m).ReadsBack version workspaceSettings.code decodeWorkspaceSettings m := by
  obtain ⟨keys, values⟩ := valid
  have paired : (m.keys.zip m.values).length = m.count.toNat := by
    rw [List.length_zip, keys.counted, values.counted, Nat.min_self]
  have firsts : (m.keys.zip m.values).map Prod.fst = m.keys :=
    List.map_fst_zip (keys.counted.trans values.counted.symm).le
  have seconds : (m.keys.zip m.values).map Prod.snd = m.values :=
    List.map_snd_zip (values.counted.trans keys.counted.symm).le
  simp +contextual [keys.u8, values.whole, paired, firsts, seconds]

structure ReadReceipts where
  share : UInt8

def ReadReceipts.Valid (m : ReadReceipts) : Prop := m.share ≤ receiptsAsk

@[simp] def encodeReadReceipts (m : ReadReceipts) : Put := .frame version readReceipts.code [.u8 m.share]

@[simp] def decodeReadReceipts : Get ReadReceipts := do
  let share ← rU8
  refuseIf (share > receiptsAsk)
  done { share }

def preferenceCodecs : List LawfulCodec := [ .plain .setTzOffset encodeSetTzOffset decodeSetTzOffset,
  .plain .setSnooze encodeSetSnooze decodeSetSnooze,
  .plain .snooze encodeSnooze decodeSnooze,
  .checked .setSchedule Schedule.Valid encodeSetSchedule decodeSchedule fun version =>
    schedule_readsBack version _,
  .checked .schedule Schedule.Valid encodeSchedule decodeSchedule fun version =>
    schedule_readsBack version _,
  .capped .setKeywords SetKeywords.Valid encodeSetKeywords decodeSetKeywords fun _ _ _ valid => by
    obtain ⟨counted, limit⟩ := valid
    simp +contextual [counted.u8, limit],
  .capped .setPriority SetPriority.Valid encodeSetPriority decodeSetPriority fun _ _ _ valid => by
    obtain ⟨counted, limit⟩ := valid
    simp +contextual [counted.u8, limit],
  .capped .alertPrefs AlertPrefs.Valid encodeAlertPrefs decodeAlertPrefs fun _ _ _ valid => by
    obtain ⟨terms, termLimit, people, peopleLimit⟩ := valid
    simp +contextual [terms.u8, termLimit,
      people.u8, peopleLimit],
  .plain .setNotifyPref encodeSetNotifyPref decodeSetNotifyPref,
  .plain .listNotifyPrefs encodeListNotifyPrefs decodeListNotifyPrefs,
  .capped .notifyPrefs NotifyPrefs.Valid encodeNotifyPrefs decodeNotifyPrefs fun _ _ _ valid => by
    simp +contextual [valid.whole],
  .plain .setNotifyDefault encodeSetNotifyDefault decodeSetNotifyDefault,
  .plain .setMute encodeSetMute decodeSetMute,
  .plain .setReadCursor encodeSetReadCursor decodeSetReadCursor,
  .plain .setDraft encodeSetDraft decodeSetDraft,
  .plain .draft encodeDraft decodeDraft,
  .plain .drafts encodeDrafts decodeDrafts,
  .plain .scheduleMessage encodeScheduleMessage decodeScheduleMessage,
  .plain .cancelScheduled encodeCancelScheduled decodeCancelScheduled,
  .plain .updateScheduled encodeUpdateScheduled decodeUpdateScheduled,
  .plain .scheduled encodeScheduled decodeScheduled,
  .plain .scheduledList encodeScheduledList decodeScheduledList,
  .plain .setClientSetting encodeSetClientSetting decodeSetClientSetting,
  .plain .listClientSettings encodeListClientSettings decodeListClientSettings,
  .capped .clientSettings ClientSettings.Valid encodeClientSettings decodeClientSettings fun _ _ _ valid => by
    simp +contextual [valid.u16],
  .checked .capabilities Capabilities.Valid encodeCapabilities decodeCapabilities fun _ _ valid => by
    simp +contextual [valid.u8],
  .checked .workspaceSettings WorkspaceSettings.Valid encodeWorkspaceSettings
    decodeWorkspaceSettings workspaceSettings_readsBack,
  .checked .readReceipts ReadReceipts.Valid encodeReadReceipts decodeReadReceipts fun _ m valid => by
    have small : m.share ≤ receiptsAsk := valid
    simp +contextual [small]]

end OpenChime.Wire
