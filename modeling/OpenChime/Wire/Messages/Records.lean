import OpenChime.Wire.Codec

/-! Backfill, history, search, saved messages, files, storage, the audit log and alerts. -/

set_option autoImplicit false

namespace OpenChime.Wire

open Get MsgType

structure Cursor where
  (channelId afterMessageId : UInt64)

def Cursor.fields (c : Cursor) : List Field := [.u64 c.channelId, .u64 c.afterMessageId]

def rCursor : Get Cursor := do
  accept ⟨← rU64, ← rU64⟩

@[simp] theorem reads_cursor (c : Cursor) : Reads rCursor c.fields c := by
  simp +contextual [Reads, rCursor, Cursor.fields]

structure BackfillRequest where
  count : UInt16
  cursors : List Cursor

variable (cap : UInt16)

def BackfillRequest.Valid (m : BackfillRequest) : Prop := Counted cap.toNat m.count.toNat m.cursors

variable (version : UInt16)

@[simp] def encodeBackfillRequest (m : BackfillRequest) : Put :=
  .frame version backfillRequest.code (.u16 m.count :: (m.cursors.take m.count.toNat).flatMap Cursor.fields)

@[simp] def decodeBackfillRequest : Get BackfillRequest := do
  let count ← rU16
  let cursors ← loopOk rCursor count.toNat
  done { count, cursors := cursors.take cap.toNat }

structure BackfillDone where
  highWater : UInt64
  more : UInt8

@[simp] def encodeBackfillDone (m : BackfillDone) : Put :=
  .frame version backfillDone.code [.u64 m.highWater, .u8 m.more]

@[simp] def decodeBackfillDone : Get BackfillDone := do
  done ⟨← rU64, ← rU8⟩

structure HistoryRequest where
  (channelId beforeMessageId : UInt64)
  limit : UInt16

@[simp] def encodeHistoryRequest (m : HistoryRequest) : Put :=
  .frame version historyRequest.code [.u64 m.channelId, .u64 m.beforeMessageId, .u16 m.limit]

@[simp] def decodeHistoryRequest : Get HistoryRequest := do
  done ⟨← rU64, ← rU64, ← rU16⟩

structure HistoryAround where
  (channelId messageId : UInt64)
  limit : UInt16

@[simp] def encodeHistoryAround (m : HistoryAround) : Put :=
  .frame version historyAround.code [.u64 m.channelId, .u64 m.messageId, .u16 m.limit]

@[simp] def decodeHistoryAround : Get HistoryAround := do
  done ⟨← rU64, ← rU64, ← rU16⟩

structure Search where
  query : Slice
  limit : UInt16
  beforeId : UInt64
  (fromName inChannel : Slice)
  hasMask : UInt8
  (afterMs beforeMs : UInt64)
  sort : UInt8
  cursorRank : Int64

@[simp] def encodeSearch (m : Search) : Put :=
  .frame version search.code
    [.str m.query, .u16 m.limit, .u64 m.beforeId, .str m.fromName, .str m.inChannel, .u8 m.hasMask,
      .u64 m.afterMs, .u64 m.beforeMs, .u8 m.sort, .u64 m.cursorRank.toUInt64]

@[simp] def decodeSearch : Get Search := do
  let query ← rStr
  let limit ← rU16
  let beforeId ← rU64
  let fromName ← rStr
  let inChannel ← rStr
  let hasMask ← rU8
  let afterMs ← rU64
  let beforeMs ← rU64
  let sort ← rU8
  let cursorRank ← rU64
  done { query, limit, beforeId, fromName, inChannel, hasMask, afterMs, beforeMs, sort
         cursorRank := cursorRank.toInt64 }

structure SearchResultEntry where
  (messageId channelId authorId serverTime : UInt64)
  snippet : Slice
  action : UInt8
  rank : Int64

def SearchResultEntry.fields (e : SearchResultEntry) : List Field :=
  [.u64 e.messageId, .u64 e.channelId, .u64 e.authorId, .u64 e.serverTime, .str e.snippet,
    .u8 e.action, .u64 e.rank.toUInt64]

def rSearchResultEntry : Get SearchResultEntry := do
  let messageId ← rU64
  let channelId ← rU64
  let authorId ← rU64
  let serverTime ← rU64
  let snippet ← rStr
  let action ← rU8
  let rank ← rU64
  accept { messageId, channelId, authorId, serverTime, snippet, action, rank := rank.toInt64 }

@[simp] theorem reads_searchResultEntry (e : SearchResultEntry) : Reads rSearchResultEntry e.fields e := by
  simp +contextual [Reads, rSearchResultEntry, SearchResultEntry.fields]

structure SearchResults where
  count : UInt16
  entries : List SearchResultEntry
  truncated : UInt8

def SearchResults.Valid (m : SearchResults) : Prop := Counted cap.toNat m.count.toNat m.entries

@[simp] def encodeSearchResults (m : SearchResults) : Put :=
  .frame version searchResults.code
    (.u16 m.count :: (m.entries.take m.count.toNat).flatMap SearchResultEntry.fields ++ [.u8 m.truncated])

@[simp] def decodeSearchResults : Get SearchResults := do
  let count ← rU16
  let entries ← loopOk rSearchResultEntry count.toNat
  let truncated ← rU8
  done { count, entries := entries.take cap.toNat, truncated }

structure SaveItem where
  messageId : UInt64
  op : UInt8

@[simp] def encodeSaveItem (m : SaveItem) : Put :=
  .frame version saveItem.code [.u64 m.messageId, .u8 m.op]

@[simp] def decodeSaveItem : Get SaveItem := do
  done ⟨← rU64, ← rU8⟩

structure SavedUpdated where
  messageId : UInt64
  op : UInt8
  savedAt : UInt64

@[simp] def encodeSavedUpdated (m : SavedUpdated) : Put :=
  .frame version savedUpdated.code [.u64 m.messageId, .u8 m.op, .u64 m.savedAt]

@[simp] def decodeSavedUpdated : Get SavedUpdated := do
  done ⟨← rU64, ← rU8, ← rU64⟩

structure SavedMsg where
  (messageId channelId authorId serverTime savedAt : UInt64)
  (body attachName : Slice)
  action : UInt8

@[simp] def encodeSavedMsg (m : SavedMsg) : Put :=
  .frame version savedMsg.code
    [.u64 m.messageId, .u64 m.channelId, .u64 m.authorId, .u64 m.serverTime, .u64 m.savedAt,
     .str m.body, .str m.attachName, .u8 m.action]

@[simp] def decodeSavedMsg : Get SavedMsg := do
  done { messageId := ← rU64, channelId := ← rU64, authorId := ← rU64, serverTime := ← rU64, savedAt := ← rU64,
         body := ← rStr, attachName := ← rStr, action := ← rU8 }

structure Saved where
  count : UInt32

@[simp] def encodeSaved (m : Saved) : Put := .frame version saved.code [.u32 m.count]

@[simp] def decodeSaved : Get Saved := do
  done ⟨← rU32⟩

structure ListFiles where
  (channelId beforeMs beforeId : UInt64)

@[simp] def encodeListFiles (m : ListFiles) : Put :=
  .frame version listFiles.code [.u64 m.channelId, .u64 m.beforeMs, .u64 m.beforeId]

@[simp] def decodeListFiles : Get ListFiles := do
  done ⟨← rU64, ← rU64, ← rU64⟩

structure FileEntry where
  (attachmentId channelId messageId uploaderId size createdAt : UInt64)
  reclaimed : UInt8
  (filename mime : Slice)
  mediaKind : UInt8
  durationMs : UInt32

@[simp] def encodeFileEntry (m : FileEntry) : Put :=
  .frame version fileEntry.code
    [.u64 m.attachmentId, .u64 m.channelId, .u64 m.messageId, .u64 m.uploaderId, .u64 m.size,
     .u64 m.createdAt, .u8 m.reclaimed, .str m.filename, .str m.mime, .u8 m.mediaKind,
     .u32 m.durationMs]

@[simp] def decodeFileEntry : Get FileEntry := do
  let attachmentId ← rU64
  let channelId ← rU64
  let messageId ← rU64
  let uploaderId ← rU64
  let size ← rU64
  let createdAt ← rU64
  let reclaimed ← rU8
  let filename ← rStr
  let mime ← rStr
  let mediaKind ← rU8
  let durationMs ← rU32
  done {
    attachmentId, channelId, messageId, uploaderId, size, createdAt, reclaimed, filename, mime,
    mediaKind, durationMs }

structure Files where
  channelId : UInt64
  count : UInt32
  more : UInt8

@[simp] def encodeFiles (m : Files) : Put :=
  .frame version files.code [.u64 m.channelId, .u32 m.count, .u8 m.more]

@[simp] def decodeFiles : Get Files := do
  done ⟨← rU64, ← rU32, ← rU8⟩

structure FileChannelEntry where
  channelId : UInt64
  count : UInt32

def FileChannelEntry.fields (e : FileChannelEntry) : List Field := [.u64 e.channelId, .u32 e.count]

def rFileChannelEntry : Get FileChannelEntry := do
  accept ⟨← rU64, ← rU32⟩

@[simp] theorem reads_fileChannelEntry (e : FileChannelEntry) : Reads rFileChannelEntry e.fields e := by
  simp +contextual [Reads, rFileChannelEntry, FileChannelEntry.fields]

structure FileChannels where
  count : UInt16
  entries : List FileChannelEntry

def FileChannels.Valid (m : FileChannels) : Prop := Counted cap.toNat m.count.toNat m.entries

@[simp] def encodeFileChannels (m : FileChannels) : Put :=
  .frame version fileChannels.code (.u16 m.count :: (m.entries.take m.count.toNat).flatMap FileChannelEntry.fields)

@[simp] def decodeFileChannels : Get FileChannels := do
  let count ← rU16
  let entries ← loopOk rFileChannelEntry count.toNat
  done { count := clamp cap count, entries := entries.take cap.toNat }

structure StorageStatus where
  (totalBytes availBytes attachBytes attachCount reclaimedOrphan reclaimedExpired : UInt64)
  (reclaimedEvicted lastReclaimMs maxAgeDays reserveBytes : UInt64)
  (evictEnabled underPressure : UInt8)

@[simp] def encodeStorageStatus (m : StorageStatus) : Put :=
  .frame version storageStatus.code
    [.u64 m.totalBytes, .u64 m.availBytes, .u64 m.attachBytes, .u64 m.attachCount,
     .u64 m.reclaimedOrphan, .u64 m.reclaimedExpired, .u64 m.reclaimedEvicted,
     .u64 m.lastReclaimMs, .u64 m.maxAgeDays, .u64 m.reserveBytes, .u8 m.evictEnabled,
     .u8 m.underPressure]

@[simp] def decodeStorageStatus : Get StorageStatus := do
  let totalBytes ← rU64
  let availBytes ← rU64
  let attachBytes ← rU64
  let attachCount ← rU64
  let reclaimedOrphan ← rU64
  let reclaimedExpired ← rU64
  let reclaimedEvicted ← rU64
  let lastReclaimMs ← rU64
  let maxAgeDays ← rU64
  let reserveBytes ← rU64
  let evictEnabled ← rU8
  let underPressure ← rU8
  done {
    totalBytes, availBytes, attachBytes, attachCount, reclaimedOrphan, reclaimedExpired,
    reclaimedEvicted, lastReclaimMs, maxAgeDays, reserveBytes, evictEnabled, underPressure }

structure AuditQuery where
  beforeMs : UInt64
  limit : UInt16
  family : UInt8
  actorId : UInt64
  action : Slice

@[simp] def encodeAuditQuery (m : AuditQuery) : Put :=
  .frame version auditQuery.code [.u64 m.beforeMs, .u16 m.limit, .u8 m.family, .u64 m.actorId, .str m.action]

@[simp] def decodeAuditQuery : Get AuditQuery := do
  done ⟨← rU64, ← rU16, ← rU8, ← rU64, ← rStr⟩

structure AuditEntry where
  (atMs actorId targetId : UInt64)
  (actorName action target detail : Slice)
  (family outcome : UInt8)

def AuditEntry.fields (e : AuditEntry) : List Field :=
  [.u64 e.atMs, .u64 e.actorId, .u64 e.targetId, .u8 e.family, .u8 e.outcome, .str e.actorName,
   .str e.action, .str e.target, .str e.detail]

def rAuditEntry : Get AuditEntry := do
  accept { atMs := ← rU64, actorId := ← rU64, targetId := ← rU64, family := ← rU8, outcome := ← rU8,
           actorName := ← rStr, action := ← rStr, target := ← rStr, detail := ← rStr }

@[simp] theorem reads_auditEntry (e : AuditEntry) : Reads rAuditEntry e.fields e := by
  simp +contextual [Reads, rAuditEntry, AuditEntry.fields]

structure AuditPage where
  count : UInt16
  entries : List AuditEntry

def AuditPage.Valid (m : AuditPage) : Prop := Counted cap.toNat m.count.toNat m.entries

@[simp] def encodeAuditPage (m : AuditPage) : Put :=
  .frame version auditPage.code (.u16 m.count :: (m.entries.take m.count.toNat).flatMap AuditEntry.fields)

@[simp] def decodeAuditPage : Get AuditPage := do
  let count ← rU16
  let count := clamp cap count
  let entries ← loop rAuditEntry count.toNat
  done { count, entries }

structure AlertsSummary where
  (unacked current : UInt32)

@[simp] def encodeAlertsSummary (m : AlertsSummary) : Put :=
  .frame version alertsSummary.code [.u32 m.unacked, .u32 m.current]

@[simp] def decodeAlertsSummary : Get AlertsSummary := do
  done ⟨← rU32, ← rU32⟩

def maxAlerts : UInt16 := 100
def maxAlertKey : Nat := 64
def maxAlertMessage : Nat := 400

structure Alert where
  (id firstMs lastMs : UInt64)
  count : UInt32
  (current acked : UInt8)
  (key message : Slice)

def Alert.Oversize (a : Alert) : Prop := a.key.length > maxAlertKey ∨ a.message.length > maxAlertMessage

instance (a : Alert) : Decidable a.Oversize := inferInstanceAs (Decidable (_ ∨ _))

def Alert.fields (a : Alert) : List Field :=
  [.u64 a.id, .u64 a.firstMs, .u64 a.lastMs, .u32 a.count, .u8 a.current, .u8 a.acked, .str a.key, .str a.message]

def rAlert : Get Alert := do
  let id ← rU64
  let firstMs ← rU64
  let lastMs ← rU64
  let count ← rU32
  let current ← rU8
  let acked ← rU8
  let key ← rStr
  let message ← rStr
  refuseIf (Alert.mk id firstMs lastMs count current acked key message).Oversize
  accept { id, firstMs, lastMs, count, current, acked, key, message }

theorem reads_alert {a : Alert} (sized : ¬a.Oversize) : Reads rAlert a.fields a := by
  simp +contextual [Reads, rAlert, Alert.fields, on_refuseIf _ _ _ sized]

structure Alerts where
  count : UInt16
  alerts : List Alert

structure Alerts.Valid (cap : UInt16) (m : Alerts) : Prop where
  counted : Counted cap.toNat m.count.toNat m.alerts
  limit : m.count ≤ maxAlerts
  sized : ∀ a ∈ m.alerts, ¬a.Oversize

@[simp] def encodeAlerts (m : Alerts) : Put :=
  if m.count > maxAlerts then .refuse .malformed
  else if ∃ a ∈ m.alerts.take m.count.toNat, a.Oversize then .refuse .malformed
  else .frame version alerts.code (.u16 m.count :: (m.alerts.take m.count.toNat).flatMap Alert.fields)

@[simp] def decodeAlerts : Get Alerts := do
  let count ← rU16
  refuseIf (count > cap ∨ count > maxAlerts)
  let alerts ← loop rAlert count.toNat
  done { count, alerts }

structure AlertAck where
  alertId : UInt64

@[simp] def encodeAlertAck (m : AlertAck) : Put := .frame version alertAck.code [.u64 m.alertId]

@[simp] def decodeAlertAck : Get AlertAck := do
  done ⟨← rU64⟩

def recordCodecs : List LawfulCodec := [
  .capped .backfillRequest BackfillRequest.Valid encodeBackfillRequest decodeBackfillRequest fun _ _ _ valid => by
    simp +contextual [valid.whole],
  .plain .backfillDone encodeBackfillDone decodeBackfillDone,
  .plain .historyRequest encodeHistoryRequest decodeHistoryRequest,
  .plain .historyAround encodeHistoryAround decodeHistoryAround,
  .plain .search encodeSearch decodeSearch,
  .capped .searchResults SearchResults.Valid encodeSearchResults decodeSearchResults fun _ _ _ valid => by
    simp +contextual [valid.whole],
  .plain .saveItem encodeSaveItem decodeSaveItem,
  .plain .savedUpdated encodeSavedUpdated decodeSavedUpdated,
  .plain .savedMsg encodeSavedMsg decodeSavedMsg,
  .plain .saved encodeSaved decodeSaved,
  .plain .listFiles encodeListFiles decodeListFiles,
  .plain .fileEntry encodeFileEntry decodeFileEntry,
  .plain .files encodeFiles decodeFiles,
  .capped .fileChannels FileChannels.Valid encodeFileChannels decodeFileChannels fun _ _ _ valid => by
    simp +contextual [valid.u16],
  .plain .storageStatus encodeStorageStatus decodeStorageStatus,
  .plain .auditQuery encodeAuditQuery decodeAuditQuery,
  .capped .auditPage AuditPage.Valid encodeAuditPage decodeAuditPage fun _ _ _ valid => by
    simp +contextual [valid.u16],
  .plain .alertsSummary encodeAlertsSummary decodeAlertsSummary,
  .capped .alerts Alerts.Valid encodeAlerts decodeAlerts fun _ _ m valid => by
    obtain ⟨counted, limit, sized⟩ := valid
    have reads : EachReads rAlert Alert.fields m.alerts := fun a member =>
      reads_alert (sized a member)
    simp +contextual [counted.u16, limit, reads],
  .plain .alertAck encodeAlertAck decodeAlertAck]

end OpenChime.Wire
