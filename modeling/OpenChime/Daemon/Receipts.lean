import Mathlib.Data.Int.Order.Basic
import Mathlib.Data.List.Dedup
import Mathlib.Data.Nat.Basic
import Mathlib.Order.Basic
import OpenChime.Lib.Rows
import OpenChime.Lib.Run

/-! Read receipts: how far a member has read is told to the others while the member and the
workspace share it, and a read from before they did is not to be shown. The writer keeps one
timestamp for each cursor and one for each user, and compares them when it tells. -/

set_option autoImplicit false

namespace OpenChime.Daemon

open List

/-- `users`, as far as receipts go. A negative `since` marks the workspace's switch as off. -/
structure ReceiptUser where
  id : Nat
  shareReceipts : Bool
  sinceMs : Int
  deriving DecidableEq

/-- `delivery_cursors`; SQLite holds the message as a signed number. -/
structure CursorRow where
  user : Nat
  channel : Nat
  message : Int64
  updatedAtMs : Int
  deriving DecidableEq

/-- What happened, in order: cursors set to the message a request asked for and whether that was
shared then, switches from off to on, and what was told of a reader to the others. -/
inductive ReceiptEvent where
  | cursorSet (user channel : Nat) (message : UInt64) (now : Int) (sharing : Bool)
  | switchedOn (user : Nat) (now : Int)
  | workspaceOn (now : Int)
  | disclosed (user channel : Nat) (message : UInt64)
  deriving DecidableEq

def ReceiptEvent.switchTime? : ReceiptEvent → Option Int
  | .switchedOn _ t => some t
  | .workspaceOn t => some t
  | _ => none

structure ReceiptDb where
  users : List ReceiptUser
  cursors : List CursorRow
  /-- `channel_members` and `messages`, by channel. -/
  members : List (Nat × Nat)
  messages : List (Nat × UInt64)
  /-- The workspace's switch, fixed while the daemon runs. -/
  workspace : Bool
  clock : Int
  log : List ReceiptEvent

namespace ReceiptDb

variable (db : ReceiptDb)

def note (events : List ReceiptEvent) : ReceiptDb := { db with log := db.log ++ events }

/-- Does this user share now? `id` is the primary key. -/
def sharing (user : Nat) : Bool := db.workspace && db.users.any fun u => u.id == user && u.shareReceipts

/-- The others' cursors that are shown: made since their reader shared. -/
def othersRead (user channel : Nat) : List ReceiptEvent :=
  db.cursors.flatMap fun dc =>
    (db.users.filter fun u => u.id == dc.user && dc.channel == channel && dc.user != user &&
      u.shareReceipts && 0 ≤ u.sinceMs && u.sinceMs < dc.updatedAtMs).map fun _ =>
        .disclosed dc.user channel dc.message.toUInt64

/-- `read_cursor_result`: the reader's advance for the others, the others' cursors for the reader. -/
def readCursorResult (user channel : Nat) (message : UInt64) : List ReceiptEvent :=
  (if db.sharing user then [.disclosed user channel message] else []) ++
    if db.workspace then db.othersRead user channel else []

/-- The primary key of `delivery_cursors`. -/
def cursorKey (dc : CursorRow) : Nat × Nat := (dc.user, dc.channel)

def isCursor (user channel : Nat) (dc : CursorRow) : Bool := cursorKey dc == (user, channel)

def prevCursor (user channel : Nat) : Option Int64 := (db.cursors.find? (isCursor user channel)).map CursorRow.message

/-- The message a request's upsert leaves in the row; `merge` says what becomes of an old row's. -/
def storedBy (merge : Int64 → Int64) (user channel : Nat) (message : UInt64) : Int64 :=
  ((db.prevCursor user channel).map merge).getD message.toInt64

def writeCursor (merge : Int64 → Int64) (user channel : Nat) (message : UInt64) (now : Int) : ReceiptDb :=
  note
    { db with
      cursors := Rows.upsert (isCursor user channel)
        (fun dc => { dc with message := merge dc.message, updatedAtMs := now })
        ⟨user, channel, message.toInt64, now⟩ db.cursors }
    (if db.storedBy merge user channel message = message.toInt64 then
      [.cursorSet user channel message now (db.sharing user)] else [])

/-- `MAX(message_id, excluded.message_id)`. -/
def maxWith (message : UInt64) (old : Int64) : Int64 :=
  if old < message.toInt64 then message.toInt64 else old

def clientAck (user channel : Nat) (message : UInt64) (now : Int) : ReceiptDb :=
  let prev := ((db.prevCursor user channel).getD 0).toUInt64
  let after := db.writeCursor (maxWith message) user channel message now
  if message ≤ prev then after else after.note (after.readCursorResult user channel message)

def newest (channel : Nat) : Option UInt64 :=
  (db.messages.filter (·.1 == channel)).foldl (fun best m =>
    match best with
    | none => some m.2
    | some b => if b.toInt64 < m.2.toInt64 then some m.2 else some b) none

/-- The user's channels whose newest message is past their cursor, each once. -/
def behind (user : Nat) : List (Nat × UInt64) :=
  ((db.members.filter (·.2 == user)).map Prod.fst).dedup.filterMap fun channel =>
    (db.newest channel).bind fun message =>
      if (db.prevCursor user channel).getD 0 < message.toInt64 then some (channel, message) else none

def markAllRead (user : Nat) (now : Int) : ReceiptDb :=
  let adv := db.behind user
  let after := adv.foldl (fun db it => db.writeCursor (maxWith it.2) user it.1 it.2 now) db
  after.note (adv.flatMap fun it => after.readCursorResult user it.1 it.2)

/-- `process_set_read_cursor`; `access` is whether the user may read the channel. -/
def setReadCursor (user channel : Nat) (message : UInt64) (access : Bool) (now : Int) : ReceiptDb :=
  if access then db.writeCursor (fun _ => message.toInt64) user channel message now else db

/-- `process_read_receipts`, set. To ask changes nothing. -/
def readReceipts (user : Nat) (share : Bool) (now : Int) : ReceiptDb :=
  note { db with
      users := Rows.update (·.id == user) (fun u =>
          { u with
            shareReceipts := share
            sinceMs := if share ∧ u.shareReceipts = false ∧ 0 ≤ u.sinceMs then now else u.sinceMs })
        db.users }
    (if share ∧ ∃ u ∈ db.users, u.id = user ∧ u.shareReceipts = false then [.switchedOn user now]
      else [])

/-- `receipts_start`, as the daemon starts with the workspace's switch on or off. -/
def restart (workspace : Bool) (now : Int) : ReceiptDb :=
  if workspace then
    note { db with
        workspace := true
        users := Rows.update (fun u => u.sinceMs < 0) (fun u => { u with sinceMs := now }) db.users }
      (if db.workspace then [] else [.workspaceOn now])
  else
    { db with
      workspace := false
      users := db.users.map fun u => { u with sinceMs := -1 } }

end ReceiptDb

inductive ReceiptJob where
  | clientAck (user channel : Nat) (message : UInt64)
  | markAllRead (user : Nat)
  | setReadCursor (user channel : Nat) (message : UInt64) (access : Bool)
  | readReceipts (user : Nat) (share : Bool)
  | askReceipts (user : Nat)
  | restart (workspace : Bool)
  /-- Whatever other jobs make of the channels' members and messages. -/
  | others (members : List (Nat × Nat)) (messages : List (Nat × UInt64))

namespace ReceiptDb

def process (db : ReceiptDb) (now : Int) : ReceiptJob → ReceiptDb
  | .clientAck user channel message => db.clientAck user channel message now
  | .markAllRead user => db.markAllRead user now
  | .setReadCursor user channel message access => db.setReadCursor user channel message access now
  | .readReceipts user share => db.readReceipts user share now
  | .askReceipts _ => db
  | .restart workspace => db.restart workspace now
  | .others members messages => { db with members := members, messages := messages }

def step (db : ReceiptDb) (job : ReceiptJob × Int) : Option ReceiptDb :=
  some { db.process job.2 job.1 with clock := job.2 }

def start (users : List (Nat × Bool)) (workspace : Bool) : ReceiptDb :=
  { users := users.map fun u => ⟨u.1, u.2, if workspace then 0 else -1⟩
    cursors := [], members := [], messages := [], workspace := workspace, clock := 0, log := [] }

end ReceiptDb

open ReceiptDb (cursorKey isCursor maxWith sharing behind)

/-! Whose timestamp is later than the user's stands for a read made while it was shared. -/

/-- The cursor was set to this message by a request made while it was shared, and no switch was
turned on since. -/
def ReadShared (before : List ReceiptEvent) (user channel : Nat) (message : UInt64) : Prop :=
  ∃ now, .cursorSet user channel message now true ∈ before ∧
    (∀ t, .switchedOn user t ∈ before → t ≤ now) ∧ ∀ t, .workspaceOn t ∈ before → t ≤ now

/-- Everything that was told of a reader was, at that moment, a read they had shared. -/
def DisclosesShared (log : List ReceiptEvent) : Prop :=
  ∀ n user channel message, log[n]? = some (.disclosed user channel message) →
    ReadShared (log.take n) user channel message

variable {db : ReceiptDb} {log more : List ReceiptEvent} {user channel : Nat} {message : UInt64}
  {now : Int} {clock : Int}

theorem DisclosesShared.append (old : DisclosesShared log)
    (new : ∀ k user channel message, more[k]? = some (.disclosed user channel message) →
      ReadShared (log ++ more.take k) user channel message) : DisclosesShared (log ++ more) := by
  intro n user channel message here
  rcases Nat.lt_or_ge n log.length with inside | past
  · rw [getElem?_append_left inside] at here
    rw [take_append_of_le_length (inside.le)]
    exact old n _ _ _ here
  · rw [getElem?_append_right past] at here
    rw [take_append, take_of_length_le past]
    exact new _ _ _ _ here

def ReceiptEvent.IsDisclosed : ReceiptEvent → Prop
  | .disclosed .. => True
  | _ => False

theorem ReadShared.append (shared : ReadShared log user channel message)
    (told : ∀ event ∈ more, event.IsDisclosed) : ReadShared (log ++ more) user channel message := by
  obtain ⟨now, asked, switched, workspace⟩ := shared
  refine ⟨now, mem_append_left _ asked, ?_, ?_⟩
  · intro t mem
    rcases mem_append.mp mem with old | new
    · exact switched t old
    · exact (told _ new).elim
  · intro t mem
    rcases mem_append.mp mem with old | new
    · exact workspace t old
    · exact (told _ new).elim

structure ReceiptsOk (db : ReceiptDb) : Prop where
  unique : Rows.Unique cursorKey db.cursors
  ids : Rows.Unique ReceiptUser.id db.users
  /-- With the workspace's switch off everyone is marked. -/
  marked : db.workspace = false → ∀ u ∈ db.users, u.sinceMs < 0
  since : db.workspace = true → ∀ u ∈ db.users, 0 ≤ u.sinceMs ∧ ∀ t, .workspaceOn t ∈ db.log → t ≤ u.sinceMs
  switched : db.workspace = true → ∀ u ∈ db.users, u.shareReceipts = true →
    ∀ t, .switchedOn u.id t ∈ db.log → t ≤ u.sinceMs
  read : db.workspace = true → ∀ u ∈ db.users, u.shareReceipts = true → ∀ dc ∈ db.cursors,
    dc.user = u.id → u.sinceMs < dc.updatedAtMs →
      ∃ now, .cursorSet dc.user dc.channel dc.message.toUInt64 now true ∈ db.log ∧ u.sinceMs < now
  discloses : DisclosesShared db.log

theorem ReceiptsOk.tell (ok : ReceiptsOk db)
    (shared : ∀ event ∈ more, ∃ user channel message, event = .disclosed user channel message ∧
      ReadShared db.log user channel message) : ReceiptsOk (db.note more) := by
  have told : ∀ event ∈ more, event.IsDisclosed := by
    intro event mem
    obtain ⟨_, _, _, rfl, _⟩ := shared event mem
    trivial
  constructor
  · exact ok.unique
  · exact ok.ids
  · exact ok.marked
  · intro on u isU
    obtain ⟨positive, started⟩ := ok.since on u isU
    refine ⟨positive, ?_⟩
    intro t mem
    rcases mem_append.mp mem with old | new
    · exact started t old
    · exact (told _ new).elim
  · intro on u isU share t mem
    rcases mem_append.mp mem with old | new
    · exact ok.switched on u isU share t old
    · exact (told _ new).elim
  · intro on u isU share dc isDc own later
    obtain ⟨now, asked, since⟩ := ok.read on u isU share dc isDc own later
    exact ⟨now, mem_append_left _ asked, since⟩
  · apply ok.discloses.append
    intro k user channel message here
    obtain ⟨_, _, _, same, isShared⟩ := shared _ (mem_of_getElem? here)
    cases same
    apply isShared.append
    intro event mem
    exact told event (mem_of_mem_take mem)

theorem mem_othersRead {event : ReceiptEvent} (mem : event ∈ db.othersRead user channel) :
    ∃ dc ∈ db.cursors, ∃ u ∈ db.users, event = .disclosed dc.user dc.channel dc.message.toUInt64 ∧
      u.id = dc.user ∧ u.shareReceipts = true ∧ u.sinceMs < dc.updatedAtMs := by
  obtain ⟨dc, isDc, inRows⟩ := mem_flatMap.mp mem
  obtain ⟨u, isU, rfl⟩ := mem_map.mp inRows
  obtain ⟨isU, chosen⟩ := mem_filter.mp isU
  simp only [Bool.and_eq_true, beq_iff_eq, bne_iff_ne, decide_eq_true_eq] at chosen
  obtain ⟨⟨⟨⟨⟨own, sameChannel⟩, _⟩, share⟩, _⟩, later⟩ := chosen
  rw [← sameChannel]
  exact ⟨dc, isDc, u, isU, rfl, own, share, later⟩

theorem sharing_iff : db.sharing user = true ↔
    db.workspace = true ∧ ∃ u ∈ db.users, u.id = user ∧ u.shareReceipts = true := by
  unfold sharing
  rw [Bool.and_eq_true, any_eq_true]
  simp only [Bool.and_eq_true, beq_iff_eq]

theorem ReceiptsOk.readCursorResult (ok : ReceiptsOk db)
    (asked : db.sharing user = true → .cursorSet user channel message now true ∈ db.log)
    (later : ∀ u ∈ db.users, u.sinceMs < now) :
    ∀ event ∈ db.readCursorResult user channel message, ∃ user channel message,
      event = .disclosed user channel message ∧ ReadShared db.log user channel message := by
  intro event mem
  rcases mem_append.mp mem with own | other
  · split at own
    · next shares =>
      rw [mem_singleton] at own
      refine ⟨_, _, _, own, now, asked shares, ?_⟩
      obtain ⟨on, u, isU, rfl, share⟩ := sharing_iff.mp shares
      constructor
      · intro t mem
        exact (ok.switched on u isU share t mem).trans (later u isU).le
      · intro t mem
        exact ((ok.since on u isU).2 t mem).trans (later u isU).le
    · cases own
  · split at other
    · next on =>
      obtain ⟨dc, isDc, u, isU, rfl, own, share, updated⟩ := mem_othersRead other
      obtain ⟨read, asked, since⟩ := ok.read on u isU share dc isDc own.symm updated
      refine ⟨_, _, _, rfl, read, asked, ?_, ?_⟩
      · intro t mem
        exact (ok.switched on u isU share t (own ▸ mem)).trans since.le
      · intro t mem
        exact ((ok.since on u isU).2 t mem).trans since.le
    · cases other

theorem ReceiptsOk.prevCursor {dc : CursorRow} (ok : ReceiptsOk db) (isDc : dc ∈ db.cursors)
    (key : cursorKey dc = (user, channel)) : db.prevCursor user channel = some dc.message := by
  unfold ReceiptDb.prevCursor isCursor
  rw [← key, ok.unique.find? isDc]
  rfl

theorem ReceiptsOk.storedBy {merge : Int64 → Int64} (ok : ReceiptsOk db)
    (goesOn : ∀ dc ∈ db.cursors, cursorKey dc = (user, channel) → merge dc.message = message.toInt64) :
    db.storedBy merge user channel message = message.toInt64 := by
  rw [ReceiptDb.storedBy]
  cases row : db.cursors.find? (isCursor user channel) with
  | none =>
    rw [ReceiptDb.prevCursor, row]
    rfl
  | some dc =>
    have isDc := mem_of_find?_eq_some row
    have matched : isCursor user channel dc = true := find?_some row
    have key : cursorKey dc = (user, channel) := beq_iff_eq.mp matched
    rw [ok.prevCursor isDc key]
    exact goesOn dc isDc key

theorem cursorSet_mem {merge : Int64 → Int64} (stored : db.storedBy merge user channel message = message.toInt64) :
    .cursorSet user channel message now (db.sharing user) ∈ (db.writeCursor merge user channel message now).log := by
  unfold ReceiptDb.writeCursor
  rw [if_pos stored]
  exact mem_concat_self

theorem mem_log_writeCursor {merge : Int64 → Int64} {event : ReceiptEvent}
    (mem : event ∈ (db.writeCursor merge user channel message now).log) :
    event ∈ db.log ∨ event = .cursorSet user channel message now (db.sharing user) := by
  rcases mem_append.mp mem with old | new
  · exact .inl old
  split at new
  · exact .inr (mem_singleton.mp new)
  · cases new

theorem ReceiptsOk.writeCursor {merge : Int64 → Int64} (ok : ReceiptsOk db) (later : ∀ u ∈ db.users, u.sinceMs < now)
    (merged : ∀ dc ∈ db.cursors, cursorKey dc = (user, channel) →
      merge dc.message = message.toInt64 ∨ merge dc.message = dc.message ∧
        (db.workspace = true → ∀ u ∈ db.users, u.id = user → u.shareReceipts = true → u.sinceMs < dc.updatedAtMs)) :
    ReceiptsOk (db.writeCursor merge user channel message now) := by
  constructor
  · refine ok.unique.upsert ?_ ?_
    · intro row
      rfl
    · intro row same
      exact beq_iff_eq.mpr same
  · exact ok.ids
  · exact ok.marked
  · intro on u isU
    obtain ⟨positive, started⟩ := ok.since on u isU
    refine ⟨positive, ?_⟩
    intro t mem
    rcases mem_log_writeCursor mem with old | new
    · exact started t old
    · cases new
  · intro on u isU share t mem
    rcases mem_log_writeCursor mem with old | new
    · exact ok.switched on u isU share t old
    · cases new
  · intro on u isU share dc isDc own updated
    have newest (isUser : u.id = user) (stored : db.storedBy merge user channel message = message.toInt64) :
        .cursorSet user channel message now true ∈ (db.writeCursor merge user channel message now).log := by
      rw [← sharing_iff.mpr ⟨on, u, isU, isUser, share⟩]
      exact cursorSet_mem stored
    rcases Rows.of_mem_upsert isDc with ⟨old, isOld, conflict, rfl⟩ | ⟨isOld, _⟩ | ⟨rfl, unmatched⟩
    · have key : cursorKey old = (user, channel) := beq_iff_eq.mp conflict
      obtain ⟨isUser, isChannel⟩ := Prod.mk.inj key
      rw [isUser, isChannel]
      rcases merged old isOld key with isNew | ⟨isSame, sharedThen⟩
      · refine ⟨now, ?_, later u isU⟩
        rw [isNew]
        refine newest (own.symm.trans isUser) (ok.storedBy fun dc isDc same => ?_)
        rw [ok.unique.eq isDc isOld (same.trans key.symm), isNew]
      have since := sharedThen on u isU (own.symm.trans isUser) share
      obtain ⟨read, asked, sinceRead⟩ := ok.read on u isU share old isOld own since
      refine ⟨read, mem_append_left _ ?_, sinceRead⟩
      rw [isSame, ← isUser, ← isChannel]
      exact asked
    · obtain ⟨read, asked, since⟩ := ok.read on u isU share dc isOld own updated
      exact ⟨read, mem_append_left _ asked, since⟩
    · refine ⟨now, ?_, later u isU⟩
      refine newest own.symm (ok.storedBy fun dc isDc key => ?_)
      have conflict := unmatched dc isDc
      rw [isCursor, key, beq_self_eq_true] at conflict
      cases conflict
  · apply ok.discloses.append
    intro k _ _ _ here
    have mem := mem_of_getElem? here
    split at mem
    · cases mem_singleton.mp mem
    · cases mem

namespace ReceiptDb

/-- An acknowledgement is not of an earlier message than the cursor's, unless nothing is shared, or
the cursor's own read already is and the message does not pass for a later one without its sign,
as none below 2 ^ 63 does. -/
def AckFits (db : ReceiptDb) (user channel : Nat) (message : UInt64) : Prop :=
  db.sharing user = true → ∀ dc ∈ db.cursors, cursorKey dc = (user, channel) →
    dc.message ≤ message.toInt64 ∨
      message ≤ dc.message.toUInt64 ∧ ∀ u ∈ db.users, u.id = user → u.sinceMs < dc.updatedAtMs

instance (db : ReceiptDb) (user channel : Nat) (message : UInt64) :
    Decidable (db.AckFits user channel message) := by
  unfold AckFits
  infer_instance

def Timely (db : ReceiptDb) (job : ReceiptJob × Int) : Prop :=
  db.clock < job.2 ∧ match job.1 with
    | .clientAck user channel message => db.AckFits user channel message
    | _ => True

instance (db : ReceiptDb) (job : ReceiptJob × Int) : Decidable (db.Timely job) := by
  unfold Timely
  cases job.1 <;> infer_instance

structure Past (db : ReceiptDb) (now : Int) : Prop where
  users : ∀ u ∈ db.users, u.sinceMs ≤ now
  cursors : ∀ dc ∈ db.cursors, dc.updatedAtMs ≤ now
  switches : ∀ event ∈ db.log, ∀ t, event.switchTime? = some t → t ≤ now
  positive : 0 ≤ now

theorem Past.later (past : db.Past clock) (goes : clock < now) : ∀ u ∈ db.users, u.sinceMs < now := by
  intro u isU
  exact Int.lt_of_le_of_lt (past.users u isU) goes

theorem Past.mono (past : db.Past clock) (goes : clock ≤ now) : db.Past now where
  users := by
    intro u isU
    exact (past.users u isU).trans goes
  cursors := by
    intro dc isDc
    exact (past.cursors dc isDc).trans goes
  switches := by
    intro event mem t isT
    exact (past.switches event mem t isT).trans goes
  positive := past.positive.trans goes

theorem Past.writeCursor {merge : Int64 → Int64} (past : db.Past now) :
    (db.writeCursor merge user channel message now).Past now where
  __ := past
  cursors := by
    intro dc isDc
    rcases Rows.of_mem_upsert isDc with ⟨old, _, _, rfl⟩ | ⟨isOld, _⟩ | ⟨rfl, _⟩
    · exact Int.le_refl _
    · exact past.cursors dc isOld
    · exact Int.le_refl _
  switches := by
    intro event mem t isT
    rcases mem_log_writeCursor mem with old | rfl
    · exact past.switches event old t isT
    · cases isT

theorem Past.note (past : db.Past now) (told : ∀ event ∈ more, event.IsDisclosed) : (db.note more).Past now where
  __ := past
  switches := by
    intro event mem t isT
    rcases mem_append.mp mem with old | new
    · exact past.switches event old t isT
    have disclosed := told event new
    cases event with
    | disclosed => cases isT
    | cursorSet | switchedOn | workspaceOn => exact disclosed.elim

end ReceiptDb

theorem readCursorResult_told {event : ReceiptEvent}
    (mem : event ∈ db.readCursorResult user channel message) : event.IsDisclosed := by
  rcases mem_append.mp mem with own | other
  · split at own
    · rw [mem_singleton.mp own]
      trivial
    · cases own
  split at other
  · obtain ⟨_, _, _, _, rfl, _⟩ := mem_othersRead other
    trivial
  · cases other

theorem maxWith_cases (message : UInt64) (old : Int64) : maxWith message old = message.toInt64 ∨
      maxWith message old = old ∧ ¬ old ≤ message.toInt64 := by
  unfold maxWith
  split
  · exact .inl rfl
  next notLess =>
  by_cases atMost : old ≤ message.toInt64
  · exact .inl (Int64.le_antisymm atMost (Int64.not_lt.mp notLess))
  · exact .inr ⟨rfl, atMost⟩

theorem behind_apart : ((db.behind user).map Prod.fst).Nodup := by
  refine Sublist.nodup ?_ (nodup_dedup ((db.members.filter (·.2 == user)).map Prod.fst))
  unfold behind
  generalize ((db.members.filter (·.2 == user)).map Prod.fst).dedup = channels
  rw [map_filterMap]
  induction channels with
  | nil => exact .refl _
  | cons channel channels ih =>
    rw [filterMap_cons]
    split
    · exact ih.cons _
    next found =>
    obtain ⟨it, chosen, rfl⟩ := Option.map_eq_some_iff.mp found
    obtain ⟨newest, _, isAhead⟩ := Option.bind_eq_some_iff.mp chosen
    split at isAhead
    · cases isAhead
      exact ih.cons_cons _
    · cases isAhead

variable (ok : ReceiptsOk db)

include ok

theorem ReceiptsOk.clientAck (later : ∀ u ∈ db.users, u.sinceMs < now) (past : db.Past now)
    (fits : db.AckFits user channel message) :
    ReceiptsOk (db.clientAck user channel message now) ∧ (db.clientAck user channel message now).Past now := by
  have written : ReceiptsOk (db.writeCursor (maxWith message) user channel message now) := by
    apply ok.writeCursor later
    intro dc isDc key
    rcases maxWith_cases message dc.message with isNew | ⟨isOld, earlier⟩
    · exact .inl isNew
    refine .inr ⟨isOld, ?_⟩
    intro on u isU isUser share
    rcases fits (sharing_iff.mpr ⟨on, u, isU, isUser, share⟩) dc isDc key with atMost | ⟨-, shared⟩
    · exact absurd atMost earlier
    · exact shared u isU isUser
  unfold ReceiptDb.clientAck
  dsimp only
  split
  · exact ⟨written, past.writeCursor⟩
  next told =>
  constructor
  · refine written.tell (written.readCursorResult (fun shares => ?_) later)
    rw [← show db.sharing user = true from shares]
    refine cursorSet_mem (ok.storedBy fun dc isDc key => ?_)
    rw [ok.prevCursor isDc key] at told
    rcases maxWith_cases message dc.message with isNew | ⟨-, earlier⟩
    · exact isNew
    rcases fits shares dc isDc key with atMost | ⟨untold, -⟩
    · exact absurd atMost earlier
    · exact absurd untold told
  · apply past.writeCursor.note
    intro event mem
    exact readCursorResult_told mem

/-- The writes of a catch-up: each channel's cursor goes on to a later message. -/
theorem ReceiptsOk.writeAll (adv : List (Nat × UInt64)) (later : ∀ u ∈ db.users, u.sinceMs < now)
    (apart : (adv.map Prod.fst).Nodup)
    (ahead : ∀ it ∈ adv, ∀ dc ∈ db.cursors, cursorKey dc = (user, it.1) → dc.message ≤ it.2.toInt64)
    (past : db.Past now) :
    ∃ after, adv.foldl (fun db it =>
        db.writeCursor (maxWith it.2) user it.1 it.2 now) db = after ∧
      ReceiptsOk after ∧ after.Past now ∧ after.users = db.users ∧
      after.workspace = db.workspace ∧ db.log ⊆ after.log ∧
      ∀ it ∈ adv, .cursorSet user it.1 it.2 now (db.sharing user) ∈ after.log := by
  induction adv generalizing db with
  | nil => exact ⟨db, rfl, ok, past, rfl, rfl, List.Subset.refl _, by simp⟩
  | cons it adv ih =>
    obtain ⟨new, apart⟩ := nodup_cons.mp apart
    have goesOn : ∀ dc ∈ db.cursors, cursorKey dc = (user, it.1) →
        maxWith it.2 dc.message = it.2.toInt64 := by
      intro dc isDc key
      rcases maxWith_cases it.2 dc.message with isNew | ⟨-, earlier⟩
      · exact isNew
      · exact absurd (ahead it mem_cons_self dc isDc key) earlier
    have written : ReceiptsOk (db.writeCursor (maxWith it.2) user it.1 it.2 now) :=
      ok.writeCursor later fun dc isDc key => .inl (goesOn dc isDc key)
    have stillAhead : ∀ other ∈ adv, ∀ dc ∈ (db.writeCursor (maxWith it.2) user it.1 it.2 now).cursors,
          cursorKey dc = (user, other.1) → dc.message ≤ other.2.toInt64 := by
      intro other isOther dc isDc key
      have isIt : cursorKey dc ≠ (user, it.1) := by
        intro same
        rw [← (Prod.mk.inj (key.symm.trans same)).2] at new
        exact new (mem_map_of_mem isOther)
      rcases Rows.of_mem_upsert isDc with ⟨old, _, conflict, rfl⟩ | ⟨isOld, _⟩ | ⟨rfl, -⟩
      · exact absurd (beq_iff_eq.mp conflict) isIt
      · exact ahead other (mem_cons_of_mem _ isOther) dc isOld key
      · exact absurd rfl isIt
    obtain ⟨after, folded, okAfter, pastAfter, users, workspace, logged, asked⟩ :=
      ih written later apart stillAhead past.writeCursor
    refine ⟨after, folded, okAfter, pastAfter, users, workspace, ?_, ?_⟩
    · exact List.Subset.trans (subset_append_left _ _) logged
    · intro other isOther
      rcases mem_cons.mp isOther with rfl | inRest
      · exact logged (cursorSet_mem (ok.storedBy goesOn))
      · exact asked other inRest

theorem behind_ahead : ∀ it ∈ db.behind user, ∀ dc ∈ db.cursors,
    cursorKey dc = (user, it.1) → dc.message ≤ it.2.toInt64 := by
  intro it isBehind dc isDc key
  obtain ⟨channel, _, chosen⟩ := mem_filterMap.mp isBehind
  obtain ⟨newest, _, isAhead⟩ := Option.bind_eq_some_iff.mp chosen
  split at isAhead
  · next less =>
    cases isAhead
    rw [ok.prevCursor isDc key] at less
    exact Int64.le_of_lt less
  · cases isAhead

theorem ReceiptsOk.markAllRead (later : ∀ u ∈ db.users, u.sinceMs < now) (past : db.Past now) :
    ReceiptsOk (db.markAllRead user now) ∧ (db.markAllRead user now).Past now := by
  obtain ⟨after, folded, okAfter, pastAfter, users, workspace, _, asked⟩ := ok.writeAll (db.behind user) later
      behind_apart (behind_ahead ok) past
  have sameSharing : after.sharing user = db.sharing user := by
    unfold sharing
    rw [users, workspace]
  unfold ReceiptDb.markAllRead
  dsimp only
  rw [folded]
  constructor
  · apply okAfter.tell
    intro event mem
    obtain ⟨it, isIt, inResult⟩ := mem_flatMap.mp mem
    refine okAfter.readCursorResult (fun shares => ?_) (by rwa [users]) event inResult
    rw [← sameSharing.symm.trans shares]
    exact asked it isIt
  · refine pastAfter.note ?_
    intro event mem
    obtain ⟨it, isIt, inResult⟩ := mem_flatMap.mp mem
    exact readCursorResult_told inResult

theorem ReceiptsOk.readReceipts {share : Bool} (past : db.Past clock) (goes : clock < now) :
    ReceiptsOk (db.readReceipts user share now) ∧ (db.readReceipts user share now).Past now := by
  have other : ∀ event, (∀ t, event ≠ .switchedOn user t) →
      event ∈ (db.readReceipts user share now).log → event ∈ db.log := by
    intro event notSwitch mem
    rcases mem_append.mp mem with old | new
    · exact old
    split at new
    · exact absurd (mem_singleton.mp new) (notSwitch now)
    · cases new
  have started : db.workspace = true → ∀ u ∈ db.users,
      ∀ t, .workspaceOn t ∈ (db.readReceipts user share now).log → t ≤ u.sinceMs := by
    intro on u isU t mem
    exact (ok.since on u isU).2 t (other _ nofun mem)
  constructor
  · constructor
    · exact ok.unique
    · exact ok.ids.update (fun _ => rfl)
    · intro off u isU
      rcases Rows.mem_update.mp isU with ⟨old, isOld, _, rfl⟩ | ⟨isOld, _⟩
      · have marked := ok.marked off old isOld
        rw [if_neg (by omega)]
        exact marked
      · exact ok.marked off u isOld
    · intro on u isU
      rcases Rows.mem_update.mp isU with ⟨old, isOld, _, rfl⟩ | ⟨isOld, _⟩
      · have positive := (ok.since on old isOld).1
        have before := past.users old isOld
        dsimp only
        split
        · refine ⟨by omega, ?_⟩
          intro t mem
          have atMost := started on old isOld t mem
          omega
        · exact ⟨positive, started on old isOld⟩
      · exact ⟨(ok.since on u isOld).1, started on u isOld⟩
    · intro on u isU shares t mem
      rcases Rows.mem_update.mp isU with ⟨old, isOld, chosen, rfl⟩ | ⟨isOld, notChosen⟩
      · have positive := (ok.since on old isOld).1
        have own : old.id = user := beq_iff_eq.mp chosen
        dsimp only at shares mem ⊢
        rcases mem_append.mp mem with before | new
        · have bound := past.switches _ before t rfl
          split
          · omega
          next notTurned =>
          have shared : old.shareReceipts = true := by
            by_contra notShared
            exact notTurned ⟨shares, Bool.eq_false_iff.mpr notShared, positive⟩
          exact ok.switched on old isOld shared t before
        · split at new
          · next turned =>
            cases mem_singleton.mp new
            obtain ⟨isOn, u, isU, isUser, notShared⟩ := turned
            have same : u = old := ok.ids.eq isU isOld (isUser.trans own.symm)
            subst same
            rw [if_pos ⟨isOn, notShared, positive⟩]
          · cases new
      · have notOwn : u.id ≠ user := by simpa using notChosen
        apply ok.switched on u isOld shares t
        apply other _ _ mem
        intro t' same
        cases same
        exact notOwn rfl
    · intro on u isU shares dc isDc own updated
      rcases Rows.mem_update.mp isU with ⟨old, isOld, _, rfl⟩ | ⟨isOld, _⟩
      · have positive := (ok.since on old isOld).1
        have before := past.cursors dc isDc
        dsimp only at shares own updated ⊢
        split at updated
        · omega
        next notTurned =>
        have shared : old.shareReceipts = true := by
          by_contra notShared
          exact notTurned ⟨shares, Bool.eq_false_iff.mpr notShared, positive⟩
        rw [if_neg notTurned]
        obtain ⟨read, asked, since⟩ := ok.read on old isOld shared dc isDc own updated
        exact ⟨read, mem_append_left _ asked, since⟩
      · obtain ⟨read, asked, since⟩ := ok.read on u isOld shares dc isDc own updated
        exact ⟨read, mem_append_left _ asked, since⟩
    · apply ok.discloses.append
      intro k _ _ _ here
      have mem := mem_of_getElem? here
      split at mem
      · cases mem_singleton.mp mem
      · cases mem
  · refine { past.mono goes.le with users := ?_, switches := ?_ }
    · intro u isU
      rcases Rows.mem_update.mp isU with ⟨old, isOld, _, rfl⟩ | ⟨isOld, _⟩
      · have before := past.users old isOld
        dsimp only
        split <;> omega
      · have before := past.users u isOld
        omega
    · intro event mem t isT
      rcases mem_append.mp mem with old | new
      · exact (past.switches event old t isT).trans goes.le
      split at new
      · rw [mem_singleton.mp new] at isT
        cases isT
        exact Int.le_refl _
      · cases new

theorem restart_on_eq (on : db.workspace = true) : db.restart true now = db := by
  have kept : Rows.update (fun u => decide (u.sinceMs < 0))
      (fun u : ReceiptUser => { u with sinceMs := now }) db.users = db.users := by
    apply Rows.update_of_none
    intro u isU
    have positive := (ok.since on u isU).1
    simpa using positive
  unfold ReceiptDb.restart ReceiptDb.note
  rw [if_pos rfl, kept, if_pos on, append_nil, ← on]

theorem ReceiptsOk.restart_off (past : db.Past clock) (goes : clock < now) :
    ReceiptsOk (db.restart false now) ∧ (db.restart false now).Past now := by
  constructor
  · constructor
    · exact ok.unique
    · have same : (db.restart false now).users.map ReceiptUser.id = db.users.map ReceiptUser.id := by
        unfold ReceiptDb.restart
        simp
      unfold Rows.Unique
      rw [same]
      exact ok.ids
    · intro _ u isU
      obtain ⟨old, _, rfl⟩ := mem_map.mp isU
      exact Int.negSucc_lt_zero 0
    · nofun
    · nofun
    · nofun
    · exact ok.discloses
  · refine { past.mono goes.le with users := ?_ }
    intro u isU
    obtain ⟨old, _, rfl⟩ := mem_map.mp isU
    have positive := past.positive
    dsimp only
    omega

theorem ReceiptsOk.restart_on (past : db.Past clock) (goes : clock < now) (off : db.workspace = false) :
    ReceiptsOk (db.restart true now) ∧ (db.restart true now).Past now := by
  have fromNow : ∀ u ∈ (db.restart true now).users, u.sinceMs = now := by
    intro u isU
    rcases Rows.mem_update.mp isU with ⟨old, _, _, rfl⟩ | ⟨isOld, notMarked⟩
    · rfl
    · exact absurd (ok.marked off u isOld) (by simpa using notMarked)
  have switches : ∀ event ∈ (db.restart true now).log, ∀ t, event.switchTime? = some t → t ≤ now := by
    intro event mem t isT
    rcases mem_append.mp mem with old | new
    · exact (past.mono goes.le).switches event old t isT
    rw [off, if_neg Bool.false_ne_true, mem_singleton] at new
    rw [new] at isT
    cases isT
    exact Int.le_refl _
  have positive := past.positive
  constructor
  · constructor
    · exact ok.unique
    · exact ok.ids.update (fun _ => rfl)
    · nofun
    · intro _ u isU
      rw [fromNow u isU]
      exact ⟨by omega, fun t mem => switches _ mem t rfl⟩
    · intro _ u isU _ t mem
      rw [fromNow u isU]
      exact switches _ mem t rfl
    · intro _ u isU _ dc isDc _ updated
      have before := past.cursors dc isDc
      rw [fromNow u isU] at updated
      omega
    · apply ok.discloses.append
      intro k _ _ _ here
      have mem := mem_of_getElem? here
      rw [off] at mem
      cases mem_singleton.mp mem
  · refine ⟨?_, (past.mono goes.le).cursors, switches, by omega⟩
    intro u isU
    rw [fromNow u isU]

theorem ReceiptsOk.process {job : ReceiptJob} (past : db.Past db.clock) (timely : db.Timely (job, now)) :
    ReceiptsOk (db.process now job) ∧ (db.process now job).Past now := by
  obtain ⟨goes, fits⟩ := timely
  have later := past.later goes
  have onward := past.mono goes.le
  cases job with
  | clientAck user channel message => exact ok.clientAck later onward fits
  | markAllRead user => exact ok.markAllRead later onward
  | setReadCursor user channel message access =>
    cases access with
    | false => exact ⟨ok, onward⟩
    | true =>
      dsimp only [ReceiptDb.process, ReceiptDb.setReadCursor]
      rw [if_pos rfl]
      refine ⟨ok.writeCursor later ?_, onward.writeCursor⟩
      intro _ _ _
      exact .inl rfl
  | readReceipts user share => exact ok.readReceipts past goes
  | askReceipts user => exact ⟨ok, onward⟩
  | restart workspace =>
    cases workspace with
    | false => exact ok.restart_off past goes
    | true =>
      cases was : db.workspace with
      | false => exact ok.restart_on past goes was
      | true =>
        dsimp only [ReceiptDb.process]
        rw [restart_on_eq ok was]
        exact ⟨ok, onward⟩
  | others members messages =>
    exact ⟨{ ok with }, { onward with }⟩

omit ok

theorem ReceiptsOk.start {users : List (Nat × Bool)} (ids : (users.map Prod.fst).Nodup)
    (workspace : Bool) : ReceiptsOk (.start users workspace) := by
  constructor
  · exact nodup_nil
  · unfold Rows.Unique ReceiptDb.start
    rw [map_map]
    exact ids
  · intro off u isU
    obtain ⟨_, _, rfl⟩ := mem_map.mp isU
    dsimp only [ReceiptDb.start] at off ⊢
    rw [off]
    decide
  · intro on u isU
    obtain ⟨_, _, rfl⟩ := mem_map.mp isU
    dsimp only [ReceiptDb.start] at on ⊢
    rw [on]
    exact ⟨Int.le_refl _, by simp⟩
  · nofun
  · nofun
  · nofun

/-- In every run in which acknowledgements fit, all that is told of a reader was read while it was
shared. -/
theorem only_shared_reads_are_told {users : List (Nat × Bool)} {workspace : Bool}
    {jobs : List (ReceiptJob × Int)} (ids : (users.map Prod.fst).Nodup)
    (run : Machine.Run ReceiptDb.step ReceiptDb.Timely (.start users workspace) jobs db) :
    DisclosesShared db.log := by
  refine (run.invariant (fun _ db => ReceiptsOk db ∧ db.Past db.clock) ⟨.start ids workspace, ?_⟩ ?_).1.discloses
  · constructor
    · intro u isU
      obtain ⟨_, _, rfl⟩ := mem_map.mp isU
      dsimp only [ReceiptDb.start]
      split <;> decide
    · nofun
    · nofun
    · exact Int.le_refl _
  · rintro _ ⟨job, now⟩ db after ⟨ok, past⟩ timely taken
    cases taken
    obtain ⟨okAfter, pastAfter⟩ := ok.process past timely
    exact ⟨{ okAfter with }, { pastAfter with }⟩

/-- Two members, the first not sharing. The first reads, shares, reads on, and the second asks. -/
def sharedJobs : List (ReceiptJob × Int) :=
  [(.clientAck 1 7 10, 1), (.readReceipts 1 true, 2), (.clientAck 1 7 12, 3), (.clientAck 2 7 5, 4)]

theorem only_shared_reads_are_told_later :
    ∃ db, Machine.Run ReceiptDb.step ReceiptDb.Timely (.start [(1, false), (2, true)] true) sharedJobs db ∧
      .disclosed 1 7 12 ∈ db.log ∧ DisclosesShared db.log := by
  obtain ⟨db, followed⟩ : ∃ db, Machine.follow ReceiptDb.step
      (fun db job => decide (db.Timely job)) (.start [(1, false), (2, true)] true) sharedJobs = some db := ⟨_, rfl⟩
  have run := Machine.Run.nil.of_follow (fun _ _ => of_decide_eq_true) followed
  refine ⟨db, run, ?_, only_shared_reads_are_told (by decide) run⟩
  cases followed
  decide

/-- The same with an acknowledgement of an earlier message in between: it makes the old read look
new. -/
def refreshedJobs : List (ReceiptJob × Int) :=
  [(.clientAck 1 7 10, 1), (.readReceipts 1 true, 2), (.clientAck 1 7 5, 3), (.clientAck 2 7 5, 4)]

theorem unshared_read_told : ∃ db, Machine.Run ReceiptDb.step (fun db job => db.clock < job.2)
        (.start [(1, false), (2, true)] true) refreshedJobs db ∧ ¬ DisclosesShared db.log := by
  obtain ⟨db, followed⟩ : ∃ db, Machine.follow ReceiptDb.step
      (fun db job => decide (db.clock < job.2)) (.start [(1, false), (2, true)] true)
        refreshedJobs = some db := ⟨_, rfl⟩
  refine ⟨db, Machine.Run.nil.of_follow (fun _ _ => of_decide_eq_true) followed, ?_⟩
  have before : db.log.take 4 = [.cursorSet 1 7 10 1 false, .switchedOn 1 2, .cursorSet 2 7 5 4 true, .disclosed 2 7
    5] := by
    cases followed
    rfl
  have told : db.log[4]? = some (.disclosed 1 7 10) := by
    cases followed
    rfl
  intro discloses
  obtain ⟨now, asked, _⟩ := discloses 4 1 7 10 told
  rw [before] at asked
  simp at asked

end OpenChime.Daemon
