import OpenChime.Daemon.SumOutlives

/-! A period answered from storage and the messages of its span. A stored period stands for the
messages its build read; whatever changes which messages are of the span, or what they say, has to
take the period along or be seen by the guard when the period is stored. -/

set_option autoImplicit false

namespace OpenChime.Daemon.Summary

open OpenChime.Shared List Summary.MessageRow SumState

variable {Key : Type}

/-- The thread's last activity is before `stop`. -/
def quietBy (rows : List MessageRow) (root : Nat) (stop : Int) : Bool :=
  rows.all fun q => !(q.inThread root && q.live) || decide (q.created < stop)

def MessageRow.inSpan (channel : Nat) (start stop : Int) (r : MessageRow) : Bool :=
  r.channel == channel && r.live && decide (start ≤ r.created) && decide (r.created < stop)

def cover (rows : List MessageRow) (channel : Nat) (start stop : Int) : List (Nat × Text) :=
  (rows.filter fun r => r.inSpan channel start stop && quietBy rows r.root stop).map fun r => (r.id, r.body)

section Cover

variable {rows rows' : List MessageRow} {channel : Nat} {start stop : Int}

theorem quietBy_iff {root : Nat} :
    quietBy rows root stop = true ↔ ∀ q ∈ rows, q.inThread root = true → q.live = true → q.created < stop := by
  unfold quietBy
  rw [all_eq_true]
  constructor
  · intro each q mem inThread live
    have holds := each q mem
    simpa [inThread, live] using holds
  · intro each q mem
    by_cases inIt : q.inThread root = true ∧ q.live = true
    · simp [each q mem inIt.1 inIt.2]
    · rw [← Bool.and_eq_true] at inIt
      simp [inIt]

theorem mem_cover {shown : Nat × Text} : shown ∈ cover rows channel start stop ↔
      ∃ r ∈ rows, r.inSpan channel start stop = true ∧ quietBy rows r.root stop = true ∧ (r.id, r.body) = shown := by
  unfold cover
  simp only [mem_map, mem_filter, Bool.and_eq_true, and_assoc]

theorem MessageRow.inSpan_iff {r : MessageRow} : r.inSpan channel start stop = true ↔
      r.channel = channel ∧ r.live = true ∧ start ≤ r.created ∧ r.created < stop := by
  unfold inSpan
  simp only [Bool.and_eq_true, beq_iff_eq, decide_eq_true_eq, and_assoc]

/-- What the rows of one message say of a thread's last activity. -/
def QuietAt (rows : List MessageRow) (message root : Nat) (stop : Int) : Prop :=
  ∀ q ∈ rows, q.id = message → q.inThread root = true → q.live = true → q.created < stop

/-- Tables that differ in one message only, which is not of the span in either. -/
structure Differ (rows rows' : List MessageRow) (message channel : Nat) (start stop : Int) : Prop where
  others : ∀ r, r.id ≠ message → (r ∈ rows ↔ r ∈ rows')
  outside : ∀ r ∈ rows, r.id = message → r.inSpan channel start stop = false
  outside' : ∀ r ∈ rows', r.id = message → r.inSpan channel start stop = false
  activity : ∀ r ∈ rows, r.id ≠ message → r.inSpan channel start stop = true →
    (QuietAt rows message r.root stop ↔ QuietAt rows' message r.root stop)

variable {message : Nat} (differ : Differ rows rows' message channel start stop)

include differ

theorem Differ.symm : Differ rows' rows message channel start stop where
  others r other := (differ.others r other).symm
  outside := differ.outside'
  outside' := differ.outside
  activity r mem other inSpan := (differ.activity r ((differ.others r other).mpr mem) other inSpan).symm

theorem Differ.cover_subset {shown : Nat × Text} (mem : shown ∈ cover rows channel start stop) :
    shown ∈ cover rows' channel start stop := by
  obtain ⟨r, isRow, inSpan, quiet, same⟩ := mem_cover.mp mem
  have other : r.id ≠ message := by
    intro same
    simp [differ.outside r isRow same] at inSpan
  rw [quietBy_iff] at quiet
  refine mem_cover.mpr ⟨r, (differ.others r other).mp isRow, inSpan, ?_, same⟩
  rw [quietBy_iff]
  intro q isQ inThread live
  by_cases here : q.id = message
  · have before : QuietAt rows message r.root stop := fun q isQ _ => quiet q isQ
    exact (differ.activity r isRow other inSpan).mp before q isQ here inThread live
  · exact quiet q ((differ.others q here).mpr isQ) inThread live

theorem Differ.cover_iff (shown : Nat × Text) :
    shown ∈ cover rows channel start stop ↔ shown ∈ cover rows' channel start stop :=
  ⟨differ.cover_subset, differ.symm.cover_subset⟩

end Cover

def dayMs : Int := 86400000

def dayStart (t zone : Int) : Int := (t + zone * 60000) / dayMs * dayMs - zone * 60000

inductive Scope where
  | week
  | today
  | daily
  | range (start stop : Int)
  | unread

def afterCursor : Option Int → Int
  | none => 0
  | some c => max 0 (c + 1)

/-- The span a reader means; `cursor` is when the last message they read was posted. -/
def spanOf (now zone : Int) (cursor : Option Int) : Scope → Int × Int
  | .week => (dayStart now zone - 6 * dayMs, dayStart now zone + dayMs)
  | .today => (dayStart now zone, now + 1)
  | .daily => (dayStart now zone - dayMs, now + 1)
  | .range start stop => (start, stop)
  | .unread => (afterCursor cursor, now + 1)

inductive LookupAnswer (Key : Type) where
  | forbidden
  | failed
  | found (n : Node Key) (start stop : Int)
  | needed (start stop : Int)

def Scope.refused : Scope → Bool
  | .range start stop => decide (stop ≤ start)
  | .week => false
  | .today => false
  | .daily => false
  | .unread => false

/-- What a reader asks for, and what the reader's other tables say of them. -/
structure LookupRequest where
  channel : Nat
  scope : Scope
  now : Int
  zone : Int
  cursor : Option Int
  access : Bool
  version : Text

def SumDb.summaryLookup (db : SumDb Key) (readable : Text → Bool) (request : LookupRequest) : LookupAnswer Key :=
  if !request.access then .forbidden
  else if request.scope.refused then .failed
  else
    let span := spanOf request.now request.zone request.cursor request.scope
    match db.findPeriod request.channel span.1 span.2 request.zone request.version true with
    | none => .needed span.1 span.2
    | some n => if readable n.body then .found n span.1 span.2 else .needed span.1 span.2

variable {n : Node Key}

theorem newest_mem {nodes : List (Node Key)} (is : newest nodes = some n) : n ∈ nodes := by
  induction nodes with
  | nil => cases is
  | cons first rest ih =>
    unfold newest at is
    cases later : newest rest with
    | none =>
      rw [later] at is
      cases is
      exact mem_cons_self
    | some best =>
      rw [later] at is
      dsimp only at is
      split at is
      · cases is
        exact mem_cons_self
      · cases is
        exact mem_cons_of_mem first (ih later)

theorem of_findPeriod {db : SumDb Key} {channel : Nat} {start stop zone : Int} {version : Text} {allowOld : Bool}
    (found : db.findPeriod channel start stop zone version allowOld = some n) :
    n ∈ db.nodes ∧ n.channel = channel ∧ n.kind = .period ∧ n.start = start ∧ n.stop = stop := by
  have inIt : n ∈ db.nodes.filter fun n => n.channel == channel && n.kind == .period &&
      n.start == start && n.stop == stop && n.zone == zone := by
    unfold SumDb.findPeriod at found
    dsimp only at found
    split at found
    · next m is =>
      cases found
      exact mem_of_mem_filter (newest_mem is)
    · split at found
      · exact newest_mem found
      · cases found
  obtain ⟨isNode, holds⟩ := mem_filter.mp inIt
  simp only [Bool.and_eq_true, beq_iff_eq] at holds
  exact ⟨isNode, holds.1.1.1.1, holds.1.1.1.2, holds.1.1.2, holds.1.2⟩

theorem of_summaryLookup {db : SumDb Key} {readable : Text → Bool} {request : LookupRequest} {start stop : Int}
    (found : db.summaryLookup readable request = .found n start stop) :
    n ∈ db.nodes ∧ n.channel = request.channel ∧ n.kind = .period ∧ n.start = start ∧ n.stop = stop := by
  unfold SumDb.summaryLookup at found
  split at found
  · cases found
  split at found
  · cases found
  dsimp only at found
  split at found
  · cases found
  next m is =>
  split at found
  · cases found
    exact of_findPeriod is
  · cases found

/-- The node is built on the message, directly or through other stored nodes, as the purge finds it. -/
def SumDb.restsOn (db : SumDb Key) (message : Nat) (n : Node Key) : Bool :=
  Upward.upward db.nodes (·.holds message) Node.builtOn n

/-- A message of the thread posted, deleted or restored at or after the end of a stored period moves
the thread's last activity across that end: the period is built on the thread's root, or the thread
has no message of its span. -/
def Crosses (db : SumDb Key) (channel root : Nat) (created : Int) : Prop :=
  ∀ n ∈ db.nodes, n.kind = .period → n.channel = channel → n.stop ≤ created → db.restsOn root n = true ∨
      ∀ r ∈ db.messages, r.inThread root = true → r.inSpan channel n.start n.stop = false

def AtMessage (db : SumDb Key) (channel message : Nat) (holds : MessageRow → Prop) : Prop :=
  ∀ r ∈ db.lookup channel message, holds r

/-- The purge of a job reaches every stored period whose span it changes. -/
def Reaches (db : SumDb Key) (now : Int) : SumJob → Prop
  | .send .. => True
  | .callEvent .. => True
  | .edit .. => True
  | .webhookPost channel _ _ _ =>
    ∀ n ∈ db.nodes, n.kind = .period → n.channel = channel → ¬ (n.start ≤ now ∧ now < n.stop)
  | .reply channel _ parent _ _ =>
    AtMessage db channel parent fun r => Crosses db channel r.root now
  | .delete channel message _ _ =>
    AtMessage db channel message fun r => Crosses db channel r.root r.created
  | .restore channel message _ _ =>
    AtMessage db channel message fun r => Crosses db channel r.root r.created

/-- Nothing has arrived in the span since it was read; what was read and is not deleted is still of
the span; and what was read but is not among what the period was made of is as it was. -/
def SpanSettled (rows : List MessageRow) (channel : Nat) (x : NewNode Key) : Prop :=
  (∀ shown ∈ cover rows channel x.start x.stop, shown.1 ∈ (cover x.seen channel x.start x.stop).map Prod.fst) ∧
  ∀ shown ∈ cover x.seen channel x.start x.stop, ((∃ r ∈ rows, r.id = shown.1 ∧ r.deleted = false) →
      shown.1 ∈ (cover rows channel x.start x.stop).map Prod.fst) ∧
    (shown ∉ x.texts → shown ∈ cover rows channel x.start x.stop)

def SumState.batch (state : SumState Key) : List (Nat × NewNode Key) :=
  match state.worker with
  | some ⟨channel, _, .done nodes⟩ => nodes.map fun x => (channel, x)
  | _ => []

def Seen (state : SumState Key) : SumEvent Key → Prop
  | .job now job => EditsLater state.db now job ∧ RestoresWhole state.db job ∧ Reaches state.db now job
  | .store => ∀ x ∈ state.batch, x.2.kind = .period → SpanSettled state.db.messages x.1 x.2
  | _ => True

section Jobs

variable {record : Record Key} {db db' : SumDb Key}

/-- Every stored period is of the messages its build read. -/
def CoversAll (db : SumDb Key) : Prop :=
  ∀ n ∈ db.nodes, n.kind = .period → ∀ shown,
    (shown ∈ cover db.messages n.channel n.start n.stop ↔ shown ∈ cover n.seen n.channel n.start n.stop)

theorem CoversAll.of_differ (covers : CoversAll db) (message : Nat) (fewer : ∀ n ∈ db'.nodes, n ∈ db.nodes)
    (differ : ∀ n ∈ db'.nodes, n.kind = .period → Differ db.messages db'.messages message n.channel n.start n.stop) :
    CoversAll db' := by
  intro n mem isPeriod shown
  rw [← (differ n mem isPeriod).cover_iff]
  exact covers n (fewer n mem) isPeriod shown

variable {message channel root : Nat} {r row : MessageRow} {n : Node Key} {stop : Int}

theorem of_mem_purgeMessage (unique : Rows.Unique (·.id) db.messages) (isRow : r ∈ db.messages)
    (isId : r.id = message) (mem : n ∈ (db.purgeMessage message).nodes) :
    n ∈ db.nodes ∧ db.gone r.channel message r.root r.created n = false := by
  have found := unique.find? isRow
  rw [isId] at found
  unfold SumDb.purgeMessage at mem
  rw [found] at mem
  exact Rows.mem_delete.mp mem

variable {created : Int} (notGone : db.gone channel message root created n = false)

include notGone

theorem not_covers_of_not_gone (isPeriod : n.kind = .period)
    (here : n.channel = channel) : ¬ (n.start ≤ created ∧ created < n.stop) := by
  rintro ⟨from', upTo⟩
  have covers : n.covers channel created = true := by
    unfold Node.covers
    simp [here, isPeriod, from', upTo]
  have gone : db.gone channel message root created n = true := Upward.upward_of_seed (by simp [covers])
  simp [notGone] at gone

theorem not_restsOn_of_not_gone : db.restsOn root n = false := by
  by_contra rests
  have gone : db.gone channel message root created n = true :=
    Upward.upward_mono (fun n holds => by simp [holds]) (Bool.eq_true_of_not_eq_false rests)
  simp [notGone] at gone

omit notGone

theorem Tables.root_eq (tables : Tables record db) {q : MessageRow} (isQ : q ∈ db.messages)
    (isR : r ∈ db.messages) (inThread : q.inThread r.root = true) : q.root = r.root := by
  unfold MessageRow.inThread at inThread
  rw [Bool.or_eq_true, beq_iff_eq, beq_iff_eq] at inThread
  rcases inThread with same | isParent
  · have top : q.parent = none := by
      cases isParent : r.parent with
      | none =>
        have isRoot : r.root = r.id := by rw [root, isParent, Option.getD_none]
        rw [tables.unique.eq isQ isR (same.trans isRoot), isParent]
      | some p =>
        have isRoot : r.root = p := by rw [root, isParent, Option.getD_some]
        obtain ⟨root, isRow, isId, _, top⟩ := tables.threads r isR p isParent
        rw [tables.unique.eq isQ isRow ((same.trans isRoot).trans isId.symm), top]
    rw [← same, root, top, Option.getD_none]
  · rw [root, isParent, Option.getD_some]

theorem MessageRow.inThread_root (r : MessageRow) : r.inThread r.root = true := by
  unfold inThread root
  cases r.parent with
  | none => simp
  | some p => simp

variable {rows : List MessageRow}

/-- A job's message whose purge left a period with a message of its thread is before the end. -/
theorem lt_stop_of_crosses (crosses : Crosses db n.channel root created) (isNode : n ∈ db.nodes)
    (isPeriod : n.kind = .period) (notRests : db.restsOn root n = false) (isR : r ∈ db.messages)
    (sameRoot : r.root = root) (inSpan : r.inSpan n.channel n.start n.stop = true) : created < n.stop := by
  by_contra late
  rw [Int.not_lt] at late
  rcases crosses n isNode isPeriod rfl late with rests | none
  · rw [notRests] at rests
    cases rests
  · simp [none r isR (sameRoot ▸ r.inThread_root)] at inSpan

/-! A message posted -/

theorem differ_insert {new : MessageRow} {start : Int}
    (fresh : ∀ r ∈ rows, r.id ≠ new.id) (outside : new.inSpan channel start stop = false)
    (activity : ∀ r ∈ rows, r.inSpan channel start stop = true → new.inThread r.root = true →
      new.live = true → new.created < stop) :
    Differ rows (rows ++ [new]) new.id channel start stop where
  others r other := by
    rw [mem_append, mem_singleton]
    constructor
    · exact .inl
    · rintro (old | rfl)
      · exact old
      · exact absurd rfl other
  outside r mem same := absurd same (fresh r mem)
  outside' r mem same := by
    rcases Rows.mem_insert.mp mem with old | rfl
    · exact absurd same (fresh r old)
    · exact outside
  activity r mem _ inSpan := by
    constructor
    · intro _ q isQ same inThread live
      rcases mem_append.mp isQ with old | isNew
      · exact absurd same (fresh q old)
      · rw [mem_singleton.mp isNew] at inThread live ⊢
        exact activity r mem inSpan inThread live
    · exact fun _ q isQ same => absurd same (fresh q isQ)

theorem Tables.root_lt (tables : Tables record db) (isRow : r ∈ db.messages) : r.root < db.nextMessage := by
  obtain ⟨root, isRoot, isId, _⟩ := tables.root_channel isRow
  rw [← isId]
  exact tables.below root isRoot

theorem differ_post (tables : Tables record db) {author kind spanChannel : Nat}
    {parent : Option Nat} {now start : Int} {body : Text}
    (outside : channel = spanChannel → kind = 0 → ¬ (start ≤ now ∧ now < stop))
    (activity : ∀ r ∈ db.messages, r.inSpan spanChannel start stop = true → parent = some r.root →
      kind = 0 → now < stop) :
    Differ db.messages (db.insertMessage channel author parent now kind body).messages db.nextMessage
      spanChannel start stop := by
  refine differ_insert (fun r mem => (tables.below r mem).ne) ?_ ?_
  · rw [Bool.eq_false_iff]
    intro inSpan
    obtain ⟨here, live, begins, ends⟩ := inSpan_iff.mp inSpan
    exact outside here (by simpa [MessageRow.live] using live) ⟨begins, ends⟩
  · intro r mem inSpan inThread live
    refine activity r mem inSpan ?_ (by simpa [MessageRow.live] using live)
    unfold MessageRow.inThread at inThread
    rw [Bool.or_eq_true, beq_iff_eq, beq_iff_eq] at inThread
    rcases inThread with isRoot | isParent
    · exact absurd isRoot.symm ((tables.root_lt mem).ne)
    · exact isParent

/-! A message changed in place -/

theorem quietAt_iff (unique : Rows.Unique (·.id) rows) (isRow : row ∈ rows) (isId : row.id = message) :
    QuietAt rows message root stop ↔ (row.inThread root = true → row.live = true → row.created < stop) := by
  constructor
  · exact fun quiet => quiet row isRow isId
  · intro quiet q isQ same
    rw [unique.eq isQ isRow (same.trans isId.symm)]
    exact quiet

variable {f : MessageRow → MessageRow} (tables : Tables record db)

include tables

theorem differ_change {start : Int}
    (inPlace : InPlace f) (time : ∀ r, (f r).created = r.created) (isRow : row ∈ db.messages)
    (isId : row.id = message)
    (outside : row.channel = channel → ¬ (start ≤ row.created ∧ row.created < stop))
    (activity : ∀ r ∈ db.messages, r.inSpan channel start stop = true → row.inThread r.root = true →
      (f row).live = row.live ∨ row.created < stop) :
    Differ db.messages (db.change message f).messages message channel start stop := by
  have unique : Rows.Unique (·.id) (db.change message f).messages := tables.unique.update inPlace.id
  have isNew : f row ∈ (db.change message f).messages := mem_change.mpr (.inl ⟨row, isRow, isId, rfl⟩)
  have newId : (f row).id = message := (inPlace.id row).trans isId
  have away : ∀ x : MessageRow, x.channel = row.channel → x.created = row.created →
      x.inSpan channel start stop = false := by
    intro x same at'
    rw [Bool.eq_false_iff]
    intro inSpan
    obtain ⟨here, _, begins, ends⟩ := inSpan_iff.mp inSpan
    exact outside (same.symm.trans here) ⟨at' ▸ begins, at' ▸ ends⟩
  constructor
  case others =>
    intro r other
    rw [mem_change]
    constructor
    · exact fun mem => .inr ⟨mem, other⟩
    · rintro (⟨old, _, same, rfl⟩ | ⟨mem, _⟩)
      · exact absurd ((inPlace.id old).trans same) other
      · exact mem
  case outside =>
    intro r mem same
    rw [tables.unique.eq mem isRow (same.trans isId.symm)]
    exact away row rfl rfl
  case outside' =>
    intro r mem same
    rw [unique.eq mem isNew (same.trans newId.symm)]
    exact away (f row) (inPlace.channel row) (time row)
  case activity =>
    intro r mem _ inSpan
    rw [quietAt_iff tables.unique isRow isId, quietAt_iff unique isNew newId]
    have thread : (f row).inThread r.root = row.inThread r.root := by
      unfold inThread
      rw [inPlace.id, inPlace.parent]
    rw [thread, time]
    by_cases inThread : row.inThread r.root = true
    · rcases activity r mem inSpan inThread with same | early
      · rw [same]
      · exact ⟨fun _ _ _ => early, fun _ _ _ => early⟩
    · exact ⟨fun _ isIn => absurd isIn inThread, fun _ isIn => absurd isIn inThread⟩

/-- A message deleted or restored, and the nodes above it purged: what is left of the periods. -/
theorem CoversAll.crossed {holds holds' : List HoldRow} (covers : CoversAll db) (inPlace : InPlace f)
    (time : ∀ r, (f r).created = r.created) (isRow : row ∈ db.messages) (isId : row.id = message)
    (crosses : (∀ r, (f r).live = r.live) ∨ Crosses db row.channel row.root row.created) :
    CoversAll { (({ db with holds }.change message f).purgeMessage message) with holds := holds' } := by
  have unique : Rows.Unique (·.id) ({ db with holds }.change message f).messages := tables.unique.update inPlace.id
  have isNew : f row ∈ ({ db with holds }.change message f).messages := mem_change.mpr (.inl ⟨row, isRow, isId, rfl⟩)
  have left : ∀ n ∈ (({ db with holds }.change message f).purgeMessage message).nodes,
      n ∈ db.nodes ∧ db.gone row.channel message row.root row.created n = false := by
    intro n mem
    have notGone := of_mem_purgeMessage unique isNew ((inPlace.id row).trans isId) mem
    have sameRoot : (f row).root = row.root := by
      unfold root
      rw [inPlace.id, inPlace.parent]
    rwa [inPlace.channel, sameRoot, time] at notGone
  refine covers.of_differ message (fun n mem => (left n mem).1) ?_
  intro n mem isPeriod
  obtain ⟨isNode, notGone⟩ := left n mem
  rw [(purgeMessage_same (SumDb.change { db with holds } message f) message).1]
  refine differ_change tables inPlace time isRow isId ?_ ?_
  · exact fun here => not_covers_of_not_gone notGone isPeriod here.symm
  · intro r isR inSpan inThread
    rcases crosses with same | crosses
    · exact .inl (same row)
    have here : row.channel = n.channel :=
      (tables.channel_of_inThread isR isRow inThread).trans (inSpan_iff.mp inSpan).1
    rw [here] at crosses
    exact .inr (lt_stop_of_crosses crosses isNode isPeriod (not_restsOn_of_not_gone notGone) isR
      (tables.root_eq isRow isR inThread).symm inSpan)

theorem CoversAll.posted {author : Nat} {parent : Option Nat} {now : Int} {body : Text} (covers : CoversAll db)
    (crosses : ∀ root, parent = some root → Crosses db channel root now)
    (threaded : ∀ root, parent = some root → ∃ q ∈ db.messages, q.id = root ∧ q.channel = channel) :
    CoversAll ((db.insertMessage channel author parent now 0 body).purgeMessage db.nextMessage) := by
  have left : ∀ n ∈ ((db.insertMessage channel author parent now 0 body).purgeMessage
      db.nextMessage).nodes, n ∈ db.nodes ∧
        db.gone channel db.nextMessage (parent.getD db.nextMessage) now n = false := by
    intro n mem
    have unique : Rows.Unique (·.id) (db.insertMessage channel author parent now 0 body).messages :=
      tables.unique.insert fun r mem => (tables.below r mem).ne
    exact of_mem_purgeMessage unique (mem_concat_self) rfl mem
  refine covers.of_differ db.nextMessage (fun n mem => (left n mem).1) ?_
  intro n mem isPeriod
  obtain ⟨isNode, notGone⟩ := left n mem
  rw [(purgeMessage_same (db.insertMessage channel author parent now 0 body) db.nextMessage).1]
  refine differ_post tables ?_ ?_
  · exact fun here _ => not_covers_of_not_gone notGone isPeriod here.symm
  · intro r isR inSpan isParent _
    obtain ⟨root, isRoot, isId, here⟩ := tables.root_channel isR
    obtain ⟨q, isQ, isId', there⟩ := threaded r.root isParent
    have same := tables.unique.eq isQ isRoot (isId'.trans isId.symm)
    rw [same, here, (inSpan_iff.mp inSpan).1] at there
    rw [isParent] at notGone
    have crosses := crosses r.root isParent
    rw [← there] at crosses
    exact lt_stop_of_crosses crosses isNode isPeriod (not_restsOn_of_not_gone notGone) isR rfl inSpan

omit tables

theorem CoversAll.process {ikey : KeyOf Key → Key} {world : World ikey} {now : Int} {job : SumJob}
    (tables : Tables world.1 db) (covers : CoversAll db) (reaches : Reaches db now job) :
    CoversAll (db.process now job) := by
  have purged : Tables world.1 (db.holdsPurge now) := tables.fewerHolds (holdsPurge_fewer db now)
  have coversPurged : CoversAll (db.holdsPurge now) := covers
  have done := process_cases db now job
  generalize db.process now job = ended at done ⊢
  cases done with
  | idle fewer => exact covers
  | @sent channel user body granted =>
    exact covers.posted tables (by rintro _ ⟨⟩) (by rintro _ ⟨⟩)
  | @replied channel user parent body granted row found =>
    refine covers.posted tables ?_ ?_
    · rintro _ ⟨⟩
      exact reaches row found
    · rintro _ ⟨⟩
      obtain ⟨q, isQ, isId, here, _⟩ := tables.of_parent found
      exact ⟨q, isQ, isId, here⟩
  | @hooked channel creator body =>
    refine covers.of_differ db.nextMessage (fun n mem => mem) ?_
    intro n mem isPeriod
    refine differ_post tables ?_ (by rintro _ _ _ ⟨⟩)
    exact fun here _ => reaches n mem isPeriod here.symm
  | @called channel user body =>
    refine covers.of_differ db.nextMessage (fun n mem => mem) ?_
    intro n mem isPeriod
    exact differ_post tables (by rintro _ ⟨⟩) (by rintro _ _ _ ⟨⟩)
  | @edited channel message user body granted row found live =>
    obtain ⟨isRow, isId, _⟩ := of_lookup found
    exact covers.crossed tables (inPlace_edit body now) (fun _ => rfl) isRow isId (.inl fun _ => rfl)
  | @deleted channel message user granted row found live =>
    obtain ⟨isRow, isId, here⟩ := of_lookup found
    obtain ⟨holds, same⟩ := holdDeleted_eq (db.holdsPurge now) row user now
    rw [same]
    have crosses : Crosses db row.channel row.root row.created := here ▸ reaches row found
    exact coversPurged.crossed purged inPlace_erase (fun _ => rfl) isRow isId (.inr crosses)
  | @restored channel message user granted row hold found isHold isTheirs =>
    obtain ⟨isRow, isId, here⟩ := of_lookup found
    have crosses : Crosses db row.channel row.root row.created := here ▸ reaches row found
    exact covers.crossed tables (inPlace_bringBack (cstr hold.body)) (fun _ => rfl) isRow isId (.inr crosses)

end Jobs

section Storing

variable {db db' : SumDb Key} {channel : Nat} {version : Text}

theorem of_mem_storeNodes {rest : List (NewNode Key)} {made : List Nat}
    (stored : SumDb.storeNodes channel version rest made db = .ok db') :
    db'.messages = db.messages ∧ ∀ n ∈ db'.nodes, n ∈ db.nodes ∨ ∃ x ∈ rest, n.channel = channel ∧
      n.kind = x.kind ∧ n.start = x.start ∧ n.stop = x.stop ∧ n.texts = x.texts ∧ n.seen = x.seen := by
  induction rest generalizing made db with
  | nil =>
    cases stored
    exact ⟨rfl, fun n mem => .inl mem⟩
  | cons x rest ih =>
    unfold SumDb.storeNodes at stored
    split at stored
    · cases stored
    obtain ⟨messages, nodes⟩ := ih stored
    refine ⟨messages, ?_⟩
    intro n mem
    rcases nodes n mem with old | ⟨y, isRest, same⟩
    · rcases Rows.mem_insert.mp old with old | rfl
      · exact .inl old
      · exact .inr ⟨x, mem_cons_self, rfl, rfl, rfl, rfl, rfl, rfl⟩
    · exact .inr ⟨y, mem_cons_of_mem x isRest, same⟩

variable {ikey : KeyOf Key → Key}

/-- A period that passed the guard over a settled span: what it was made of is as it was read, and
the rest has not changed. -/
theorem cover_of_settled {world : World ikey} {x : NewNode Key} (agrees : Agrees world db) (mem : n ∈ db.nodes)
    (texts : n.texts = x.texts) (settled : SpanSettled db.messages channel x) (shown : Nat × Text) :
    shown ∈ cover db.messages channel x.start x.stop ↔ shown ∈ cover x.seen channel x.start x.stop := by
  have bodies : ∀ id body body', (id, body) ∈ cover db.messages channel x.start x.stop →
      ∀ r ∈ db.messages, r.id = id → r.body = body' → body = body' := by
    intro id body body' covered r isRow isId isBody
    obtain ⟨q, isQ, _, _, same⟩ := mem_cover.mp covered
    cases same
    rw [agrees.tables.unique.eq isQ isRow isId.symm, isBody]
  have still : ∀ shown ∈ cover x.seen channel x.start x.stop, shown ∈ cover db.messages channel x.start x.stop := by
    rintro ⟨id, body⟩ read
    obtain ⟨left, others⟩ := settled.2 _ read
    by_cases isText : (id, body) ∈ x.texts
    · obtain ⟨_, r, isRow, isId, _, live, isBody⟩ := agrees.kept.texts agrees.tables mem (texts ▸ isText)
      obtain ⟨⟨id', body'⟩, covered, same⟩ := mem_map.mp (left ⟨r, isRow, isId, live⟩)
      cases same
      rw [← bodies id body' body covered r isRow isId isBody]
      exact covered
    · exact others isText
  refine ⟨?_, still shown⟩
  intro covered
  obtain ⟨⟨id, body⟩, read, same⟩ := mem_map.mp (settled.1 shown covered)
  obtain ⟨id', body'⟩ := shown
  cases same
  obtain ⟨r, isRow, _, _, isShown⟩ := mem_cover.mp (still _ read)
  cases isShown
  rw [bodies _ _ _ covered r isRow rfl rfl]
  exact read

theorem CoversAll.store {later : World ikey} {batch : List (NewNode Key)}
    (covers : CoversAll db) (agrees : Agrees later (db.store channel version batch))
    (settled : ∀ x ∈ batch, x.kind = .period → SpanSettled db.messages channel x) :
    CoversAll (db.store channel version batch) := by
  unfold SumDb.store at agrees ⊢
  split at agrees
  · next stored same =>
    obtain ⟨messages, nodes⟩ := of_mem_storeNodes same
    intro n mem isPeriod shown
    rcases nodes n mem with old | ⟨x, isBatch, here, kind, start, stop, texts, seen⟩
    · rw [messages]
      exact covers n old isPeriod shown
    rw [here, start, stop, seen]
    have settled := settled x isBatch (kind.symm.trans isPeriod)
    rw [← messages] at settled
    exact cover_of_settled agrees mem texts settled shown
  · exact covers

end Storing

section Runs

variable [DecidableEq Key] {ikey : KeyOf Key → Key}

omit [DecidableEq Key] in
theorem whole_of_seen {state : SumState Key} {event : SumEvent Key} (seen : Seen state event) : Whole state event := by
  cases event with
  | job now job => exact ⟨seen.1, seen.2.1⟩
  | _ => trivial

theorem CoversAll.step (distinct : Function.Injective ikey) {state after : SumState Key} {event : SumEvent Key}
    {world : World ikey} (coherent : Coherent ikey state world) (covers : CoversAll state.db) (seen : Seen state event)
    (taken : step ikey state event = some after) : CoversAll after.db := by
  obtain ⟨later, _, next⟩ := coherent.step distinct (whole_of_seen seen) taken
  cases event with
  | job now job =>
    cases taken
    exact covers.process coherent.agrees.tables seen.2.2
  | build cfg channel start stop zone =>
    dsimp only [Summary.step, begin] at taken
    split at taken
    · cases taken
    · cases taken
      exact covers
  | chunks cfg channel start stop =>
    dsimp only [Summary.step, begin] at taken
    split at taken
    · cases taken
    · cases taken
      exact covers
  | read =>
    obtain ⟨r, _, rfl⟩ := Option.map_eq_some_iff.mp taken
    exact covers
  | answer body =>
    obtain ⟨r, _, rfl⟩ := Option.map_eq_some_iff.mp taken
    exact covers
  | store =>
    dsimp only [Summary.step, storeBatch] at taken
    split at taken
    · next channel version nodes isWorker =>
      cases taken
      refine covers.store next.agrees ?_
      intro x mem
      refine seen (channel, x) ?_
      unfold batch
      rw [isWorker]
      exact mem_map_of_mem mem
    · cases taken
  | stop =>
    cases taken
    exact covers

/-- In every run in which each job's purge reaches the stored periods whose span it changes, and each
period is stored over a settled span: a request answered with a stored period is answered with one of
exactly the messages, and the bodies, that its span has. -/
theorem summary_from_storage_covers_its_span (distinct : Function.Injective ikey)
    {e2e : Nat → Bool} {restoreWindow : Int} {events : List (SumEvent Key)} {state : SumState Key}
    (run : Machine.Run (step ikey) Seen (start e2e restoreWindow) events state)
    (readable : Text → Bool) (request : LookupRequest) {n : Node Key} {start stop : Int}
    (answered : state.db.summaryLookup readable request = .found n start stop)
    (shown : Nat × Text) :
    shown ∈ cover state.db.messages request.channel start stop ↔ shown ∈ cover n.seen request.channel start stop := by
  have holds : ∃ world : World ikey, Coherent ikey state world ∧ CoversAll state.db := by
    refine run.invariant (fun _ state => ∃ world : World ikey, Coherent ikey state world ∧ CoversAll state.db) ?_ ?_
    · have begun : ∃ world : World ikey, Coherent ikey (SumState.start e2e restoreWindow) world :=
        coherent_start e2e restoreWindow
      obtain ⟨world, coherent⟩ := begun
      exact ⟨world, coherent, by rintro _ ⟨⟩⟩
    · rintro _ event state after ⟨world, coherent, covers⟩ seen taken
      obtain ⟨later, _, next⟩ := coherent.step distinct (whole_of_seen seen) taken
      exact ⟨later, next, covers.step distinct coherent seen taken⟩
  obtain ⟨_, _, covers⟩ := holds
  obtain ⟨isNode, here, isPeriod, rfl, rfl⟩ := of_summaryLookup answered
  rw [← here]
  exact covers n isNode isPeriod shown

end Runs

instance {db : SumDb Key} {channel root : Nat} {created : Int} :
    Decidable (Crosses db channel root created) :=
  inferInstanceAs (Decidable (∀ n ∈ db.nodes, n.kind = .period → n.channel = channel →
    n.stop ≤ created → db.restsOn root n = true ∨
      ∀ r ∈ db.messages, r.inThread root = true → r.inSpan channel n.start n.stop = false))

instance {db : SumDb Key} {channel message : Nat} {holds : MessageRow → Prop} [DecidablePred holds] :
    Decidable (AtMessage db channel message holds) :=
  inferInstanceAs (Decidable (∀ r ∈ db.lookup channel message, holds r))

instance {db : SumDb Key} {now : Int} {job : SumJob} : Decidable (Reaches db now job) :=
  match job with
  | .send .. | .callEvent .. | .edit .. => isTrue trivial
  | .webhookPost channel _ _ _ =>
    inferInstanceAs (Decidable (∀ n ∈ db.nodes, n.kind = .period → n.channel = channel →
      ¬ (n.start ≤ now ∧ now < n.stop)))
  | .reply channel _ parent _ _ =>
    inferInstanceAs (Decidable (AtMessage db channel parent fun r => Crosses db channel r.root now))
  | .delete channel message _ _ =>
    inferInstanceAs (Decidable (AtMessage db channel message fun r => Crosses db channel r.root r.created))
  | .restore channel message _ _ =>
    inferInstanceAs (Decidable (AtMessage db channel message fun r => Crosses db channel r.root r.created))

instance {rows : List MessageRow} {channel : Nat} {x : NewNode Key} :
    Decidable (SpanSettled rows channel x) := by
  unfold SpanSettled
  infer_instance

instance {state : SumState Key} {event : SumEvent Key} : Decidable (Seen state event) :=
  match event with
  | .job now job =>
    inferInstanceAs (Decidable (EditsLater state.db now job ∧ RestoresWhole state.db job ∧ Reaches state.db now job))
  | .store =>
    inferInstanceAs (Decidable (∀ x ∈ state.batch, x.2.kind = .period → SpanSettled state.db.messages x.1 x.2))
  | .build .. | .chunks .. | .read | .answer _ | .stop => isTrue trivial

/-- A message, the period of its span read and answered, a message elsewhere, and the store. -/
def periodStored : List (SumEvent PlainKey) :=
  [.job 1000 (.send 1 7 [97] true), .build plainConfig 1 0 5000 0, .read, .read, .read,
    .answer (some [46]), .job 1100 (.send 2 7 [98] true), .store]

def askAgain : LookupRequest :=
  { channel := 1, scope := .range 0 5000, now := 3000, zone := 0, cursor := none, access := true
    version := [] }

theorem stored_period_misses_a_webhook_post :
    ∃ (events : List (SumEvent PlainKey)) (state : SumState PlainKey) (n : Node PlainKey),
      Machine.Run (step PlainKey.of) Timely (start (fun _ => false) 120000) events state ∧
      state.db.summaryLookup (fun _ => true) askAgain = .found n 0 5000 ∧
      n.version = askAgain.version ∧
      ∃ shown ∈ cover state.db.messages 1 0 5000, shown ∉ cover n.seen 1 0 5000 := by
  obtain ⟨state, n, followed, answered, version, now, read⟩ : ∃ (state : SumState PlainKey) (n : Node PlainKey),
      Machine.follow (step PlainKey.of) (fun state event => decide (Timely state event)) (start (fun _ => false) 120000)
        (periodStored ++ [.job 2000 (.webhookPost 1 7 [104] true)]) = some state ∧
      state.db.summaryLookup (fun _ => true) askAgain = .found n 0 5000 ∧ n.version = [] ∧
      cover state.db.messages 1 0 5000 = [(1, [97]), (3, [104])] ∧
      cover n.seen 1 0 5000 = [(1, [97])] := ⟨_, _, rfl, rfl, rfl, rfl, rfl⟩
  have run : Machine.Run (step PlainKey.of) Timely (start (fun _ => false) 120000)
      ([] ++ (periodStored ++ [.job 2000 (.webhookPost 1 7 [104] true)])) state :=
    Machine.Run.nil.of_follow (fun _ _ => of_decide_eq_true) followed
  refine ⟨_, state, n, run, answered, version, (3, [104]), ?_, ?_⟩
  · rw [now]
    decide
  · rw [read]
    decide

theorem summary_from_storage_covers_its_span_stored : ∃ (state : SumState PlainKey) (n : Node PlainKey),
      Machine.Run (step PlainKey.of) Seen (start (fun _ => false) 120000) ([] ++ periodStored) state ∧
      state.db.summaryLookup (fun _ => true) askAgain = .found n 0 5000 ∧
      ((1, [97]) ∈ cover state.db.messages 1 0 5000 ↔ (1, [97]) ∈ cover n.seen 1 0 5000) := by
  obtain ⟨state, n, followed, answered⟩ : ∃ (state : SumState PlainKey) (n : Node PlainKey),
      Machine.follow (step PlainKey.of) (fun state event => decide (Seen state event))
        (start (fun _ => false) 120000) periodStored = some state ∧
      state.db.summaryLookup (fun _ => true) askAgain = .found n 0 5000 := ⟨_, _, rfl, rfl⟩
  have run : Machine.Run (step PlainKey.of) Seen (start (fun _ => false) 120000) ([] ++ periodStored) state :=
    Machine.Run.nil.of_follow (fun _ _ => of_decide_eq_true) followed
  exact ⟨state, n, run, answered,
    summary_from_storage_covers_its_span PlainKey.of_injective run (fun _ => true) askAgain answered (1, [97])⟩

end OpenChime.Daemon.Summary
