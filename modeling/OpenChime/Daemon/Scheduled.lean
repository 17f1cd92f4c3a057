import OpenChime.Daemon.Send
import OpenChime.Lib.BigEndian

/-! Scheduled messages: a row waits until its time, the sweep sends it by the ordinary send path
with a token made of the row's id, and then marks the row. The send and the mark are two commits,
and the daemon may stop between them. -/

set_option autoImplicit false

namespace OpenChime.Daemon

open Shared List MessageDb

def maxBodySize : Nat := 65536

inductive SchedState where
  | pending
  | sent
  | failed (reason : String)
  deriving DecidableEq

/-- `scheduled_messages`. -/
structure SchedRow where
  id : Nat
  /-- Which request this row is of. The table has no such column: ids are used again. -/
  request : Nat
  user : Nat
  channel : Nat
  threadRoot : Nat
  body : Text
  sendAtMs : Nat
  createdMs : Nat
  state : SchedState
  message : Option Nat
  deriving DecidableEq

structure SchedDb where
  db : MessageDb
  rows : List SchedRow
  /-- How many rows were scheduled, and the messages made for each: not in the source. -/
  requests : Nat
  made : List (Nat × Nat)
  deriving DecidableEq

/-- The token of a row: "sched", the id as the machine holds it, zeros. -/
def schedToken (id : Nat) : List UInt8 := text "sched" ++ (BigEndian.encode 8 id).reverse ++ [0, 0, 0]

namespace SchedDb

variable (s : SchedDb)

/-- The id of a new row: `INTEGER PRIMARY KEY` gives one more than the largest there is. -/
def nextId : Nat := (s.rows.map SchedRow.id).foldl max 0 + 1

/-- `process_schedule`. Past the largest id the insert fails. -/
def schedule (user channel root : Nat) (body : Text) (sendAt : Nat) (member e2e : Bool) (now : Nat) : Option SchedDb :=
  if channel = 0 ∨ !member ∨ e2e ∨ body = [] then some s
  else if 2 ^ 63 ≤ s.nextId then none
  else
    some { s with
        rows := s.rows ++ [⟨s.nextId, s.requests, user, channel, root, body.take maxBodySize, sendAt,
          now, .pending, none⟩]
        requests := s.requests + 1 }

def owns (id user : Nat) (row : SchedRow) : Bool := row.id == id && row.user == user

def cancelScheduled (id user : Nat) : SchedDb :=
  { s with rows := Rows.delete (fun row => owns id user row && row.state != .sent) s.rows }

/-- `process_update_scheduled`: an empty body and a zero time leave those as they are. -/
def updateScheduled (id user : Nat) (body : Text) (sendAt : Nat) : SchedDb :=
  match s.rows.find? (owns id user) with
  | none => s
  | some row =>
    if row.state = .sent then s
    else
      { s with
        rows := Rows.update (owns id user) (fun old =>
            { old with
              body := if body = [] then cstr row.body else body.take maxBodySize
              sendAtMs := if sendAt = 0 then row.sendAtMs else sendAt
              state := .pending })
          s.rows }

def setRow (id : Nat) (f : SchedRow → SchedRow) : SchedDb := { s with rows := Rows.update (·.id == id) f s.rows }

def earlier : Option SchedRow → SchedRow → Option SchedRow
  | none, row => some row
  | some best, row => if Int64.ofNat row.sendAtMs < Int64.ofNat best.sendAtMs then some row else some best

/-- The column is signed, so a time of 2 ^ 63 or more is long past. -/
def due (now : Nat) : Option SchedRow :=
  (s.rows.filter fun row => row.state = .pending && Int64.ofNat row.sendAtMs ≤ Int64.ofNat now).foldl earlier none

def rowJob (row : SchedRow) : SendJob :=
  { user := row.user, channel := row.channel, token := schedToken row.id, body := cstr row.body
    parent := if row.threadRoot = 0 then none else some row.threadRoot }

def failReason : SendError → String
  | .unknownMessage => "the message it replies to was deleted"
  | _ => "the server could not deliver it"

def marked : SendResult → SchedRow → SchedRow
  | .ok message .., row => { row with state := .sent, message := some message }
  | .error code, row => { row with state := .failed (failReason code), message := some 0 }

def madeBy (request : Nat) : SendResult → List (Nat × Nat)
  | .ok message _ false _ => [(request, message)]
  | _ => []

/-- `process_fire_scheduled`; `stops` is whether the daemon goes down after the send's commit. -/
def fireScheduled (member archived : Bool) (checks : SendChecks) (now : Nat) (stops : Bool) : SchedDb :=
  match s.due now with
  | none => s
  | some row =>
    if !member then
      s.setRow row.id ({ · with state := .failed "you are no longer in that conversation" })
    else if archived then
      s.setRow row.id ({ · with state := .failed "that channel was archived before it could be sent" })
    else
      let answer := s.db.process noFaults (rowJob row) checks now
      let after := { s with db := answer.1, made := s.made ++ madeBy row.request answer.2 }
      if stops then after else after.setRow row.id (marked answer.2)

def send (job : SendJob) (checks : SendChecks) (now : Nat) : SchedDb :=
  { s with db := (s.db.process noFaults job checks now).1 }

/-- An account deactivated: its rows go, whatever became of them. -/
def deactivateUser (user : Nat) : SchedDb := { s with rows := Rows.delete (·.user == user) s.rows }

/-- `maybe_prune_idem`: tokens from before the retention go. -/
def pruneIdem (before : Nat) : SchedDb :=
  { s with db := { s.db with sent := Rows.delete (·.createdAtMs < before) s.db.sent } }

end SchedDb

inductive SchedJob where
  | schedule (user channel root : Nat) (body : Text) (sendAt : Nat) (member e2e : Bool)
  | cancel (id user : Nat)
  | update (id user : Nat) (body : Text) (sendAt : Nat)
  | fire (member archived : Bool) (checks : SendChecks) (stops : Bool)
  | send (job : SendJob) (checks : SendChecks)
  | deactivate (user : Nat)
  | prune (before : Nat)

namespace SchedDb

def step (s : SchedDb) (job : SchedJob × Nat) : Option SchedDb :=
  match job.1 with
  | .schedule user channel root body sendAt member e2e =>
    s.schedule user channel root body sendAt member e2e job.2
  | .cancel id user => some (s.cancelScheduled id user)
  | .update id user body sendAt => some (s.updateScheduled id user body sendAt)
  | .fire member archived checks stops => some (s.fireScheduled member archived checks job.2 stops)
  | .send sent checks => some (s.send sent checks job.2)
  | .deactivate user => some (s.deactivateUser user)
  | .prune before => some (s.pruneIdem before)

def start : SchedDb := ⟨⟨[], [], 0⟩, [], 0, []⟩

structure Delivered (db : MessageDb) (made : List (Nat × Nat)) (row : SchedRow) (m : MessageRow) :
    Prop where
  stored : m ∈ db.messages
  made : (row.request, m.id) ∈ made
  author : m.author = row.user
  channel : m.channel = row.channel
  body : m.body = row.body

/-- One message at most is made for a request, and a row marked as sent names it. -/
structure SentOnce (s : SchedDb) : Prop where
  once : (s.made.map Prod.fst).Nodup
  sent : ∀ row ∈ s.rows, row.state = .sent → ∃ m, row.message = some m.id ∧ Delivered s.db s.made row m

def rowKey (row : SchedRow) : Nat × List UInt8 := (row.channel, schedToken row.id)

/-- A row that is not marked yet: its message was not made and its token is free, or it was made,
and the token stands for it. -/
inductive Waiting (db : MessageDb) (made : List (Nat × Nat)) (row : SchedRow) : Prop where
  | unsent (unused : ∀ sent ∈ db.sent, sent.key ≠ rowKey row) (unmade : row.request ∉ made.map Prod.fst)
  | unmarked (m : MessageRow) (delivered : Delivered db made row m) (sent : SentRow)
      (isSent : sent ∈ db.sent) (own : sent.key = rowKey row) (names : sent.message = m.id)

structure Wellformed (rows : List SchedRow) (requests : Nat) : Prop where
  ids : Rows.Unique SchedRow.id rows
  apart : Rows.Unique SchedRow.request rows
  small : ∀ row ∈ rows, row.id < 2 ^ 63
  begun : ∀ row ∈ rows, row.request < requests
  plain : ∀ row ∈ rows, 0 ∉ row.body

structure SchedOk (s : SchedDb) : Prop where
  sound : s.db.Sound
  formed : Wellformed s.rows s.requests
  begun : ∀ pair ∈ s.made, pair.1 < s.requests
  once : (s.made.map Prod.fst).Nodup
  waiting : ∀ row ∈ s.rows, row.state ≠ .sent → Waiting s.db s.made row
  sent : ∀ row ∈ s.rows, row.state = .sent → ∃ m, row.message = some m.id ∧ Delivered s.db s.made row m

end SchedDb

theorem schedToken_injective {a b : Nat} (smallA : a < 2 ^ 63) (smallB : b < 2 ^ 63)
    (same : schedToken a = schedToken b) : a = b := by
  have reversed := append_cancel_left (append_cancel_right same)
  have encoded := reverse_injective reversed
  have decoded := congrArg BigEndian.decode encoded
  rwa [BigEndian.decode_encode_of_lt (by omega), BigEndian.decode_encode_of_lt (by omega)] at decoded

namespace SchedDb

variable {s : SchedDb} {db : MessageDb} {made : List (Nat × Nat)} {rows : List SchedRow}
  {row new : SchedRow} {m : MessageRow} {requests : Nat}

structure Same (row new : SchedRow) : Prop where
  id : new.id = row.id
  request : new.request = row.request
  user : new.user = row.user
  channel : new.channel = row.channel
  body : new.body = row.body

theorem Delivered.same (delivered : Delivered db made row m) (same : Same row new) : Delivered db made new m := by
  constructor
  · exact delivered.stored
  · rw [same.request]
    exact delivered.made
  · rw [same.user]
    exact delivered.author
  · rw [same.channel]
    exact delivered.channel
  · rw [same.body]
    exact delivered.body

theorem rowKey_same (same : Same row new) : rowKey new = rowKey row := by
  unfold rowKey
  rw [same.channel, same.id]

theorem Waiting.same (waiting : Waiting db made row) (same : Same row new) : Waiting db made new := by
  cases waiting with
  | unsent unused unmade =>
    refine .unsent ?_ ?_
    · rw [rowKey_same same]
      exact unused
    · rw [same.request]
      exact unmade
  | unmarked m delivered sent isSent own names =>
    exact .unmarked m (delivered.same same) sent isSent (own.trans (rowKey_same same).symm) names

theorem Delivered.mono {db' : MessageDb} {made' : List (Nat × Nat)} (delivered : Delivered db made row m)
    (messages : db.messages ⊆ db'.messages) (more : made ⊆ made') : Delivered db' made' row m :=
  ⟨messages delivered.stored, more delivered.made, delivered.author, delivered.channel, delivered.body⟩

theorem Wellformed.key_eq (formed : Wellformed rows requests) (isRow : row ∈ rows)
    (isNew : new ∈ rows) (same : rowKey row = rowKey new) : row = new := by
  obtain ⟨_, sameToken⟩ := Prod.mk.inj same
  exact formed.ids.eq isRow isNew (schedToken_injective (formed.small row isRow) (formed.small new isNew) sameToken)

theorem Wellformed.sublist (formed : Wellformed rows requests) {fewer : List SchedRow}
    (sub : fewer.Sublist rows) : Wellformed fewer requests where
  ids := formed.ids.sublist (sub.map _)
  apart := formed.apart.sublist (sub.map _)
  small := fun row isRow => formed.small row (sub.subset isRow)
  begun := fun row isRow => formed.begun row (sub.subset isRow)
  plain := fun row isRow => formed.plain row (sub.subset isRow)

theorem SchedOk.fewer {fewer : List SchedRow} (ok : s.SchedOk) (sub : fewer.Sublist s.rows) :
    SchedOk { s with rows := fewer } where
  __ := ok
  formed := ok.formed.sublist sub
  waiting := fun row isRow => ok.waiting row (sub.subset isRow)
  sent := fun row isRow => ok.sent row (sub.subset isRow)

variable {f : SchedRow → SchedRow}

theorem SchedOk.setRows {chosen : SchedRow → Bool} (ok : s.SchedOk) (isRow : row ∈ s.rows)
    (only : ∀ other ∈ s.rows, chosen other = true → other = row) (id : ∀ row, (f row).id = row.id)
    (request : ∀ row, (f row).request = row.request) (plain : 0 ∉ (f row).body)
    (waits : (f row).state ≠ .sent → Waiting s.db s.made (f row))
    (marks : (f row).state = .sent → ∃ m, (f row).message = some m.id ∧ Delivered s.db s.made (f row) m) :
    SchedOk { s with rows := Rows.update chosen f s.rows } := by
  have changed : ∀ new ∈ Rows.update chosen f s.rows, new = f row ∨ new ∈ s.rows := by
    intro new isNew
    rcases Rows.mem_update.mp isNew with ⟨old, isOld, isChosen, rfl⟩ | ⟨isOld, _⟩
    · rw [only old isOld isChosen]
      exact .inl rfl
    · exact .inr isOld
  refine ⟨ok.sound, ?_, ok.begun, ok.once, ?_, ?_⟩
  · constructor
    · exact ok.formed.ids.update id
    · exact ok.formed.apart.update request
    · intro new isNew
      rcases changed new isNew with rfl | isOld
      · rw [id]
        exact ok.formed.small row isRow
      · exact ok.formed.small new isOld
    · intro new isNew
      rcases changed new isNew with rfl | isOld
      · rw [request]
        exact ok.formed.begun row isRow
      · exact ok.formed.begun new isOld
    · intro new isNew
      rcases changed new isNew with rfl | isOld
      · exact plain
      · exact ok.formed.plain new isOld
  · intro new isNew unmarked
    rcases changed new isNew with rfl | isOld
    · exact waits unmarked
    · exact ok.waiting new isOld unmarked
  · intro new isNew isSent
    rcases changed new isNew with rfl | isOld
    · exact marks isSent
    · exact ok.sent new isOld isSent

theorem SchedOk.setRow (ok : s.SchedOk) (isRow : row ∈ s.rows)
    (waits : Waiting s.db s.made row) (same : ∀ row, Same row (f row))
    (marks : (f row).state = .sent → ∃ m, (f row).message = some m.id ∧ Delivered s.db s.made row m) :
    (s.setRow row.id f).SchedOk := by
  refine ok.setRows isRow ?_ (fun row => (same row).id) (fun row => (same row).request) ?_ ?_ ?_
  · intro other isOther chosen
    exact ok.formed.ids.eq isOther isRow (beq_iff_eq.mp chosen)
  · rw [(same row).body]
    exact ok.formed.plain row isRow
  · intro _
    exact waits.same (same row)
  · intro isSent
    obtain ⟨m, named, delivered⟩ := marks isSent
    exact ⟨m, named, delivered.same (same row)⟩

variable {checks : SendChecks} {now : Nat}

theorem SchedOk.send {job : SendJob} (ok : s.SchedOk)
    (foreign : ∀ row ∈ s.rows, row.state ≠ .sent → rowKey row ≠ (job.channel, job.token)) :
    (s.send job checks now).SchedOk := by
  have grown := @MessageDb.Sound.process _ noFaults job checks now ok.sound
  refine ⟨grown.sound, ok.formed, ok.begun, ok.once, ?_, ?_⟩
  · intro row isRow unmarked
    cases ok.waiting row isRow unmarked with
    | unsent unused unmade =>
      refine .unsent ?_ unmade
      intro sent isSent own
      rcases grown.own sent isSent with old | isJob
      · exact unused sent old own
      · exact foreign row isRow unmarked (own.symm.trans isJob)
    | unmarked m delivered sent isSent own names =>
      exact .unmarked m (delivered.mono grown.messages (List.Subset.refl _)) sent (grown.sent isSent) own names
  · intro row isRow isSent
    obtain ⟨m, named, delivered⟩ := ok.sent row isRow isSent
    exact ⟨m, named, delivered.mono grown.messages (List.Subset.refl _)⟩

theorem SchedOk.pruneIdem {before : Nat} (ok : s.SchedOk)
    (spares : ∀ row ∈ s.rows, row.state ≠ .sent → ∀ sent ∈ s.db.sent, sent.key = rowKey row →
      before ≤ sent.createdAtMs) : (s.pruneIdem before).SchedOk := by
  have kept : (s.pruneIdem before).db.sent ⊆ s.db.sent := by
    intro sent isSent
    exact (Rows.mem_delete.mp isSent).1
  refine ⟨?_, ok.formed, ok.begun, ok.once, ?_, ?_⟩
  · refine ⟨ok.sound.ids, ?_, ?_, ok.sound.given⟩
    · exact ok.sound.keys.sublist (filter_sublist.map _)
    · intro sent isSent
      exact ok.sound.named sent (kept isSent)
  · intro row isRow unmarked
    cases ok.waiting row isRow unmarked with
    | unsent unused unmade => exact .unsent (fun sent isSent => unused sent (kept isSent)) unmade
    | unmarked m delivered sent isSent own names =>
      refine .unmarked m (delivered.mono (List.Subset.refl _) (List.Subset.refl _)) sent ?_ own names
      refine Rows.mem_delete.mpr ⟨isSent, ?_⟩
      have recent := spares row isRow unmarked sent isSent own
      simpa using recent
  · intro row isRow isSent
    obtain ⟨m, named, delivered⟩ := ok.sent row isRow isSent
    exact ⟨m, named, delivered.mono (List.Subset.refl _) (List.Subset.refl _)⟩

theorem mem_foldl_earlier {best : Option SchedRow} (first : rows.foldl earlier best = some row) :
    best = some row ∨ row ∈ rows := by
  induction rows generalizing best with
  | nil => exact .inl first
  | cons head rows ih =>
    rcases ih first with isBest | later
    · cases best with
      | none =>
        cases isBest
        exact .inr mem_cons_self
      | some old =>
        dsimp only [earlier] at isBest
        split at isBest
        · cases isBest
          exact .inr mem_cons_self
        · exact .inl isBest
    · exact .inr (mem_cons_of_mem _ later)

theorem mem_due (isDue : s.due now = some row) : row ∈ s.rows ∧ row.state = .pending := by
  rcases mem_foldl_earlier isDue with none | mem
  · cases none
  obtain ⟨isRow, chosen⟩ := mem_filter.mp mem
  rw [Bool.and_eq_true, decide_eq_true_eq] at chosen
  exact ⟨isRow, chosen.1⟩

theorem SchedOk.sendRow (ok : s.SchedOk) (isRow : row ∈ s.rows) (unmarked : row.state ≠ .sent) : SchedOk { s with
        db := (s.db.process noFaults (rowJob row) checks now).1
        made := s.made ++ madeBy row.request (s.db.process noFaults (rowJob row) checks now).2 } ∧
      ∀ message time duplicate parent,
        (s.db.process noFaults (rowJob row) checks now).2 = .ok message time duplicate parent →
        ∃ m, m.id = message ∧ Delivered (s.db.process noFaults (rowJob row) checks now).1
          (s.made ++ madeBy row.request (s.db.process noFaults (rowJob row) checks now).2) row m := by
  have outcome := process_outcome s.db noFaults (rowJob row) checks now
  generalize s.db.process noFaults (rowJob row) checks now = answer at outcome ⊢
  obtain ⟨after, result⟩ := answer
  cases outcome with
  | refused code =>
    dsimp only [madeBy]
    rw [append_nil]
    exact ⟨ok, nofun⟩
  | replayed m parent lookup known =>
    dsimp only [madeBy]
    rw [append_nil]
    refine ⟨ok, ?_⟩
    intro message time duplicate p isOk
    cases isOk
    obtain ⟨isM, found, isFound, own, names⟩ := of_known known
    cases ok.waiting row isRow unmarked with
    | unsent unused unmade => exact absurd own (unused found isFound)
    | unmarked other delivered sent isSent ownSent namesOther =>
      have sameSent := ok.sound.keys.eq isFound isSent (own.trans ownSent.symm)
      rw [← names, sameSent, namesOther]
      exact ⟨other, rfl, delivered⟩
  | stored parent _ _ unknown goes stored =>
    obtain ⟨grownDb, isStore, seq, messages, sent⟩ := @store_eq s.db noFaults (rowJob row) checks now parent goes
    rw [isStore] at stored
    obtain ⟨rfl, rfl⟩ := Prod.mk.inj stored
    obtain ⟨unused, unmade⟩ : (∀ sent ∈ s.db.sent, sent.key ≠ rowKey row) ∧ row.request ∉ s.made.map Prod.fst := by
      cases ok.waiting row isRow unmarked with
      | unsent unused unmade => exact ⟨unused, unmade⟩
      | unmarked m delivered sent isSent own names =>
        obtain ⟨_, _, _, known⟩ := ok.sound.known isSent
        obtain ⟨isChannel, isToken⟩ := Prod.mk.inj own
        rw [isChannel, isToken] at known
        have missing := unknown rfl
        dsimp only [rowJob] at missing
        simp [missing] at known
    have noConflict : ¬ (noFaults.insertSent ||
        s.db.sent.any (·.key == ((rowJob row).channel, (rowJob row).token))) = true := by
      rw [Bool.or_eq_true, any_eq_true]
      rintro (fails | ⟨sent, isSent, same⟩)
      · cases fails
      · exact unused sent isSent (beq_iff_eq.mp same)
    rw [if_neg (by decide)]
    have soundAfter := ok.sound.store seq messages sent
    rw [if_neg noConflict] at sent
    have delivered : Delivered grownDb (s.made ++ [(row.request, s.db.seq + 1)]) row
        ⟨s.db.seq + 1, row.channel, row.user, cstr row.body, now, parent, false⟩ := by
      constructor
      · rw [messages]
        exact mem_concat_self
      · exact mem_concat_self
      · rfl
      · rfl
      · exact cstr_eq_self (ok.formed.plain row isRow)
    have grows : s.db.messages ⊆ grownDb.messages := by
      rw [messages]
      exact subset_append_left _ _
    refine ⟨⟨soundAfter, ok.formed, ?_, ?_, ?_, ?_⟩, ?_⟩
    · intro pair mem
      rcases Rows.mem_insert.mp mem with old | rfl
      · exact ok.begun pair old
      · exact ok.formed.begun row isRow
    · rw [map_append, nodup_append_comm]
      exact nodup_cons.mpr ⟨unmade, ok.once⟩
    · intro other isOther otherUnmarked
      by_cases same : other = row
      · subst same
        refine .unmarked _ delivered ⟨other.channel, schedToken other.id, s.db.seq + 1, now⟩ ?_ rfl rfl
        rw [sent]
        exact mem_concat_self
      cases ok.waiting other isOther otherUnmarked with
      | unsent unusedOther unmadeOther =>
        refine .unsent ?_ ?_
        · intro found isFound own
          rw [sent] at isFound
          rcases mem_append.mp isFound with old | new
          · exact unusedOther found old own
          · rw [mem_singleton.mp new] at own
            exact same (ok.formed.key_eq isOther isRow own.symm)
        · rw [map_append, mem_append, not_or]
          refine ⟨unmadeOther, ?_⟩
          intro mem
          exact same (ok.formed.apart.eq isOther isRow (mem_singleton.mp mem))
      | unmarked m deliveredOther found isFound own names =>
        refine .unmarked m (deliveredOther.mono grows (subset_append_left _ _)) found ?_ own names
        rw [sent]
        exact mem_append_left _ isFound
    · intro other isOther isSent
      obtain ⟨m, named, deliveredOther⟩ := ok.sent other isOther isSent
      exact ⟨m, named, deliveredOther.mono grows (subset_append_left _ _)⟩
    · intro message time duplicate p isOk
      cases isOk
      exact ⟨_, rfl, delivered⟩

theorem marked_same (result : SendResult) (row : SchedRow) : Same row (marked result row) := by
  cases result with
  | ok | error => exact ⟨rfl, rfl, rfl, rfl, rfl⟩

theorem SchedOk.fireScheduled {member archived stops : Bool} (ok : s.SchedOk) :
    (s.fireScheduled member archived checks now stops).SchedOk := by
  unfold SchedDb.fireScheduled
  split
  · exact ok
  next row isDue =>
  obtain ⟨isRow, pending⟩ := mem_due isDue
  have unmarked : row.state ≠ .sent := by
    rw [pending]
    exact SchedState.noConfusion
  have waits := ok.waiting row isRow unmarked
  split
  · refine ok.setRow isRow waits (fun _ => ⟨rfl, rfl, rfl, rfl, rfl⟩) ?_
    intro isSent
    cases isSent
  split
  · refine ok.setRow isRow waits (fun _ => ⟨rfl, rfl, rfl, rfl, rfl⟩) ?_
    intro isSent
    cases isSent
  obtain ⟨okSent, answered⟩ := @SchedOk.sendRow s row checks now ok isRow unmarked
  split
  · exact okSent
  refine okSent.setRow isRow (okSent.waiting row isRow unmarked) (marked_same _) ?_
  cases result : (s.db.process noFaults (rowJob row) checks now).2 with
  | error code =>
    intro isSent
    cases isSent
  | ok message time duplicate parent =>
    intro _
    obtain ⟨m, isM, delivered⟩ := answered _ _ _ _ result
    rw [result] at delivered
    exact ⟨m, congrArg some isM.symm, delivered⟩

theorem lt_nextId (isRow : row ∈ s.rows) : row.id < s.nextId := by
  rw [nextId, foldl_max]
  exact Nat.lt_succ_of_le (le_max_of_le_right (le_max?_getD_of_mem (mem_map_of_mem isRow)))

theorem SchedOk.schedule {user channel root sendAt : Nat} {body : Text} {member e2e : Bool} {after : SchedDb}
    (ok : s.SchedOk) (plain : 0 ∉ body) (unused : ∀ sent ∈ s.db.sent, sent.key ≠ (channel, schedToken s.nextId))
    (scheduled : s.schedule user channel root body sendAt member e2e now = some after) : after.SchedOk := by
  unfold SchedDb.schedule at scheduled
  split at scheduled
  · cases scheduled
    exact ok
  split at scheduled
  · cases scheduled
  next small =>
  cases scheduled
  have only : ∀ row, row ∈ s.rows ++ [⟨s.nextId, s.requests, user, channel, root,
      body.take maxBodySize, sendAt, now, .pending, none⟩] → row ∈ s.rows ∨
        row = ⟨s.nextId, s.requests, user, channel, root, body.take maxBodySize, sendAt, now, .pending, none⟩ := by
    intro row isRow
    rcases mem_append.mp isRow with old | new
    · exact .inl old
    · exact .inr (mem_singleton.mp new)
  refine ⟨ok.sound, ?_, ?_, ok.once, ?_, ?_⟩
  · constructor
    · unfold Rows.Unique
      rw [map_append, nodup_append_comm]
      refine nodup_cons.mpr ⟨?_, ok.formed.ids⟩
      intro mem
      obtain ⟨row, isRow, same⟩ := mem_map.mp mem
      exact absurd same ((lt_nextId isRow).ne)
    · unfold Rows.Unique
      rw [map_append, nodup_append_comm]
      refine nodup_cons.mpr ⟨?_, ok.formed.apart⟩
      intro mem
      obtain ⟨row, isRow, same⟩ := mem_map.mp mem
      exact absurd same ((ok.formed.begun row isRow).ne)
    · intro row isRow
      rcases only row isRow with old | rfl
      · exact ok.formed.small row old
      · exact Nat.lt_of_not_le small
    · intro row isRow
      rcases only row isRow with old | rfl
      · exact Nat.lt_succ_of_lt (ok.formed.begun row old)
      · exact Nat.lt_succ_self _
    · intro row isRow
      rcases only row isRow with old | rfl
      · exact ok.formed.plain row old
      · exact fun mem => plain (mem_of_mem_take mem)
  · intro pair mem
    exact Nat.lt_succ_of_lt (ok.begun pair mem)
  · intro row isRow unmarked
    rcases only row isRow with old | rfl
    · exact ok.waiting row old unmarked
    refine .unsent unused ?_
    intro mem
    obtain ⟨pair, isPair, same⟩ := mem_map.mp mem
    exact absurd same ((ok.begun pair isPair).ne)
  · intro row isRow isSent
    rcases only row isRow with old | rfl
    · exact ok.sent row old isSent
    · cases isSent

theorem SchedOk.updateScheduled {id user sendAt : Nat} {body : Text} (ok : s.SchedOk) (plain : 0 ∉ body)
    (unused : body ≠ [] → ∀ row ∈ s.rows, row.state ≠ .sent → row.id = id → ∀ sent ∈ s.db.sent, sent.key ≠ rowKey row) :
    (s.updateScheduled id user body sendAt).SchedOk := by
  unfold SchedDb.updateScheduled
  split
  · exact ok
  next row found =>
  split
  · exact ok
  next unmarked =>
  have isRow := mem_of_find?_eq_some found
  have owned : owns id user row = true := find?_some found
  have isId : row.id = id := by
    unfold owns at owned
    rw [Bool.and_eq_true] at owned
    exact beq_iff_eq.mp owned.1
  have plainRow := ok.formed.plain row isRow
  refine ok.setRows isRow ?_ (fun _ => rfl) (fun _ => rfl) ?_ ?_ ?_
  · intro other isOther chosen
    unfold owns at chosen
    rw [Bool.and_eq_true] at chosen
    exact ok.formed.ids.eq isOther isRow ((beq_iff_eq.mp chosen.1).trans isId.symm)
  · split
    · rw [cstr_eq_self plainRow]
      exact plainRow
    · exact fun mem => plain (mem_of_mem_take mem)
  · intro _
    by_cases same : body = []
    · refine (ok.waiting row isRow unmarked).same ⟨rfl, rfl, rfl, rfl, ?_⟩
      rw [if_pos same, cstr_eq_self plainRow]
    have free := unused same row isRow unmarked isId
    cases ok.waiting row isRow unmarked with
    | unsent _ unmade => exact .unsent free unmade
    | unmarked m delivered sent isSent own names => exact absurd own (free sent isSent)
  · nofun

/-- What the sweep needs of the others: a new row's token is free in its channel; a row that was
sent and not yet marked is not edited, its token not pruned; and nobody sends with the token of a
row still to be sent. A body has no zero byte. -/
def Fitting (s : SchedDb) (job : SchedJob × Nat) : Prop :=
  match job.1 with
  | .schedule _ channel _ body _ _ _ =>
    0 ∉ body ∧ ∀ sent ∈ s.db.sent, sent.key ≠ (channel, schedToken s.nextId)
  | .update id _ body _ =>
    0 ∉ body ∧ (body ≠ [] → ∀ row ∈ s.rows, row.state ≠ .sent → row.id = id → ∀ sent ∈ s.db.sent, sent.key ≠ rowKey row)
  | .send sent _ => ∀ row ∈ s.rows, row.state ≠ .sent → rowKey row ≠ (sent.channel, sent.token)
  | .prune before => ∀ row ∈ s.rows, row.state ≠ .sent → ∀ sent ∈ s.db.sent,
      sent.key = rowKey row → before ≤ sent.createdAtMs
  | _ => True

instance (s : SchedDb) (job : SchedJob × Nat) : Decidable (s.Fitting job) := by
  unfold Fitting
  cases job.1 <;> infer_instance

theorem SchedOk.step {job : SchedJob × Nat} {after : SchedDb} (ok : s.SchedOk)
    (fitting : s.Fitting job) (taken : s.step job = some after) : after.SchedOk := by
  obtain ⟨job, now⟩ := job
  cases job with
  | schedule user channel root body sendAt member e2e => exact ok.schedule fitting.1 fitting.2 taken
  | cancel id user =>
    cases taken
    exact ok.fewer filter_sublist
  | update id user body sendAt =>
    cases taken
    exact ok.updateScheduled fitting.1 fitting.2
  | fire member archived checks stops =>
    cases taken
    exact ok.fireScheduled
  | send sent checks =>
    cases taken
    exact ok.send fitting
  | deactivate user =>
    cases taken
    exact ok.fewer filter_sublist
  | prune before =>
    cases taken
    exact ok.pruneIdem fitting

theorem SchedOk.start : SchedOk .start where
  sound := emptyDb_sound
  formed := ⟨nodup_nil, nodup_nil, nofun, nofun,
    nofun⟩
  begun := by
    intro _ mem
    cases mem
  once := nodup_nil
  waiting := by
    intro _ mem
    cases mem
  sent := by
    intro _ mem
    cases mem

/-- In every run whose steps fit, a row is sent once, and marked with what was sent for it. -/
theorem scheduled_message_is_sent_once {jobs : List (SchedJob × Nat)} {s : SchedDb}
    (run : Machine.Run step Fitting .start jobs s) : s.SentOnce := by
  have ok := run.invariant (fun _ s => s.SchedOk) .start (by
    intro _ _ _ _ ok fitting taken
    exact ok.step fitting taken)
  exact ⟨ok.once, ok.sent⟩

/-- A row is sent, the daemon stops before it is marked, and the next sweep marks it. -/
def stoppedJobs : List (SchedJob × Nat) :=
  [(.schedule 1 5 0 [104, 105] 10 true false, 1), (.fire true false allChecked true, 11),
    (.fire true false allChecked false, 12)]

theorem scheduled_message_is_sent_once_stopped :
    ∃ s, Machine.Run step Fitting .start stoppedJobs s ∧ s.db.messages = [⟨1, 5, 1, [104, 105], 11, none, false⟩] ∧
      s.rows = [⟨1, 0, 1, 5, 0, [104, 105], 10, 1, .sent, some 1⟩] ∧ s.SentOnce := by
  obtain ⟨s, followed⟩ : ∃ s, Machine.follow step (fun s job => decide (s.Fitting job)) .start
      stoppedJobs = some s := ⟨_, rfl⟩
  have run := Machine.Run.nil.of_follow (fun _ _ => of_decide_eq_true) followed
  refine ⟨s, run, ?_, ?_, scheduled_message_is_sent_once run⟩
  · cases followed
    rfl
  · cases followed
    rfl

/-- User 1's message is sent and their account deactivated; user 2's row gets the same id. -/
def reusedJobs : List (SchedJob × Nat) :=
  [(.schedule 1 5 0 [104, 105] 10 true false, 1), (.fire true false allChecked false, 11),
    (.deactivate 1, 12), (.schedule 2 5 0 [111, 107] 20 true false, 13),
    (.fire true false allChecked false, 21)]

/-- User 2's row is marked as sent, and no message of theirs was made. -/
theorem scheduled_message_marked_unsent : ∃ s, Machine.Run step (fun _ _ => True) .start reusedJobs s ∧
      s.db.messages = [⟨1, 5, 1, [104, 105], 11, none, false⟩] ∧
      s.rows = [⟨1, 1, 2, 5, 0, [111, 107], 20, 13, .sent, some 1⟩] ∧ ¬ s.SentOnce := by
  obtain ⟨s, followed⟩ : ∃ s, Machine.follow step (fun _ _ => true) .start reusedJobs = some s := ⟨_, rfl⟩
  have messages : s.db.messages = [⟨1, 5, 1, [104, 105], 11, none, false⟩] := by
    cases followed
    rfl
  have rows : s.rows = [⟨1, 1, 2, 5, 0, [111, 107], 20, 13, .sent, some 1⟩] := by
    cases followed
    rfl
  refine ⟨s, Machine.Run.nil.of_follow (fun _ _ _ => trivial) followed, messages, rows, ?_⟩
  intro sentOnce
  obtain ⟨m, _, delivered⟩ := sentOnce.sent ⟨1, 1, 2, 5, 0, [111, 107], 20, 13, .sent, some 1⟩ (by rw [rows]; simp) rfl
  have stored := delivered.stored
  have author := delivered.author
  rw [messages, mem_singleton] at stored
  simp [stored] at author

end SchedDb

end OpenChime.Daemon
