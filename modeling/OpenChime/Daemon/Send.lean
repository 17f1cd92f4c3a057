import OpenChime.Lib.Rows
import OpenChime.Lib.Run
import OpenChime.Shared.Text

/-! The writer's send and reply: a message and the token it came with, in one transaction. Which
of a job's SQLite calls fail is its environment, and so is what the channel's tables say of the
sender. -/

set_option autoImplicit false

namespace OpenChime.Daemon

open Shared List

/-- `messages`. -/
structure MessageRow where
  id : Nat
  channel : Nat
  author : Nat
  body : Text
  createdAtMs : Nat
  parent : Option Nat
  deleted : Bool
  deriving DecidableEq

/-- `sent_messages`. -/
structure SentRow where
  channel : Nat
  token : List UInt8
  message : Nat
  createdAtMs : Nat
  deriving DecidableEq

/-- The primary key of `sent_messages`. -/
def SentRow.key (row : SentRow) : Nat × List UInt8 := (row.channel, row.token)

/-- What is committed; `seq` is the highest message id ever given (`AUTOINCREMENT`). -/
structure MessageDb where
  messages : List MessageRow
  sent : List SentRow
  seq : Nat
  deriving DecidableEq

inductive PostAccess where
  | ok
  | unknown
  | denied
  | archived
  deriving DecidableEq

inductive SendError where
  | unknownChannel
  | notAMember
  | channelArchived
  | workspaceSender
  | forbidden
  | invalidPoll
  | unknownMessage
  | internal
  deriving DecidableEq

structure SendJob where
  user : Nat
  channel : Nat
  token : List UInt8
  body : Text
  parent : Option Nat
  deriving DecidableEq

/-- What the other tables say of the job. `extras` are files, a forward or a poll. -/
structure SendChecks where
  access : PostAccess
  workspaceDm : Bool
  e2e : Bool
  extras : Bool
  invalidPoll : Bool
  deriving DecidableEq

structure SendFaults where
  lookup : Bool := false
  parent : Bool := false
  root : Bool := false
  begin : Bool := false
  insertMessage : Bool := false
  insertSent : Bool := false
  commit : Bool := false
  deriving DecidableEq

def noFaults : SendFaults := {}

inductive SendResult where
  | ok (message time : Nat) (duplicate : Bool) (parent : Option Nat)
  | error (code : SendError)
  deriving DecidableEq

def sendRefusal (checks : SendChecks) : Option SendError :=
  match checks.access with
  | .unknown => some .unknownChannel
  | .denied => some .notAMember
  | .archived => some .channelArchived
  | .ok =>
    if checks.workspaceDm then some .workspaceSender
    else if checks.e2e && checks.extras then some .forbidden
    else if checks.invalidPoll then some .invalidPoll
    else none

def replyRefusal (checks : SendChecks) : Option SendError :=
  match checks.access with
  | .unknown => some .unknownChannel
  | .denied => some .notAMember
  | access =>
    if checks.workspaceDm then some .workspaceSender
    else if access = .archived then some .channelArchived
    else if checks.e2e && checks.extras then some .forbidden
    else if checks.invalidPoll then some .invalidPoll
    else none

namespace MessageDb

def find (db : MessageDb) (id : Nat) : Option MessageRow := db.messages.find? (·.id == id)

variable (db : MessageDb)

/-- The message a token stands for: the row of the token joined with its message. -/
def known (channel : Nat) (token : List UInt8) : Option MessageRow :=
  db.sent.findSome? fun row => if row.key = (channel, token) then db.find row.message else none

/-- The transaction of a send: the message, then its token. Only the message's own insert is
looked at; a token in conflict fails as any other. A COMMIT that fails is taken as rolled back, though
SQLite keeps the transaction of a busy one open. -/
def store (faults : SendFaults) (job : SendJob) (parent : Option Nat) (now : Nat) : MessageDb × SendResult :=
  if faults.insertMessage then (db, .error .internal)
  else
    let mid := db.seq + 1
    let inserted : MessageRow := ⟨mid, job.channel, job.user, job.body, now, parent, false⟩
    let conflict := faults.insertSent || db.sent.any (·.key == (job.channel, job.token))
    let after : MessageDb :=
      { messages := db.messages ++ [inserted]
        sent := if conflict then db.sent else db.sent ++ [⟨job.channel, job.token, mid, now⟩]
        seq := mid }
    -- with no transaction begun each statement commits by itself
    (if !faults.begin && faults.commit then db else after, .ok mid now false parent)

def storeUnless (faults : SendFaults) (job : SendJob) (parent : Option Nat)
    (now : Nat) : Option SendError → MessageDb × SendResult
  | some code => (db, .error code)
  | none => db.store faults job parent now

def processSend (faults : SendFaults) (job : SendJob) (checks : SendChecks) (now : Nat) : MessageDb × SendResult :=
  match if faults.lookup then none else db.known job.channel job.token with
  | some m => (db, .ok m.id m.createdAtMs true none)
  | none => db.storeUnless faults job none now (sendRefusal checks)

/-- The message a reply threads under: the parent, or the root of the parent's own thread. -/
def replyRoot (faults : SendFaults) (channel parent : Nat) : Option Nat :=
  let found := if faults.parent then none
    else db.messages.find? fun m => m.id == parent && m.channel == channel && !m.deleted
  found.map fun m => if faults.root then parent else m.parent.getD parent

def processSendReply (faults : SendFaults) (job : SendJob) (parent : Nat)
    (checks : SendChecks) (now : Nat) : MessageDb × SendResult :=
  match if faults.lookup then none else db.known job.channel job.token with
  | some m => (db, .ok m.id m.createdAtMs true m.parent)
  | none =>
    match db.replyRoot faults job.channel parent with
    | none => (db, .error .unknownMessage)
    | some root => db.storeUnless faults job (some root) now (replyRefusal checks)

def process (faults : SendFaults) (job : SendJob) (checks : SendChecks) (now : Nat) : MessageDb × SendResult :=
  match job.parent with
  | none => db.processSend faults job checks now
  | some parent => db.processSendReply faults job parent checks now

end MessageDb

/-- What the schema keeps: keys are keys, and a token names a message there is. -/
structure MessageDb.Sound (db : MessageDb) : Prop where
  ids : Rows.Unique MessageRow.id db.messages
  keys : Rows.Unique SentRow.key db.sent
  named : ∀ row ∈ db.sent, ∃ m ∈ db.messages, m.id = row.message
  given : ∀ m ∈ db.messages, m.id ≤ db.seq

namespace MessageDb

variable {db : MessageDb} {faults : SendFaults} {job : SendJob} {checks : SendChecks} {now : Nat}

theorem Sound.find (sound : db.Sound) {m : MessageRow} (mem : m ∈ db.messages) : db.find m.id = some m :=
  sound.ids.find? mem

variable {row : SentRow}

theorem Sound.known (sound : db.Sound) (mem : row ∈ db.sent) :
    ∃ m ∈ db.messages, m.id = row.message ∧ db.known row.channel row.token = some m := by
  obtain ⟨m, isM, named⟩ := sound.named row mem
  refine ⟨m, isM, named, ?_⟩
  unfold MessageDb.known
  cases found : db.sent.findSome? fun other =>
      if other.key = (row.channel, row.token) then db.find other.message else none with
  | none =>
    have missing := findSome?_eq_none_iff.mp found row mem
    have own : row.key = (row.channel, row.token) := rfl
    rw [if_pos own, ← named, sound.find isM] at missing
    cases missing
  | some other =>
    obtain ⟨before, isBefore, chosen⟩ := exists_of_findSome?_eq_some found
    split at chosen
    · next sameKey =>
      rw [sound.keys.eq isBefore mem sameKey, ← named, sound.find isM] at chosen
      exact chosen.symm
    · cases chosen

theorem of_known {channel : Nat} {token : List UInt8} {m : MessageRow} (found : db.known channel token = some m) :
    m ∈ db.messages ∧ ∃ row ∈ db.sent, row.key = (channel, token) ∧ row.message = m.id := by
  obtain ⟨row, isRow, chosen⟩ := exists_of_findSome?_eq_some found
  split at chosen
  · next sameKey =>
    have isId : m.id = row.message := by simpa using find?_some chosen
    exact ⟨mem_of_find?_eq_some chosen, row, isRow, sameKey, isId.symm⟩
  · cases chosen

/-- Does the job come to its transaction, and does the message's insert succeed? -/
def reaches (db : MessageDb) (faults : SendFaults) (job : SendJob) (checks : SendChecks) : Bool :=
  !faults.insertMessage && (faults.lookup || (db.known job.channel job.token).isNone) && match job.parent with
    | none => (sendRefusal checks).isNone
    | some parent =>
      (db.replyRoot faults job.channel parent).isSome && (replyRefusal checks).isNone

inductive Outcome (db : MessageDb) (faults : SendFaults) (job : SendJob) (checks : SendChecks)
    (now : Nat) : MessageDb → SendResult → Prop where
  | replayed (m : MessageRow) (parent : Option Nat) (lookup : faults.lookup = false)
      (known : db.known job.channel job.token = some m)
      (stays : db.reaches faults job checks = false) :
      Outcome db faults job checks now db (.ok m.id m.createdAtMs true parent)
  | refused (code : SendError) (stays : db.reaches faults job checks = false) :
      Outcome db faults job checks now db (.error code)
  | stored (parent : Option Nat) (after : MessageDb) (result : SendResult)
      (unknown : faults.lookup = false → db.known job.channel job.token = none)
      (goes : db.reaches faults job checks = true)
      (store : db.store faults job parent now = (after, result)) :
      Outcome db faults job checks now after result

variable {parent : Option Nat}

theorem store_refused (fails : faults.insertMessage = true) :
    db.store faults job parent now = (db, .error .internal) := by
  unfold store
  rw [if_pos fails]

theorem storeUnless_outcome {refusal : Option SendError}
    (unknown : faults.lookup = false → db.known job.channel job.token = none)
    (reached : db.reaches faults job checks = (!faults.insertMessage && refusal.isNone)) :
    Outcome db faults job checks now (db.storeUnless faults job parent now refusal).1
      (db.storeUnless faults job parent now refusal).2 := by
  cases refusal with
  | some code => exact .refused code (by rw [reached]; simp)
  | none =>
    dsimp only [storeUnless]
    cases fails : faults.insertMessage with
    | true =>
      rw [store_refused fails]
      exact .refused .internal (by rw [reached, fails]; rfl)
    | false => exact .stored parent _ _ unknown (by rw [reached, fails]; rfl) rfl

theorem process_outcome (db : MessageDb) (faults : SendFaults) (job : SendJob) (checks : SendChecks) (now : Nat) :
    Outcome db faults job checks now (db.process faults job checks now).1 (db.process faults job checks now).2 := by
  cases looked : (if faults.lookup then none else db.known job.channel job.token) with
  | some m =>
    obtain ⟨lookup, known⟩ : faults.lookup = false ∧ db.known job.channel job.token = some m := by
      split at looked
      · cases looked
      · next lookup => exact ⟨Bool.eq_false_iff.mpr lookup, looked⟩
    have stays : db.reaches faults job checks = false := by
      unfold reaches
      rw [lookup, known]
      simp
    unfold process
    cases parent : job.parent with
    | none =>
      dsimp only [processSend]
      rw [looked]
      exact .replayed m none lookup known stays
    | some p =>
      dsimp only [processSendReply]
      rw [looked]
      exact .replayed m m.parent lookup known stays
  | none =>
    have unknown : faults.lookup = false → db.known job.channel job.token = none := by
      intro lookup
      rwa [lookup] at looked
    have asNew : (faults.lookup || (db.known job.channel job.token).isNone) = true := by
      cases lookup : faults.lookup with
      | true => rfl
      | false => rw [unknown lookup]; rfl
    unfold process
    cases parent : job.parent with
    | none =>
      dsimp only [processSend]
      rw [looked]
      refine storeUnless_outcome unknown ?_
      unfold reaches
      rw [asNew, parent, Bool.and_true]
    | some p =>
      dsimp only [processSendReply]
      rw [looked]
      cases found : db.replyRoot faults job.channel p with
      | none =>
        refine .refused .unknownMessage ?_
        unfold reaches
        rw [parent]
        simp [found]
      | some root =>
        refine storeUnless_outcome unknown ?_
        unfold reaches
        rw [asNew, parent]
        simp [found]

theorem store_eq (goes : db.reaches faults job checks = true) : ∃ after, db.store faults job parent now =
        (if !faults.begin && faults.commit then db else after, .ok (db.seq + 1) now false parent) ∧
      after.seq = db.seq + 1 ∧
      after.messages = db.messages ++ [⟨db.seq + 1, job.channel, job.user, job.body, now, parent, false⟩] ∧
      after.sent =
        if faults.insertSent || db.sent.any (·.key == (job.channel, job.token)) then db.sent
        else db.sent ++ [⟨job.channel, job.token, db.seq + 1, now⟩] := by
  have inserts : faults.insertMessage = false := by
    unfold reaches at goes
    cases fails : faults.insertMessage with
    | false => rfl
    | true =>
      simp [fails] at goes
  unfold store
  rw [if_neg (by rw [inserts]; exact Bool.false_ne_true)]
  exact ⟨_, rfl, rfl, rfl, rfl⟩

theorem Sound.store {after : MessageDb} (sound : db.Sound) (seq : after.seq = db.seq + 1)
    (messages : after.messages = db.messages ++ [⟨db.seq + 1, job.channel, job.user, job.body, now, parent, false⟩])
    (sent : after.sent = if faults.insertSent || db.sent.any (·.key == (job.channel, job.token)) then db.sent
      else db.sent ++ [⟨job.channel, job.token, db.seq + 1, now⟩]) : after.Sound := by
  constructor
  · unfold Rows.Unique
    rw [messages, map_append, nodup_append_comm]
    refine nodup_cons.mpr ⟨?_, sound.ids⟩
    intro mem
    obtain ⟨m, isM, same⟩ := mem_map.mp mem
    have bound := sound.given m isM
    dsimp only at same
    omega
  · unfold Rows.Unique
    rw [sent]
    split
    · exact sound.keys
    next unused =>
    rw [map_append, nodup_append_comm]
    refine nodup_cons.mpr ⟨?_, sound.keys⟩
    intro mem
    obtain ⟨row, isRow, same⟩ := mem_map.mp mem
    apply unused
    rw [Bool.or_eq_true, any_eq_true]
    exact .inr ⟨row, isRow, beq_iff_eq.mpr same⟩
  · intro row isRow
    have cases : row ∈ db.sent ∨ row = ⟨job.channel, job.token, db.seq + 1, now⟩ := by
      rw [sent] at isRow
      split at isRow
      · exact .inl isRow
      rcases mem_append.mp isRow with old | new
      · exact .inl old
      · exact .inr (mem_singleton.mp new)
    rw [messages]
    rcases cases with old | rfl
    · obtain ⟨m, isM, named⟩ := sound.named row old
      exact ⟨m, mem_append_left _ isM, named⟩
    · exact ⟨_, mem_concat_self, rfl⟩
  · intro m isM
    rw [messages] at isM
    rw [seq]
    rcases mem_append.mp isM with old | new
    · have bound := sound.given m old
      omega
    · rw [mem_singleton.mp new]

/-- What a job leaves has all that was there, and of tokens only its own beside. -/
structure Grown (db after : MessageDb) (job : SendJob) : Prop where
  sound : after.Sound
  messages : db.messages ⊆ after.messages
  sent : db.sent ⊆ after.sent
  own : ∀ row ∈ after.sent, row ∈ db.sent ∨ row.key = (job.channel, job.token)

theorem Sound.grown (sound : db.Sound) : db.Grown db job :=
  ⟨sound, List.Subset.refl _, List.Subset.refl _, fun _ mem => .inl mem⟩

/-- A job, whatever of it fails, keeps what the schema keeps and forgets nothing. -/
theorem Sound.process (sound : db.Sound) : db.Grown (db.process faults job checks now).1 job := by
  have outcome := process_outcome db faults job checks now
  generalize db.process faults job checks now = answer at outcome ⊢
  obtain ⟨left, result⟩ := answer
  cases outcome with
  | replayed | refused => exact sound.grown
  | stored parent _ _ unknown goes stored =>
    obtain ⟨after, isStore, seq, messages, sent⟩ := @store_eq db faults job checks now parent goes
    rw [isStore] at stored
    obtain ⟨isAfter, _⟩ := Prod.mk.inj stored
    rw [← isAfter]
    split
    · exact sound.grown
    constructor
    · exact sound.store seq messages sent
    · rw [messages]
      exact subset_append_left _ _
    · rw [sent]
      split
      · exact List.Subset.refl _
      · exact subset_append_left _ _
    · intro row isRow
      rw [sent] at isRow
      split at isRow
      · exact .inl isRow
      rcases Rows.mem_insert.mp isRow with old | rfl
      · exact .inl old
      · exact .inr rfl

def step (db : MessageDb) (job : SendFaults × SendJob × SendChecks × Nat) : Option MessageDb :=
  some (db.process job.1 job.2.1 job.2.2.1 job.2.2.2).1

/-- A job with a token that is there is answered with its message, and nothing changes. -/
theorem Sound.replay (sound : db.Sound) (mem : row ∈ db.sent)
    (same : (job.channel, job.token) = row.key) (lookup : faults.lookup = false) :
    ∃ time parent, db.process faults job checks now = (db, .ok row.message time true parent) := by
  obtain ⟨m, isM, named, known⟩ := sound.known mem
  obtain ⟨sameChannel, sameToken⟩ := Prod.mk.inj same
  rw [← sameChannel, ← sameToken] at known
  unfold MessageDb.process processSend processSendReply
  rw [lookup]
  cases job.parent with
  | none =>
    rw [known, ← named]
    exact ⟨_, _, rfl⟩
  | some parent =>
    rw [known, ← named]
    exact ⟨_, _, rfl⟩

/-- What an answer promises: the message and its token are stored, so that every later job with
the token, before it is pruned, makes no message and gets this answer; an error left nothing. -/
def Acknowledged (db : MessageDb) (job : SendJob) : MessageDb × SendResult → Prop
  | (after, .ok message ..) =>
    (∃ m ∈ after.messages, m.id = message) ∧
    (∃ time, ⟨job.channel, job.token, message, time⟩ ∈ after.sent) ∧
    ∀ jobs later, Machine.Run step (fun _ _ => True) after jobs later →
      ∀ (faults : SendFaults) (again : SendJob) (checks : SendChecks) (now : Nat),
        faults.lookup = false → again.channel = job.channel → again.token = job.token →
        ∃ time parent, later.process faults again checks now = (later, .ok message time true parent)
  | (after, .error _) => after.messages = db.messages ∧ after.sent = db.sent

/-- The transaction is a whole one: the token is new to the channel, its insert succeeds, and so
does the commit where there is one. -/
def Commits (db : MessageDb) (faults : SendFaults) (job : SendJob) : Prop :=
  (∀ row ∈ db.sent, row.key ≠ (job.channel, job.token)) ∧ faults.insertSent = false ∧
    (faults.begin = true ∨ faults.commit = false)

theorem Sound.acknowledged {after : MessageDb} (sound : after.Sound)
    (mem : row ∈ after.sent) (own : row.key = (job.channel, job.token)) {time : Nat}
    {duplicate : Bool} : Acknowledged db job (after, .ok row.message time duplicate parent) := by
  obtain ⟨m, isM, named, _⟩ := sound.known mem
  refine ⟨⟨m, isM, named⟩, ⟨row.createdAtMs, ?_⟩, ?_⟩
  · obtain ⟨isChannel, isToken⟩ := Prod.mk.inj own
    rw [← isChannel, ← isToken]
    exact mem
  · intro jobs later run faults again checks now lookup sameChannel sameToken
    have kept := run.invariant (fun _ db => db.Sound ∧ row ∈ db.sent) ⟨sound, mem⟩ (by
      rintro _ job _ _ ⟨stillSound, stillThere⟩ _ taken
      cases taken
      have grown := @Sound.process _ job.1 job.2.1 job.2.2.1 job.2.2.2 stillSound
      exact ⟨grown.sound, grown.sent stillThere⟩)
    refine kept.1.replay kept.2 ?_ lookup
    rw [own, sameChannel, sameToken]

/-- A job's answer is true exactly when, once it comes to its transaction, that is a whole one. -/
theorem acknowledged_message_is_stored_iff (sound : db.Sound) : Acknowledged db job (db.process faults job checks now) ↔
      (db.reaches faults job checks = true → db.Commits faults job) := by
  have outcome := process_outcome db faults job checks now
  generalize db.process faults job checks now = answer at outcome ⊢
  obtain ⟨after, result⟩ := answer
  cases outcome with
  | replayed m parent lookup known stays =>
    refine ⟨fun _ goes => absurd goes (by rw [stays]; exact Bool.false_ne_true), fun _ => ?_⟩
    obtain ⟨_, row, isRow, own, named⟩ := of_known known
    rw [← named]
    exact sound.acknowledged isRow own
  | refused code stays =>
    exact ⟨fun _ goes => absurd goes (by rw [stays]; exact Bool.false_ne_true), fun _ => ⟨rfl, rfl⟩⟩
  | stored parent _ _ unknown goes stored =>
    obtain ⟨after, isStore, seq, messages, sent⟩ := @store_eq db faults job checks now parent goes
    rw [isStore] at stored
    obtain ⟨rfl, rfl⟩ := Prod.mk.inj stored
    constructor
    · rintro ⟨⟨m, isM, isNew⟩, ⟨time, isRow⟩, _⟩ _
      have committed : ¬ (!faults.begin && faults.commit) = true := by
        intro lost
        rw [if_pos lost] at isM
        have bound := sound.given m isM
        omega
      rw [if_neg committed, sent] at isRow
      have unused : ¬ (faults.insertSent || db.sent.any (·.key == (job.channel, job.token))) = true := by
        intro conflict
        rw [if_pos conflict] at isRow
        obtain ⟨old, isOld, named⟩ := sound.named _ isRow
        have bound := sound.given old isOld
        dsimp only at named
        omega
      simp only [Bool.or_eq_true, not_or, Bool.not_eq_true] at unused
      refine ⟨?_, unused.1, ?_⟩
      · intro row isOld same
        have found := any_eq_false.mp unused.2 row isOld
        exact found (beq_iff_eq.mpr same)
      · cases begun : faults.begin with
        | true => exact .inl rfl
        | false =>
          rw [begun] at committed
          exact .inr (by simpa using committed)
    · intro commits
      obtain ⟨fresh, inserted, whole⟩ := commits goes
      have committed : ¬ (!faults.begin && faults.commit) = true := by
        rcases whole with none | done
        · rw [none]
          exact Bool.false_ne_true
        · rw [done, Bool.and_false]
          exact Bool.false_ne_true
      have unused : ¬ (faults.insertSent || db.sent.any (·.key == (job.channel, job.token))) = true := by
        rw [inserted, Bool.false_or, any_eq_true]
        rintro ⟨row, isRow, same⟩
        exact fresh row isRow (beq_iff_eq.mp same)
      rw [if_neg committed]
      have isRow : ⟨job.channel, job.token, db.seq + 1, now⟩ ∈ after.sent := by
        rw [sent, if_neg unused]
        exact mem_concat_self
      exact (sound.store seq messages sent).acknowledged isRow rfl

def emptyDb : MessageDb := ⟨[], [], 0⟩

def anyJob : SendJob := ⟨1, 7, [9], [104], none⟩

def allChecked : SendChecks := ⟨.ok, false, false, false, false⟩

theorem emptyDb_sound : emptyDb.Sound :=
  ⟨nodup_nil, nodup_nil, nofun, nofun⟩

theorem acknowledged_message_is_stored_iff_once :
    Acknowledged emptyDb anyJob (emptyDb.process noFaults anyJob allChecked 5) ∧
      emptyDb.process noFaults anyJob allChecked 5 =
        (⟨[⟨1, 7, 1, [104], 5, none, false⟩], [⟨7, [9], 1, 5⟩], 1⟩, .ok 1 5 false none) := by
  refine ⟨(acknowledged_message_is_stored_iff emptyDb_sound).mpr ?_, by decide⟩
  intro _
  refine ⟨?_, rfl, .inr rfl⟩
  intro _ mem
  cases mem

/-- The commit fails, and the sender is told that the message is stored. -/
theorem acknowledged_message_lost : emptyDb.Sound ∧
      emptyDb.process { noFaults with commit := true } anyJob allChecked 5 = (emptyDb, .ok 1 5 false none) ∧
      ¬ Acknowledged emptyDb anyJob (emptyDb.process { noFaults with commit := true } anyJob allChecked 5) := by
  have answered : emptyDb.process { noFaults with commit := true } anyJob allChecked 5 =
      (emptyDb, .ok 1 5 false none) := by decide
  refine ⟨emptyDb_sound, answered, ?_⟩
  rintro ⟨⟨_, mem, _⟩, _⟩
  cases mem

/-- Where a token's lookup and insert succeed, whatever else fails, every message has a token and every
token one message: what is sent again is not stored again. -/
theorem each_token_has_one_message {jobs : List (SendFaults × SendJob × SendChecks × Nat)} {db : MessageDb}
    (run : Machine.Run step (fun _ job => job.1.lookup = false ∧ job.1.insertSent = false) emptyDb jobs db) :
    (db.sent.map SentRow.key).Nodup ∧ db.messages.map (·.id) = db.sent.map (·.message) := by
  have kept := run.invariant (fun _ db => db.Sound ∧ db.messages.map (·.id) = db.sent.map (·.message))
    ⟨emptyDb_sound, rfl⟩ (by
      rintro - ⟨faults, job, checks, now⟩ db - ⟨sound, same⟩ ⟨lookup, inserted⟩ ⟨⟩
      refine ⟨sound.process.sound, ?_⟩
      have outcome := process_outcome db faults job checks now
      generalize db.process faults job checks now = answer at outcome ⊢
      obtain ⟨left, result⟩ := answer
      cases outcome with
      | replayed | refused => exact same
      | stored parent _ _ unknown goes stored =>
        obtain ⟨after, isStore, -, messages, sent⟩ := @store_eq db faults job checks now parent goes
        have fresh : db.sent.any (·.key == (job.channel, job.token)) = false := by
          refine any_eq_false.mpr fun row mem own => ?_
          obtain ⟨m, -, -, known⟩ := sound.known mem
          obtain ⟨isChannel, isToken⟩ := Prod.mk.inj (beq_iff_eq.mp own)
          simp [isChannel, isToken, unknown lookup] at known
        rw [isStore] at stored
        rw [← (Prod.mk.inj stored).1]
        split
        · exact same
        · rw [messages, sent, fresh, show faults.insertSent = false from inserted]
          simp [same])
  exact ⟨kept.1.keys, kept.2⟩

theorem each_token_has_one_message_again : ∃ db, step emptyDb (noFaults, anyJob, allChecked, 5) = some db ∧
      step db (noFaults, anyJob, allChecked, 6) = some db ∧ db.messages.map (·.id) = db.sent.map (·.message) :=
  ⟨_, rfl, by decide, (each_token_has_one_message (.snoc .nil ⟨rfl, rfl⟩ rfl)).2⟩

end MessageDb

end OpenChime.Daemon
