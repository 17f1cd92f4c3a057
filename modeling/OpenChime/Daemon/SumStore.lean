import Mathlib.Data.List.Sort
import OpenChime.Lib.Rows
import OpenChime.Lib.Upward
import OpenChime.Shared.Text

/-! The messages that summaries are made of, and the summaries kept of them (`sum_store.c` and the
jobs of `dbwriter.c` that write messages). A summary is a node: notes on messages, or notes on the
notes of other nodes, up to the summary of a period. A node's inputs are stored with it, and
whatever changes a message deletes the nodes above it. -/

set_option autoImplicit false

namespace OpenChime.Daemon.Summary

open OpenChime.Shared

structure MessageRow where
  id : Nat
  channel : Nat
  author : Nat
  parent : Option Nat
  created : Int
  -- `COALESCE(edited_at_ms, 0)`: the stamp a summary's input is checked by.
  edited : Int
  deleted : Bool
  kind : Nat
  body : Text
deriving DecidableEq

/-- `COALESCE(parent_id, id)`. -/
def MessageRow.root (r : MessageRow) : Nat := r.parent.getD r.id

def MessageRow.inThread (root : Nat) (r : MessageRow) : Bool := r.id == root || r.parent == some root

def MessageRow.live (r : MessageRow) : Bool := !r.deleted && r.kind == 0

structure HoldRow where
  message : Nat
  body : Text
  deletedBy : Nat
  deletedAt : Int

inductive NodeKind where
  | chunk
  | thread
  | sect
  | period
deriving DecidableEq

/-- An input as it is stored: a message with the stamp it was read at, or a node. -/
inductive Child where
  | message (id : Nat) (stamp : Int)
  | node (id : Nat)
deriving DecidableEq

/-- An input of a node not yet stored; `made` counts the nodes of the same build. -/
inductive Input where
  | message (id : Nat) (stamp : Int)
  | node (id : Nat)
  | made (index : Nat)
deriving DecidableEq

/-- A row of `summary_nodes` with its `summary_inputs`. The last two fields are not in the
database: the message texts the node was made of, in its prompt or behind the notes in its prompt,
with the bodies they had when they were read; and, for a period, the table of messages as it was
when the build read the channel. -/
structure Node (Key : Type) where
  id : Nat
  channel : Nat
  kind : NodeKind
  key : Key
  start : Int
  stop : Int
  zone : Int
  version : Text
  body : Text
  inputs : List Child
  texts : List (Nat × Text)
  seen : List MessageRow

structure NewNode (Key : Type) where
  kind : NodeKind
  key : Key
  start : Int
  stop : Int
  zone : Int
  body : Text
  inputs : List Input
  texts : List (Nat × Text)
  seen : List MessageRow

structure SumDb (Key : Type) where
  messages : List MessageRow
  holds : List HoldRow
  nodes : List (Node Key)
  -- The next row of each `AUTOINCREMENT` table.
  nextMessage : Nat
  nextNode : Nat
  e2e : Nat → Bool
  restoreWindow : Int

def SumDb.empty {Key : Type} (e2e : Nat → Bool) (restoreWindow : Int) : SumDb Key :=
  { messages := [], holds := [], nodes := [], nextMessage := 1, nextNode := 1, e2e, restoreWindow }

variable {Key : Type}

structure SumMsg where
  id : Nat
  parent : Option Nat
  created : Int
  edited : Int
  body : Text
deriving DecidableEq

def SumMsg.root (m : SumMsg) : Nat := m.parent.getD m.id

def MessageRow.read (r : MessageRow) : SumMsg :=
  { id := r.id, parent := r.parent, created := r.created, edited := r.edited, body := r.body }

variable (db : SumDb Key)

def SumDb.summarized (r : MessageRow) : Bool := r.live && !db.e2e r.channel

def SumDb.lastActivity (root : Nat) : Int :=
  ((db.messages.filter fun r => r.inThread root && db.summarized r).map (·.created)).max?.getD 0

def SumDb.threadRows (root : Nat) : List MessageRow := db.messages.filter fun r => r.inThread root && r.live

/-- `oc_sum_load_window`: the threads with a message in the span and none after it, whole. -/
def SumDb.loadWindow (channel : Nat) (start stop : Int) : List SumMsg :=
  let inSpan := db.messages.filter fun r =>
    r.channel == channel && decide (start ≤ r.created) && decide (r.created < stop) && db.summarized r
  let roots := (inSpan.map (·.root)).dedup.filter fun root => db.lastActivity root < stop
  (roots.flatMap fun root => (db.threadRows root).map (·.read)).insertionSort (fun a b => a.id ≤ b.id)

def anchorFrom (gap : Nat) : Int → List Int → Int
  | later, [] => later
  | later, t :: earlier => if (later - t).toNat > gap then later else anchorFrom gap t earlier

/-- `oc_sum_anchor`: back from `start` to the first quiet gap. -/
def SumDb.anchor (channel : Nat) (start : Int) (gap : Nat) : Int :=
  anchorFrom gap start (((db.messages.filter fun r =>
      r.channel == channel && decide (r.created < start) && db.summarized r).map (·.created)).insertionSort (· ≥ ·))

/-- `oc_sum_find_ikey`. -/
def SumDb.findKey [DecidableEq Key] (key : Key) (version : Text) : Option (Node Key) :=
  db.nodes.find? fun n => n.key == key && n.version == version

def newest : List (Node Key) → Option (Node Key)
  | [] => none
  | n :: rest =>
    match newest rest with
    | none => some n
    | some best => if best.id < n.id then some n else some best

/-- `oc_sum_find_period`: one of this version first, then the newest. -/
def SumDb.findPeriod (channel : Nat) (start stop zone : Int) (version : Text) (allowOld : Bool) : Option (Node Key) :=
  let same := db.nodes.filter fun n =>
    n.channel == channel && n.kind == .period && n.start == start && n.stop == stop && n.zone == zone
  match newest (same.filter (·.version == version)) with
  | some n => some n
  | none => if allowOld then newest same else none

/-- What `oc_sum_store` returns when it stores nothing: 1 and -1. -/
inductive StoreFault where
  | changed
  | broken
deriving DecidableEq

def SumDb.fault (channel : Nat) (made : List Nat) : Input → Option StoreFault
  | .message id stamp =>
    if db.messages.any fun r => r.id == id && r.channel == channel && !r.deleted && r.edited == stamp
    then none else some .changed
  | .node id => if db.nodes.any (·.id == id) then none else some .changed
  | .made index => if index < made.length then none else some .broken

def Input.child (made : List Nat) : Input → Child
  | .message id stamp => .message id stamp
  | .node id => .node id
  | .made index => .node (made.getD index 0)

def SumDb.insertNode (channel : Nat) (version : Text) (made : List Nat) (x : NewNode Key) : SumDb Key :=
  { db with
    nextNode := db.nextNode + 1
    nodes := db.nodes ++
      [{ id := db.nextNode, channel, kind := x.kind, key := x.key, start := x.start, stop := x.stop
         zone := x.zone, version, body := x.body, inputs := x.inputs.map (Input.child made)
         texts := x.texts, seen := x.seen }] }

def SumDb.storeNodes (channel : Nat) (version : Text) :
    List (NewNode Key) → List Nat → SumDb Key → Except StoreFault (SumDb Key)
  | [], _, db => .ok db
  | x :: rest, made, db =>
    match x.inputs.findSome? (db.fault channel made) with
    | some fault => .error fault
    | none => storeNodes channel version rest (made ++ [db.nextNode]) (db.insertNode channel version made x)

/-- All of a batch, or none of it: a failure rolls back to the savepoint. -/
def SumDb.store (channel : Nat) (version : Text) (nodes : List (NewNode Key)) : SumDb Key :=
  match SumDb.storeNodes channel version nodes [] db with
  | .ok stored => stored
  | .error _ => db

def Node.builtOn (n below : Node Key) : Bool := n.inputs.any (· == .node below.id)

def Child.isMessage (message : Nat) : Child → Bool
  | .message id _ => id == message
  | .node _ => false

def Node.holds (n : Node Key) (message : Nat) : Bool := n.inputs.any (·.isMessage message)

def Node.covers (n : Node Key) (channel : Nat) (created : Int) : Bool :=
  n.channel == channel && n.kind == .period && decide (n.start ≤ created) && decide (created < n.stop)

/-- The nodes `oc_sum_purge` deletes: built on the message or on its thread's root, or a period
whose span holds the moment, and everything built on those. -/
def SumDb.gone (channel message root : Nat) (created : Int) : Node Key → Bool :=
  Upward.upward db.nodes (fun n => n.holds message || n.holds root || n.covers channel created) Node.builtOn

def SumDb.purge (channel message root : Nat) (created : Int) : SumDb Key :=
  { db with nodes := Rows.delete (db.gone channel message root created) db.nodes }

/-- `sum_purge_msg`. -/
def SumDb.purgeMessage (message : Nat) : SumDb Key :=
  match db.messages.find? (·.id == message) with
  | none => db
  | some r => db.purge r.channel message r.root r.created

/-! ### The writer's jobs

What a job's checks on other tables come to (membership, roles, windows, archived channels, a
known token) is `granted`. -/

inductive SumJob where
  | send (channel user : Nat) (body : Text) (granted : Bool)
  | reply (channel user parent : Nat) (body : Text) (granted : Bool)
  | webhookPost (channel creator : Nat) (body : Text) (granted : Bool)
  | callEvent (channel user : Nat) (body : Text)
  | edit (channel message user : Nat) (body : Text) (granted : Bool)
  | delete (channel message user : Nat) (granted : Bool)
  | restore (channel message user : Nat) (granted : Bool)

def callKind : Nat := 1

def SumDb.insertMessage (channel author : Nat) (parent : Option Nat) (now : Int)
    (kind : Nat) (body : Text) : SumDb Key :=
  { db with
    nextMessage := db.nextMessage + 1
    messages := db.messages ++
      [{ id := db.nextMessage, channel, author, parent, created := now, edited := 0, deleted := false
         kind, body }] }

def SumDb.lookup (channel message : Nat) : Option MessageRow :=
  db.messages.find? fun r => r.id == message && r.channel == channel

def SumDb.change (message : Nat) (f : MessageRow → MessageRow) : SumDb Key :=
  { db with messages := Rows.update (·.id == message) f db.messages }

def MessageRow.edit (body : Text) (now : Int) (r : MessageRow) : MessageRow := { r with body, edited := now }

def MessageRow.erase (r : MessageRow) : MessageRow := { r with body := [], deleted := true }

def MessageRow.bringBack (body : Text) (r : MessageRow) : MessageRow := { r with body, deleted := false }

def SumDb.holdsPurge (now : Int) : SumDb Key :=
  { db with
    holds := Rows.delete
      (fun h => h.deletedAt < if now > db.restoreWindow then now - db.restoreWindow else 0) db.holds }

/-- `hold_deleted`: nothing is kept of a message in an encrypted DM. -/
def SumDb.holdDeleted (r : MessageRow) (user : Nat) (now : Int) : SumDb Key :=
  if db.e2e r.channel then db
  else
    { db with
      holds := Rows.delete (·.message == r.id) db.holds ++
        [{ message := r.id, body := r.body, deletedBy := user, deletedAt := now }] }

def SumDb.dropHold (message : Nat) : SumDb Key := { db with holds := Rows.delete (·.message == message) db.holds }

def SumDb.send (now : Int) (channel user : Nat) (body : Text) : SumDb Key :=
  (db.insertMessage channel user none now 0 body).purgeMessage db.nextMessage

def SumDb.sendReply (now : Int) (channel user parent : Nat) (body : Text) (granted : Bool) : SumDb Key :=
  match db.lookup channel parent with
  | none => db
  | some row =>
    if row.deleted || !granted then db
    else (db.insertMessage channel user (some row.root) now 0 body).purgeMessage db.nextMessage

def SumDb.edit (db : SumDb Key) (now : Int) (channel message user : Nat) (body : Text) (granted : Bool) : SumDb Key :=
  match db.lookup channel message with
  | none => db
  | some row =>
    if row.deleted || row.author != user || !granted then db
    else (db.change message (MessageRow.edit body now)).purgeMessage message

def SumDb.delete (now : Int) (channel message user : Nat) (granted : Bool) : SumDb Key :=
  match db.lookup channel message with
  | none => db
  | some row =>
    if row.deleted || !granted then db
    else
      (((db.holdsPurge now).holdDeleted row user now).change message MessageRow.erase).purgeMessage message

/-- The row and the hold a restore brings together, once the old holds are gone. -/
def SumDb.held (channel message : Nat) : Option HoldRow :=
  match db.lookup channel message with
  | none => none
  | some row => if row.deleted then db.holds.find? (·.message == message) else none

/-- `process_restore`: the held body is copied as a C string. -/
def SumDb.restore (now : Int) (channel message user : Nat) (granted : Bool) : SumDb Key :=
  let db := db.holdsPurge now
  match db.held channel message with
  | none => db
  | some hold =>
    if hold.deletedBy != user || !granted then db
    else ((db.change message (MessageRow.bringBack (cstr hold.body))).purgeMessage message).dropHold message

def SumDb.process (now : Int) : SumJob → SumDb Key
  | .send channel user body granted => if granted then db.send now channel user body else db
  | .reply channel user parent body granted => db.sendReply now channel user parent body granted
  | .webhookPost channel creator body granted =>
    -- The one post that does not purge.
    if granted then db.insertMessage channel creator none now 0 body else db
  | .callEvent channel user body => db.insertMessage channel user none now callKind body
  | .edit channel message user body granted => db.edit now channel message user body granted
  | .delete channel message user granted => db.delete now channel message user granted
  | .restore channel message user granted => db.restore now channel message user granted

theorem of_lookup {db : SumDb Key} {channel message : Nat} {r : MessageRow}
    (found : db.lookup channel message = some r) :
    r ∈ db.messages ∧ r.id = message ∧ r.channel = channel := by
  have holds := List.find?_some found
  simp only [Bool.and_eq_true, beq_iff_eq] at holds
  exact ⟨List.mem_of_find?_eq_some found, holds⟩

inductive JobDone (db : SumDb Key) (now : Int) : SumJob → SumDb Key → Prop where
  | idle {job : SumJob} {holds : List HoldRow} (fewer : ∀ h ∈ holds, h ∈ db.holds) :
      JobDone db now job { db with holds }
  | sent {channel user : Nat} {body : Text} {granted : Bool} : JobDone db now (.send channel user body granted)
        ((db.insertMessage channel user none now 0 body).purgeMessage db.nextMessage)
  | replied {channel user parent : Nat} {body : Text} {granted : Bool} {row : MessageRow}
      (found : db.lookup channel parent = some row) :
      JobDone db now (.reply channel user parent body granted)
        ((db.insertMessage channel user (some row.root) now 0 body).purgeMessage db.nextMessage)
  | hooked {channel creator : Nat} {body : Text} : JobDone db now (.webhookPost channel creator body true)
        (db.insertMessage channel creator none now 0 body)
  | called {channel user : Nat} {body : Text} : JobDone db now (.callEvent channel user body)
        (db.insertMessage channel user none now callKind body)
  | edited {channel message user : Nat} {body : Text} {granted : Bool} {row : MessageRow}
      (found : db.lookup channel message = some row) (live : row.deleted = false) :
      JobDone db now (.edit channel message user body granted)
        ((db.change message (MessageRow.edit body now)).purgeMessage message)
  | deleted {channel message user : Nat} {granted : Bool} {row : MessageRow}
      (found : db.lookup channel message = some row) (live : row.deleted = false) :
      JobDone db now (.delete channel message user granted)
        ((((db.holdsPurge now).holdDeleted row user now).change message MessageRow.erase).purgeMessage message)
  | restored {channel message user : Nat} {granted : Bool} {row : MessageRow} {hold : HoldRow}
      (found : db.lookup channel message = some row) (isHold : hold ∈ (db.holdsPurge now).holds)
      (isTheirs : hold.message = message) :
      JobDone db now (.restore channel message user granted) ((((db.holdsPurge now).change message
          (MessageRow.bringBack (cstr hold.body))).purgeMessage message).dropHold message)

theorem holdsPurge_fewer (now : Int) : ∀ h ∈ (db.holdsPurge now).holds, h ∈ db.holds :=
  fun _ mem => (Rows.mem_delete.mp mem).1

theorem restore_cases (now : Int) (channel message user : Nat) (granted : Bool) :
    JobDone db now (.restore channel message user granted) (db.restore now channel message user granted) := by
  unfold SumDb.restore
  dsimp only
  split
  · exact .idle (holdsPurge_fewer db now)
  next hold held =>
  unfold SumDb.held at held
  split at held
  · cases held
  next row found =>
  split at held
  · split
    · exact .idle (holdsPurge_fewer db now)
    · exact .restored found (List.mem_of_find?_eq_some held) (by simpa using List.find?_some held)
  · cases held

theorem process_cases (now : Int) (job : SumJob) : JobDone db now job (db.process now job) := by
  have refused : JobDone db now job { db with holds := db.holds } := .idle fun _ mem => mem
  cases job with
  | send channel user body granted =>
    dsimp only [SumDb.process, SumDb.send]
    split
    · exact .sent
    · exact refused
  | reply channel user parent body granted =>
    dsimp only [SumDb.process, SumDb.sendReply]
    split
    · exact refused
    next row found =>
    split
    · exact refused
    · exact .replied found
  | webhookPost channel creator body granted =>
    cases granted with
    | true => exact .hooked
    | false => exact refused
  | callEvent channel user body => exact .called
  | edit channel message user body granted =>
    dsimp only [SumDb.process, SumDb.edit]
    split
    · exact refused
    next row found =>
    split
    · exact refused
    next accepted =>
    simp only [Bool.or_eq_true, not_or, Bool.not_eq_true] at accepted
    exact .edited found accepted.1.1
  | delete channel message user granted =>
    dsimp only [SumDb.process, SumDb.delete]
    split
    · exact refused
    next row found =>
    split
    · exact refused
    next accepted =>
    simp only [Bool.or_eq_true, not_or, Bool.not_eq_true] at accepted
    exact .deleted found accepted.1
  | restore channel message user granted => exact restore_cases db now channel message user granted

end OpenChime.Daemon.Summary
