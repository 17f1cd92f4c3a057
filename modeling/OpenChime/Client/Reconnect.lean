import Mathlib.Data.List.Sort
import OpenChime.Client.Transcript
import OpenChime.Daemon.Backfill
import OpenChime.Lib.Run
import OpenChime.Wire.FrameBuf

/-! A client that comes and goes (`client/core/net.c`, `daemon/netloop.c`,
`daemon/dbwriter.c`): the high-water table it resumes from, the database thread that
answers its backfills, and the net thread that passes on results in their order. -/

set_option autoImplicit false

namespace OpenChime.Client

open Shared Daemon

structure HwRow where
  (channelId highWater : Nat)

def hwtabNote (t : List HwRow) (channelId messageId : Nat) : List HwRow :=
  match t with
  | [] => [⟨channelId, messageId⟩]
  | row :: rows =>
    if row.channelId = channelId then
      (if messageId > row.highWater then { row with highWater := messageId } else row) :: rows
    else row :: hwtabNote rows channelId messageId

def hwtabGet (t : List HwRow) (channelId : Nat) : Nat :=
  match t.find? (·.channelId = channelId) with
  | some row => row.highWater
  | none => 0

/-- A BROADCAST as `dispatch` hands it on. -/
def StoredMessage.event (b : StoredMessage) : MessageEv :=
  { channelId := b.channelId, authorId := b.authorId, messageId := b.messageId
    serverTime := b.createdAt, msgKind := b.kind, broadcastStored := b.broadcastStored
    authorName := .print authorNameSize_pos b.authorName, body := some b.body, action := false
    actionKnown := false, actionStart := 0, actionLen := 0, actorName := .empty authorNameSize_pos }

/-- The frames of a replay; those about a message's reactions, pins and the like are left
out. -/
inductive ReplayFrame where
  | broadcast (message : StoredMessage)
  | backfillDone (highWater : Nat) (more : Bool)

inductive Result where
  | posted (message : StoredMessage)
  | backfill (frames : List ReplayFrame)

def postedIn (results : List Result) : List StoredMessage :=
  results.filterMap fun | .posted message => some message | .backfill _ => none

/-- A live connection: requests not answered yet, and frames not delivered yet. A replay
may overtake live frames that wait behind another replay, so the two kinds are kept
apart, each in its order. -/
structure Link where
  requests : List (List Cursor)
  live : List StoredMessage
  replay : List ReplayFrame

structure World where
  /-- The top-level messages, in the order of their ids. -/
  log : List StoredMessage
  /-- The user's channels, in order. -/
  members : List Nat
  results : List Result
  link : Option Link
  hw : List HwRow
  model : Model

inductive Event where
  | post (message : StoredMessage)
  | join (channelId : Nat)
  | leave (channelId : Nat)
  | connect
  | disconnect
  /-- OC_CMD_BACKFILL -/
  | openChannel (channelId : Nat)
  | serve
  | passOn
  | receiveLive
  | receiveReplay

def requestFits (cursors : Nat) : Bool := Wire.headerSize + 2 + 16 * cursors ≤ Wire.maxFrameSize

namespace World

def start (members : List Nat) (model : Model) : World :=
  { log := [], members, results := [], link := none, hw := [], model := { model with channels := [] } }

def receive (w : World) (message : StoredMessage) : World :=
  { w with
    hw := hwtabNote w.hw message.channelId message.messageId
    model := w.model.onMessage (StoredMessage.event message) }

/-- The backfill a connection starts with: none at all if the cursors do not fit a frame. -/
def firstRequest (hw : List HwRow) : List (List Cursor) :=
  if requestFits hw.length then [hw.map fun row => ⟨row.channelId, row.highWater⟩] else []

variable (isPublic : Nat → Bool)

/-- `channel_read_access` -/
def readable (w : World) (channelId : Nat) : Bool := isPublic channelId ∨ channelId ∈ w.members

/-- The database thread answers a request; the net thread kept its first cursors only. -/
def answer (w : World) (request : List Cursor) : Result :=
  let (rows, truncated) := processBackfill (w.readable isPublic) w.members w.log (request.take cursorsMax)
  .backfill (rows.map .broadcast ++ [.backfillDone ((w.log.getLast?.map (·.messageId)).getD 0) truncated])

def step (w : World) : Event → Option World
  | .post message =>
    some { w with log := w.log ++ [message], results := w.results ++ [.posted message] }
  | .join channelId =>
    if channelId ∈ w.members then some w
    else some { w with members := w.members.orderedInsert (· ≤ ·) channelId }
  | .leave channelId => some { w with members := w.members.filter (· ≠ channelId) }
  | .connect =>
    if w.link.isSome then none
    else some { w with link := some ⟨firstRequest w.hw, [], []⟩ }
  | .disconnect =>
    -- the results of its backfills find no connection
    some { w with link := none, results := (postedIn w.results).map .posted }
  | .openChannel channelId => do
      let link ← w.link
      let request := [⟨channelId, hwtabGet w.hw channelId⟩]
      some { w with link := some { link with requests := link.requests ++ [request] } }
  | .serve => do
      let link ← w.link
      let (request, requests) ← link.requests.head?.map (·, link.requests.tail)
      some { w with
        link := some { link with requests }, results := w.results ++ [w.answer isPublic request] }
  | .passOn =>
    match w.results, w.link with
    | [], _ => none
    | .posted message :: results, some link =>
      let live := if message.channelId ∈ w.members then [message] else []
      some { w with results, link := some { link with live := link.live ++ live } }
    | .backfill frames :: results, some link =>
      some { w with results, link := some { link with replay := link.replay ++ frames } }
    | _ :: results, none => some { w with results }
  | .receiveLive => do
      let link ← w.link
      let (message, live) ← link.live.head?.map (·, link.live.tail)
      some (receive { w with link := some { link with live } } message)
  | .receiveReplay => do
      let link ← w.link
      match link.replay with
      | [] => none
      | .broadcast message :: replay =>
        some (receive { w with link := some { link with replay } } message)
      -- `more` is not looked at
      | .backfillDone _ _ :: replay => some { w with link := some { link with replay } }

def Quiet (w : World) : Prop := w.link = some ⟨[], [], []⟩ ∧ w.results = []

def Posted (w : World) (channelId id : Nat) : Prop :=
  ∃ message ∈ w.log, message.channelId = channelId ∧ message.messageId = id

def NoHole (w : World) (channelId : Nat) : Prop :=
  ∀ id, id ∈ w.model.held channelId ↔ w.Posted channelId id ∧ ∃ first ∈ w.model.held channelId, first ≤ id

end World

/-- What the world promises: ids rise, and the user stays in the channel. -/
def Event.Given (channelId : Nat) (w : World) : Event → Prop
  | .post message =>
    message.messageId ≠ 0 ∧ ∀ earlier ∈ w.log, earlier.messageId < message.messageId
  | .leave other => other ≠ channelId
  | _ => True

/-- Nothing the channel has from the first id held up to the high-water mark is missing. -/
def World.Unbroken (w : World) (channelId : Nat) : Prop :=
  ∀ message ∈ w.log, message.channelId = channelId → message.messageId ≤ hwtabGet w.hw channelId →
    (∃ first ∈ w.model.held channelId, first ≤ message.messageId) →
    message.messageId ∈ w.model.held channelId

/-- The cursors fit what the daemon keeps of them, a reply has room for all it is asked for,
and a connection is not lost while something below the high-water mark is missing. -/
def Event.Safe (isPublic : Nat → Bool) (channelId : Nat) (w : World) : Event → Prop
  | .connect => w.hw.length ≤ cursorsMax
  | .serve => ∀ link ∈ w.link, ∀ request ∈ link.requests.head?,
      (wanted (w.readable isPublic) w.log (effectiveCursors w.members request)).length ≤ backfillMax
  | .disconnect => w.Unbroken channelId
  | _ => True

instance (channelId : Nat) (w : World) : Decidable (w.Unbroken channelId) :=
  inferInstanceAs (Decidable (∀ message ∈ w.log, message.channelId = channelId →
    message.messageId ≤ hwtabGet w.hw channelId →
    (∃ first ∈ w.model.held channelId, first ≤ message.messageId) →
    message.messageId ∈ w.model.held channelId))

instance (channelId : Nat) (w : World) (event : Event) : Decidable (event.Given channelId w) := by
  cases event <;> unfold Event.Given <;> infer_instance

instance (isPublic : Nat → Bool) (channelId : Nat) (w : World) (event : Event) :
    Decidable (event.Safe isPublic channelId w) := by
  cases event <;> unfold Event.Safe <;> infer_instance

end OpenChime.Client
