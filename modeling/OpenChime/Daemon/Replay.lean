import OpenChime.Wire.FrameBuf
import OpenChime.Wire.Messages.Threads
import OpenChime.Wire.Messages.Records

/-! The frames a BACKFILL_OK becomes (`backfill_next` of `daemon/netloop.c`), one call
at a time. `Replay.calls` lists them; the phases of the source walk that list. -/

set_option autoImplicit false

namespace OpenChime.Daemon

open Wire List

def protocolVersion : UInt16 := 33

def pinAdd : UInt8 := 1
def saveAdd : UInt8 := 1
def reactAdd : UInt8 := 1

/-- `oc_replay_msg`, as far as a replay reads it; a NULL string is the empty one. -/
structure ReplayMsg where
  (messageId channelId authorId serverTime : UInt64)
  body : Slice
  replyCount : UInt32
  lastReplyAt : UInt64
  attach : List AttachEntry
  authorName : Slice
  (pinnedBy pinnedAt : UInt64)
  saved : UInt8
  savedAt : UInt64
  (collapsed kind broadcastStored : UInt8)

structure ReplayReact where
  (messageId channelId userId count : UInt64)
  emoji : Slice

/-- The `oc_dbres` of a BACKFILL_OK. Its other rows carry the fields of their frames. -/
structure Replay where
  replay : List ReplayMsg
  rreact : List ReplayReact
  runfurl : List Unfurl
  rfwd : List Forward
  ract : List Action
  rpoll : List PollMsg
  highWater : UInt64
  truncated : UInt8

namespace ReplayMsg

def broadcast (m : ReplayMsg) : Put :=
  let attach := m.attach.take maxAttach.toNat   -- fill_attach_entries
  encodeBroadcast protocolVersion
    { messageId := m.messageId, channelId := m.channelId, authorId := m.authorId
      serverTime := m.serverTime, kind := m.kind, body := m.body
      nAttach := UInt16.ofNat attach.length, attach, authorName := m.authorName
      broadcastStored := m.broadcastStored }

def threadMeta (m : ReplayMsg) : Put :=
  encodeThreadMeta protocolVersion ⟨m.messageId, m.replyCount, m.lastReplyAt⟩

def pin (m : ReplayMsg) : Option Put :=
  if m.pinnedBy = 0 ∧ m.pinnedAt = 0 then none
  else some (encodePinUpdated protocolVersion ⟨m.messageId, m.channelId, m.pinnedBy, pinAdd, m.pinnedAt⟩)

def save (m : ReplayMsg) : Option Put :=
  if m.saved = 0 then none
  else some (encodeSavedUpdated protocolVersion ⟨m.messageId, saveAdd, m.savedAt⟩)

def collapse (m : ReplayMsg) : Option Put :=
  if m.collapsed = 0 then none
  else some (encodeCollapsedUpdated protocolVersion ⟨m.messageId, 1⟩)

end ReplayMsg

def ReplayReact.updated (r : ReplayReact) : Put :=
  encodeReactionUpdated protocolVersion ⟨r.messageId, r.channelId, r.userId, r.emoji, reactAdd, r.count⟩

inductive BfPhase where
  | msg
  | threadMeta
  | pin
  | saved
  | collapsed
  | react
  | unfurl
  | fwd
  | act
  | poll
  | done
  | finished
  deriving DecidableEq

/-- `bf_phase` and `bf_i` -/
structure BfPos where
  phase : BfPhase
  i : Nat
  deriving DecidableEq

def BfPos.start : BfPos := ⟨.msg, 0⟩

namespace Replay

def rows (r : Replay) : BfPhase → List (Option Put)
  | .pin => r.replay.map ReplayMsg.pin
  | .saved => r.replay.map ReplayMsg.save
  | .collapsed => r.replay.map ReplayMsg.collapse
  | .react => r.rreact.map fun row => some row.updated
  | .unfurl => r.runfurl.map fun row => some (encodeUnfurl protocolVersion row)
  | .fwd => r.rfwd.map fun row => some (encodeForward protocolVersion row)
  | .act => r.ract.map fun row => some (encodeAction protocolVersion row)
  | .poll => r.rpoll.map fun row => some (encodePoll protocolVersion row)
  | _ => []

def backfillDone (r : Replay) : Put := encodeBackfillDone protocolVersion ⟨r.highWater, r.truncated⟩

inductive Turn where
  | goto (pos : BfPos)
  | emit (call : Put) (pos : BfPos)
  | stop

/-- A phase over `rows`, with the phase that follows it. -/
def rowTurn (r : Replay) (phase next : BfPhase) (i : Nat) : Turn :=
  match (r.rows phase)[i]? with
  | none => .goto ⟨next, 0⟩
  | some none => .goto ⟨phase, i + 1⟩
  | some (some call) => .emit call ⟨phase, i + 1⟩

def turn (r : Replay) (pos : BfPos) : Turn :=
  match pos.phase with
  | .msg =>
    match r.replay[pos.i]? with
    | none => .goto ⟨.pin, 0⟩
    | some m => .emit m.broadcast ⟨.threadMeta, pos.i⟩
  | .threadMeta =>
    match r.replay[pos.i]? with
    | none => .goto ⟨.pin, 0⟩   -- never: the phase follows a message's own
    | some m =>
      if m.replyCount = 0 then .goto ⟨.msg, pos.i + 1⟩
      else .emit m.threadMeta ⟨.msg, pos.i + 1⟩
  | .pin => r.rowTurn .pin .saved pos.i
  | .saved => r.rowTurn .saved .collapsed pos.i
  | .collapsed => r.rowTurn .collapsed .react pos.i
  | .react => r.rowTurn .react .unfurl pos.i
  | .unfurl => r.rowTurn .unfurl .fwd pos.i
  | .fwd => r.rowTurn .fwd .act pos.i
  | .act => r.rowTurn .act .poll pos.i
  | .poll => r.rowTurn .poll .done pos.i
  | .done => .emit r.backfillDone ⟨.finished, pos.i⟩
  | .finished => .stop

end Replay

/-- `encode_action_entry` and `encode_poll_entry`: a row that does not encode is passed over. -/
def BfPhase.optional (phase : BfPhase) : Bool := phase = .act ∨ phase = .poll

def BfPhase.rank : BfPhase → Nat
  | .msg | .threadMeta => 10
  | .pin => 9
  | .saved => 8
  | .collapsed => 7
  | .react => 6
  | .unfurl => 5
  | .fwd => 4
  | .act => 3
  | .poll => 2
  | .done => 1
  | .finished => 0

namespace Replay

def size (r : Replay) (pos : BfPos) : Nat :=
  match pos.phase with
  | .msg => 2 * (r.replay.length - pos.i)
  | .threadMeta => 2 * (r.replay.length - pos.i) - 1
  | phase => (r.rows phase).length - pos.i

def Nearer (r : Replay) (next pos : BfPos) : Prop :=
  Prod.Lex (· < ·) (· < ·) (next.phase.rank, r.size next) (pos.phase.rank, r.size pos)

theorem rowTurn_nearer (r : Replay) {phase next : BfPhase} {i : Nat} (later : next.rank < phase.rank)
    (sized : ∀ i, r.size ⟨phase, i⟩ = (r.rows phase).length - i) {pos : BfPos}
    (moves : r.rowTurn phase next i = .goto pos ∨ ∃ call, r.rowTurn phase next i = .emit call pos) :
    r.Nearer pos ⟨phase, i⟩ := by
  have within : ∀ row, (r.rows phase)[i]? = some row → r.size ⟨phase, i + 1⟩ < r.size ⟨phase, i⟩ := by
    intro row found
    have := (List.getElem?_eq_some_iff.mp found).1
    rw [sized, sized]
    omega
  unfold rowTurn at moves
  split at moves
  · rcases moves with goes | ⟨call, emits⟩
    · cases goes
      exact .left _ _ later
    · cases emits
  · rename_i found
    rcases moves with goes | ⟨call, emits⟩
    · cases goes
      exact .right _ (within _ found)
    · cases emits
  · rename_i found
    rcases moves with goes | ⟨call, emits⟩
    · cases goes
    · cases emits
      exact .right _ (within _ found)

theorem turn_nearer (r : Replay) {pos next : BfPos}
    (moves : r.turn pos = .goto next ∨ ∃ call, r.turn pos = .emit call next) : r.Nearer next pos := by
  obtain ⟨phase, i⟩ := pos
  cases phase with
  | msg =>
    simp only [turn] at moves
    split at moves
    · rcases moves with goes | ⟨call, emits⟩
      · cases goes
        exact .left _ _ (show BfPhase.pin.rank < BfPhase.msg.rank by decide)
      · cases emits
    rename_i found
    have := (List.getElem?_eq_some_iff.mp found).1
    rcases moves with goes | ⟨call, emits⟩
    · cases goes
    · cases emits
      exact .right _ (by simp only [size]; omega)
  | threadMeta =>
    simp only [turn] at moves
    split at moves
    · rcases moves with goes | ⟨call, emits⟩
      · cases goes
        exact .left _ _ (show BfPhase.pin.rank < BfPhase.threadMeta.rank by decide)
      · cases emits
    rename_i found
    have := (List.getElem?_eq_some_iff.mp found).1
    split at moves
    · rcases moves with goes | ⟨call, emits⟩
      · cases goes
        exact .right _ (by simp only [size]; omega)
      · cases emits
    rcases moves with goes | ⟨call, emits⟩
    · cases goes
    · cases emits
      exact .right _ (by simp only [size]; omega)
  | done =>
    rcases moves with goes | ⟨call, emits⟩
    · cases goes
    · cases emits
      exact .left _ _ (show BfPhase.finished.rank < BfPhase.done.rank by decide)
  | finished =>
    rcases moves with goes | ⟨call, emits⟩
    · cases goes
    · cases emits
  | pin | saved | collapsed | react | unfurl | fwd | act | poll =>
    exact r.rowTurn_nearer (by decide) (fun _ => rfl) moves

end Replay

/-- The buffer `g_enc` after one encoder. -/
def encodeFresh (call : Put) : Except OcError Unit × WBuf := call.run (WBuf.init maxFrameSize)

/-- `backfill_next`: where the replay stands after it, and the frame; no bytes at the end,
or when a frame that is not optional does not encode. -/
def backfillNext (r : Replay) (pos : BfPos) : BfPos × List UInt8 :=
  match _moved : r.turn pos with
  | .goto next => backfillNext r next
  | .emit call next =>
    if pos.phase.optional ∧ (encodeFresh call).1.isOk = false then backfillNext r next
    else (next, (encodeFresh call).2.data)
  | .stop => (pos, [])
termination_by (pos.phase.rank, r.size pos)
decreasing_by
  · exact r.turn_nearer (.inl ‹_›)
  · exact r.turn_nearer (.inr ⟨_, ‹_›⟩)

def ReplayMsg.metaCalls (m : ReplayMsg) : List Put :=
  if m.replyCount = 0 then [] else [m.threadMeta]

namespace Replay

def rowCalls (r : Replay) (phase : BfPhase) : List Put := (r.rows phase).filterMap id

def callsFrom (r : Replay) : List BfPhase → List Put
  | [] => [r.backfillDone]
  | phase :: phases => r.rowCalls phase ++ r.callsFrom phases

/-- Each missed message with its THREAD_META, then everything else about them, then
BACKFILL_DONE. -/
def calls (r : Replay) : List Put :=
  (r.replay.flatMap fun m => m.broadcast :: m.metaCalls) ++
    r.callsFrom [.pin, .saved, .collapsed, .react, .unfurl, .fwd, .act, .poll]

def phasesAfter : BfPhase → List BfPhase
  | .msg | .threadMeta => [.pin, .saved, .collapsed, .react, .unfurl, .fwd, .act, .poll]
  | .pin => [.saved, .collapsed, .react, .unfurl, .fwd, .act, .poll]
  | .saved => [.collapsed, .react, .unfurl, .fwd, .act, .poll]
  | .collapsed => [.react, .unfurl, .fwd, .act, .poll]
  | .react => [.unfurl, .fwd, .act, .poll]
  | .unfurl => [.fwd, .act, .poll]
  | .fwd => [.act, .poll]
  | .act => [.poll]
  | .poll | .done | .finished => []

def remaining (r : Replay) (pos : BfPos) : List Put :=
  match pos.phase with
  | .msg =>
    ((r.replay.drop pos.i).flatMap fun m => m.broadcast :: m.metaCalls) ++ r.callsFrom (phasesAfter .msg)
  | .threadMeta =>
    r.replay[pos.i]?.toList.flatMap ReplayMsg.metaCalls ++
      ((r.replay.drop (pos.i + 1)).flatMap fun m => m.broadcast :: m.metaCalls) ++ r.callsFrom (phasesAfter .msg)
  | .done => [r.backfillDone]
  | .finished => []
  | phase => ((r.rows phase).drop pos.i).filterMap id ++ r.callsFrom (phasesAfter phase)

theorem remaining_start (r : Replay) : r.remaining .start = r.calls := rfl

def Agrees (r : Replay) (pos : BfPos) : Turn → Prop
  | .goto next => r.remaining pos = r.remaining next
  | .emit call next => r.remaining pos = call :: r.remaining next
  | .stop => r.remaining pos = []

theorem rowTurn_agrees (r : Replay) {phase next : BfPhase} {i : Nat}
    (here : ∀ i, r.remaining ⟨phase, i⟩ = ((r.rows phase).drop i).filterMap id ++ r.callsFrom (phasesAfter phase))
    (there : r.remaining ⟨next, 0⟩ = r.callsFrom (phasesAfter phase)) :
    r.Agrees ⟨phase, i⟩ (r.rowTurn phase next i) := by
  unfold rowTurn
  split
  · rename_i found
    have ended := List.getElem?_eq_none_iff.mp found
    simp only [Agrees, here, there, drop_eq_nil_of_le ended, filterMap_nil, nil_append]
  · rename_i found
    obtain ⟨within, at_i⟩ := List.getElem?_eq_some_iff.mp found
    simp only [Agrees, here]
    rw [drop_eq_getElem_cons within, at_i]
    rfl
  · rename_i found
    obtain ⟨within, at_i⟩ := List.getElem?_eq_some_iff.mp found
    simp only [Agrees, here]
    rw [drop_eq_getElem_cons within, at_i]
    rfl

theorem turn_agrees (r : Replay) (pos : BfPos) : r.Agrees pos (r.turn pos) := by
  obtain ⟨phase, i⟩ := pos
  cases phase with
  | msg =>
    simp only [turn]
    split
    · rename_i found
      have ended := List.getElem?_eq_none_iff.mp found
      simp only [Agrees, remaining, drop_eq_nil_of_le ended, flatMap_nil, nil_append]
      rfl
    rename_i m found
    obtain ⟨within, at_i⟩ := List.getElem?_eq_some_iff.mp found
    simp only [Agrees, remaining, found]
    rw [drop_eq_getElem_cons within, at_i]
    simp
  | threadMeta =>
    simp only [turn]
    split
    · rename_i found
      have ended := getElem?_eq_none_iff.mp found
      have past : r.replay.length ≤ i + 1 := by omega
      simp only [Agrees, remaining, found, drop_eq_nil_of_le past]
      rfl
    rename_i m found
    split
    · rename_i none
      simp [Agrees, remaining, found, ReplayMsg.metaCalls, none]
    · rename_i some
      simp [Agrees, remaining, found, ReplayMsg.metaCalls, some]
  | done => rfl
  | finished => rfl
  | pin | saved | collapsed | react | unfurl | fwd | act | poll =>
    exact r.rowTurn_agrees (fun _ => rfl) rfl

end Replay

def Encodes (call : Put) : Prop := (encodeFresh call).1 = .ok ()

theorem Encodes.bytes {call : Put} (encodes : Encodes call) :
    WholeFrame call.bytes ∧ (encodeFresh call).2.data = call.bytes := by
  have ran : call.run (WBuf.init maxFrameSize) = (.ok (), (encodeFresh call).2) := Prod.ext encodes rfl
  obtain ⟨whole, data⟩ := run_ok ran
  exact ⟨whole, by simpa [WBuf.init] using data⟩

variable {r : Replay}

theorem backfillNext_goto {pos next : BfPos} (moved : r.turn pos = .goto next) :
    backfillNext r pos = backfillNext r next := by
  rw [backfillNext]
  split <;> simp_all

theorem backfillNext_emit {pos next : BfPos} {call : Put} (moved : r.turn pos = .emit call next)
    (encodes : Encodes call) : backfillNext r pos = (next, call.bytes) := by
  rw [backfillNext]
  split
  · simp_all
  · rename_i call' next' moved'
    obtain ⟨rfl, rfl⟩ : call = call' ∧ next = next' := by simpa [moved] using moved'
    rw [if_neg (by rw [encodes]; simp [Except.isOk, Except.toBool]), encodes.bytes.2]
  · simp_all

theorem backfillNext_stop {pos : BfPos} (moved : r.turn pos = .stop) : backfillNext r pos = (pos, []) := by
  rw [backfillNext]
  split <;> simp_all

/-- What `backfill_next` returns, by the frames to come. -/
def NextFrame (r : Replay) (result : BfPos × List UInt8) : List Put → Prop
  | [] => result.2 = []
  | call :: rest => result.2 = call.bytes ∧ r.remaining result.1 = rest

theorem backfillNext_spec (r : Replay) (pos : BfPos) (encodes : ∀ call ∈ r.remaining pos, Encodes call) :
    NextFrame r (backfillNext r pos) (r.remaining pos) := by
  have agrees := r.turn_agrees pos
  cases moved : r.turn pos with
  | goto next =>
    rw [moved] at agrees
    have same : r.remaining pos = r.remaining next := agrees
    rw [backfillNext_goto moved, same]
    exact backfillNext_spec r next (same ▸ encodes)
  | emit call next =>
    rw [moved] at agrees
    have same : r.remaining pos = call :: r.remaining next := agrees
    rw [same] at encodes ⊢
    rw [backfillNext_emit moved (encodes call mem_cons_self)]
    exact ⟨rfl, rfl⟩
  | stop =>
    rw [moved] at agrees
    rw [backfillNext_stop moved, show r.remaining pos = [] from agrees]
    rfl
termination_by (pos.phase.rank, r.size pos)
decreasing_by exact r.turn_nearer (.inl moved)

end OpenChime.Daemon
