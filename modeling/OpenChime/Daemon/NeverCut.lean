import OpenChime.Daemon.Outgoing
import OpenChime.Lib.Interleave
import OpenChime.Lib.Run

/-! Whole frames on the wire. The deferred queue is drained by room, so a deferred frame
may be partly out; `Accounts` says which, and that nothing is written over the cut. It
holds as long as no backfill is accepted while a frame is partly out; one that is gets
its replay frames written into the middle of that frame. -/

set_option autoImplicit false

namespace OpenChime.Daemon

open Wire Framing List Conn Option

/-- The frames given to `out_append`, in order. -/
def appended (events : List OutEvent) : List (List UInt8) :=
  events.filterMap fun | .append frame => some frame | _ => none

def replayFrames (r : Replay) : List (List UInt8) := r.calls.map Put.bytes

def accepted (events : List OutEvent) : List (List (List UInt8)) :=
  events.filterMap fun | .accept r => some (replayFrames r) | _ => none

/-- The bytes handed over are a front of whole frames: those given, in order, and those
of the replays, each replay in one piece among the replay frames. -/
def NeverCut (events : List OutEvent) (c : Conn) : Prop :=
  ∃ (order : List (List (List UInt8))) (frames : List (List UInt8)), order.Perm (accepted events) ∧
    Interleaves (appended events) order.flatten frames ∧ c.handed <+: frames.flatten

/-- The replay frames that `backfill_pump` has yet to write. -/
def callsAhead : List Replay → BfPos → List Put
  | [], _ => []
  | r :: waiting, pos => r.remaining pos ++ waiting.flatMap Replay.calls

/-- `sent` are the frames wholly out, `waiting` the deferred ones, and `cut` the bytes of
the first of these that are out already. -/
structure Accounts (given replayed : List (List UInt8)) (c : Conn) (sent waiting : List (List UInt8))
    (cut : List UInt8) : Prop where
  out : c.handed ++ c.out = sent.flatten ++ cut
  deferred : cut ++ c.dq = waiting.flatten
  held : Held waiting cut
  waitingWhole : ∀ frame ∈ waiting, WholeFrame frame
  sentWhole : ∀ frame ∈ sent, WholeFrame frame
  merged : ∃ givenOut replayedOut, given = givenOut ++ waiting ∧
    replayed = replayedOut ++ (callsAhead c.bf c.pos).map Put.bytes ∧ Interleaves givenOut replayedOut sent
  encodes : ∀ call ∈ callsAhead c.bf c.pos, Encodes call
  replaying : c.bf ≠ [] → cut = []
  rested : c.bf = [] → c.pos = .start

def Balanced (given replayed : List (List UInt8)) (c : Conn) : Prop :=
  ∃ sent waiting cut, Accounts given replayed c sent waiting cut

namespace Accounts

variable {given replayed sent waiting : List (List UInt8)} {c : Conn} {cut : List UInt8}
  (acc : Accounts given replayed c sent waiting cut)

include acc

theorem settled (empty : c.dq = []) : waiting = [] ∧ cut = [] := by
  have ended : cut = waiting.flatten := by simpa [empty] using acc.deferred
  exact acc.held.done (fun frame member => frameFormat.nonempty (acc.waitingWhole frame member)) ended

theorem append (empty : c.dq = []) {frame : List UInt8} (whole : WholeFrame frame) :
    Accounts (given ++ [frame]) replayed { c with out := c.out ++ frame } (sent ++ [frame]) [] [] := by
  obtain ⟨rfl, rfl⟩ := acc.settled empty
  obtain ⟨givenOut, replayedOut, givenSplit, replayedSplit, merged⟩ := acc.merged
  refine { acc with out := ?_, deferred := ?_, sentWhole := ?_, merged := ?_, replaying := fun _ => rfl }
  · rw [← append_assoc, acc.out]
    simp
  · simpa using empty
  · intro other member
    rcases mem_append.mp member with earlier | last
    · exact acc.sentWhole other earlier
    · exact mem_singleton.mp last ▸ whole
  · exact ⟨givenOut ++ [frame], replayedOut, by simp [givenSplit], replayedSplit, merged.fromLeft frame⟩

theorem deferFrame {frame : List UInt8} (whole : WholeFrame frame) :
    Accounts (given ++ [frame]) replayed { c with dq := c.dq ++ frame } sent (waiting ++ [frame])
      cut := by
  obtain ⟨givenOut, replayedOut, givenSplit, replayedSplit, merged⟩ := acc.merged
  refine { acc with deferred := ?_, held := acc.held.append [frame], waitingWhole := ?_, merged := ?_ }
  · rw [← append_assoc, acc.deferred]
    simp
  · intro other member
    rcases mem_append.mp member with earlier | last
    · exact acc.waitingWhole other earlier
    · exact mem_singleton.mp last ▸ whole
  · exact ⟨givenOut, replayedOut, by simp [givenSplit], replayedSplit, merged⟩

variable {r : Replay} {queued : List Replay}

theorem enqueue (whole : cut = []) (encodes : ∀ call ∈ r.calls, Encodes call) :
    Accounts given (replayed ++ replayFrames r) { c with bf := c.bf ++ [r] } sent waiting cut := by
  obtain ⟨givenOut, replayedOut, givenSplit, replayedSplit, merged⟩ := acc.merged
  have calls : callsAhead (c.bf ++ [r]) c.pos = callsAhead c.bf c.pos ++ r.calls := by
    cases queued : c.bf with
    | nil =>
      rw [acc.rested queued]
      simp [callsAhead, Replay.remaining_start]
    | cons head rest => simp [callsAhead]
  refine { acc with merged := ?_, encodes := ?_, replaying := fun _ => whole, rested := by simp }
  · exact ⟨givenOut, replayedOut, givenSplit, by simp [calls, replayedSplit, replayFrames], merged⟩
  · intro call member
    rcases mem_append.mp (calls ▸ member) with earlier | new
    · exact acc.encodes call earlier
    · exact encodes call new

variable (head : c.bf = r :: queued)

include head

theorem next : NextFrame r (backfillNext r c.pos) (r.remaining c.pos) := by
  refine backfillNext_spec r c.pos fun call member => acc.encodes call ?_
  rw [head]
  exact mem_append_left _ member

theorem emit {call : Put} {rest : List Put}
    (next : r.remaining c.pos = call :: rest) {pos : BfPos} (moved : r.remaining pos = rest) :
    Accounts given replayed { c with pos, out := c.out ++ call.bytes } (sent ++ [call.bytes]) waiting
      cut := by
  obtain ⟨givenOut, replayedOut, givenSplit, replayedSplit, merged⟩ := acc.merged
  have whole : cut = [] := acc.replaying (by simp [head])
  have calls : callsAhead c.bf c.pos = call :: callsAhead c.bf pos := by
    simp [head, callsAhead, next, moved]
  have encodes := acc.encodes
  rw [calls] at encodes
  refine { acc with
      out := ?_, sentWhole := ?_, merged := ?_
      encodes := fun other member => encodes other (mem_cons_of_mem _ member)
      rested := by simp [head] }
  · rw [← append_assoc, acc.out]
    simp [whole]
  · intro other member
    rcases mem_append.mp member with earlier | last
    · exact acc.sentWhole other earlier
    · exact mem_singleton.mp last ▸ (encodes call mem_cons_self).bytes.1
  · exact ⟨givenOut, replayedOut ++ [call.bytes], givenSplit, by simp [replayedSplit, calls], merged.fromRight _⟩

theorem pop (ended : r.remaining c.pos = []) :
    Accounts given replayed { c with bf := queued, pos := .start } sent waiting cut := by
  obtain ⟨givenOut, replayedOut, givenSplit, replayedSplit, merged⟩ := acc.merged
  have calls : callsAhead c.bf c.pos = callsAhead queued .start := by
    cases queued with
    | nil => simp [head, callsAhead, ended]
    | cons second more => simp [head, callsAhead, ended, Replay.remaining_start]
  refine { acc with
      merged := ⟨givenOut, replayedOut, givenSplit, calls ▸ replayedSplit, merged⟩
      encodes := fun call member => acc.encodes call (calls ▸ member)
      replaying := fun _ => acc.replaying (by simp [head]), rested := fun _ => rfl }

omit head

/-- Any number of deferred bytes goes out: the frames they complete, and a front of the
next. -/
theorem drain (idle : c.bf = []) (n : Nat) :
    Balanced given replayed { c with out := c.out ++ c.dq.take n, dq := c.dq.drop n } := by
  obtain ⟨givenOut, replayedOut, givenSplit, replayedSplit, merged⟩ := acc.merged
  have split : (cut ++ c.dq.take n) ++ c.dq.drop n = waiting.flatten := by
    rw [append_assoc, take_append_drop, acc.deferred]
  obtain ⟨taken, left, rest, rfl, -, behind, held⟩ := frameFormat.drains_chunk acc.waitingWhole split
  have bytes : cut ++ c.dq.take n = taken.flatten ++ rest := by
    rw [flatten_append, ← behind, ← append_assoc] at split
    exact append_cancel_right split
  refine ⟨sent ++ taken, left, rest,
    { acc with out := ?_, deferred := behind, held, waitingWhole := ?_, sentWhole := ?_, merged := ?_
               replaying := fun busy => absurd idle busy }⟩
  · rw [← append_assoc, acc.out, append_assoc, bytes]
    simp
  · exact fun frame member => acc.waitingWhole frame (mem_append_right _ member)
  · intro frame member
    rcases mem_append.mp member with earlier | drained
    · exact acc.sentWhole frame earlier
    · exact acc.waitingWhole frame (mem_append_left _ drained)
  · exact ⟨givenOut ++ taken, replayedOut, by simp [givenSplit], replayedSplit, merged.append_left taken⟩

end Accounts

namespace Conn

variable {given replayed : List (List UInt8)} {c after : Conn}

theorem outAppend_pumping {buf : List UInt8} (pumping : c.bfPumping = true)
    (ok : c.outAppend buf = some after) : after = { c with out := c.out ++ buf } := by
  unfold outAppend at ok
  rw [if_neg (by simp [pumping])] at ok
  split at ok
  · cases ok
  · exact (some.inj ok).symm

theorem outAppend_cases {buf : List UInt8} (resting : c.bfPumping = false) (ok : c.outAppend buf = some after) :
    (c.dq = [] ∧ after = { c with out := c.out ++ buf }) ∨ after = { c with dq := c.dq ++ buf } := by
  unfold outAppend deferAppend at ok
  split at ok
  · split at ok
    · cases ok
    · exact .inr (some.inj ok).symm
  next direct =>
  split at ok
  · cases ok
  have idle : c.bf = [] ∧ c.dq = [] := by
    by_contra busy
    exact direct ⟨by grind, resting⟩
  exact .inl ⟨idle.2, (some.inj ok).symm⟩

section Pumping

variable {r : Replay} {queued : List Replay} {left : Nat}

theorem pumpFrames_idle (idle : c.bf = []) : pumpFrames left c = some (c, true) := by
  unfold pumpFrames
  split
  · rfl
  · rfl
  · next head => rw [idle] at head; cases head

theorem pumpFrames_spent : pumpFrames 0 c = some (c, true) := by
  unfold pumpFrames
  split
  · rfl
  · rfl
  · contradiction

theorem pumpFrames_full (head : c.bf = r :: queued) (full : c.pendingOut ≥ bfSoft) :
    pumpFrames (left + 1) c = some (c, false) := by
  unfold pumpFrames
  split
  · next idle => rw [idle] at head; cases head
  · contradiction
  · rw [if_pos full]

theorem pumpFrames_room (head : c.bf = r :: queued) (room : ¬ c.pendingOut ≥ bfSoft) : pumpFrames (left + 1) c =
      if (backfillNext r c.pos).2 = [] then
        pumpFrames (left + 1) { c with bf := queued, pos := .start }
      else (outAppend { c with pos := (backfillNext r c.pos).1 } (backfillNext r c.pos).2).bind (pumpFrames left) := by
  conv_lhs => unfold pumpFrames
  split
  · next idle => rw [idle] at head; cases head
  · contradiction
  next head' taken =>
  rw [head] at head'
  cases head'
  cases taken
  rw [if_neg room]
  rfl

theorem pumpFrames_balanced {ended : Bool} (balanced : Balanced given replayed c) (pumping : c.bfPumping = true)
    (ok : pumpFrames left c = some (after, ended)) : Balanced given replayed after ∧ after.bfPumping = true := by
  induction left, c using pumpFrames.induct with
  | case1 left c idle =>
    rw [pumpFrames_idle idle] at ok
    cases ok
    exact ⟨balanced, pumping⟩
  | case2 c r queued head =>
    rw [pumpFrames_spent] at ok
    cases ok
    exact ⟨balanced, pumping⟩
  | case3 c r queued left head full =>
    rw [pumpFrames_full head full] at ok
    cases ok
    exact ⟨balanced, pumping⟩
  | case4 c r queued left head room pos ended ih =>
    change backfillNext r c.pos = (pos, []) at ended
    obtain ⟨sent, waiting, cut, acc⟩ := balanced
    rw [pumpFrames_room head room, ended] at ok
    have written := acc.next head
    rw [ended] at written
    refine ih ⟨sent, waiting, cut, acc.pop head ?_⟩ pumping ok
    cases remaining : r.remaining c.pos with
    | nil => rfl
    | cons call rest =>
      rw [remaining] at written
      have member : call ∈ callsAhead c.bf c.pos := by simp [head, callsAhead, remaining]
      exact absurd written.1.symm (frameFormat.nonempty (acc.encodes call member).bytes.1)
  | case5 c r queued left head room pos frame found nonempty ih =>
    change backfillNext r c.pos = (pos, frame) at found
    obtain ⟨sent, waiting, cut, acc⟩ := balanced
    rw [pumpFrames_room head room, found, if_neg nonempty] at ok
    obtain ⟨appended, put, rest⟩ := bind_eq_some_iff.mp ok
    have written := acc.next head
    rw [found] at written
    cases remaining : r.remaining c.pos with
    | nil =>
      rw [remaining] at written
      exact absurd written nonempty
    | cons call more =>
      rw [remaining] at written
      obtain ⟨rfl, moved⟩ := written
      obtain rfl := outAppend_pumping (c := { c with pos }) pumping put
      exact ih _ ⟨_, _, _, acc.emit head remaining moved⟩ pumping rest

end Pumping

variable (balanced : Balanced given replayed c)

include balanced

theorem drainDeferred_balanced (pumping : c.bfPumping = true) (ok : c.drainDeferred = some after) :
    Balanced given replayed after := by
  obtain ⟨sent, waiting, cut, acc⟩ := balanced
  unfold drainDeferred at ok
  split at ok
  · next idle =>
    extract_lets room n at ok
    split at ok
    · cases ok
      exact ⟨sent, waiting, cut, acc⟩
    obtain ⟨appended, put, rest⟩ := bind_eq_some_iff.mp ok
    obtain rfl := outAppend_pumping pumping put
    cases rest
    exact acc.drain idle.1 _
  · cases ok
    exact ⟨sent, waiting, cut, acc⟩

theorem balanced_pumping (flag : Bool) : Balanced given replayed { c with bfPumping := flag } := by
  obtain ⟨sent, waiting, cut, acc⟩ := balanced
  exact ⟨sent, waiting, cut, { acc with }⟩

theorem backfillPump_balanced (resting : c.bfPumping = false) (ok : c.backfillPump = some after) :
    Balanced given replayed after ∧ after.bfPumping = false := by
  unfold backfillPump at ok
  split at ok
  · cases ok
    exact ⟨balanced, resting⟩
  obtain ⟨⟨pumped, ended⟩, slice, rest⟩ := bind_eq_some_iff.mp ok
  obtain ⟨pumpedBalanced, pumping⟩ := pumpFrames_balanced (balanced_pumping balanced true) rfl slice
  cases ended with
  | true =>
    obtain ⟨drained, drain, done⟩ := bind_eq_some_iff.mp rest
    cases done
    exact ⟨balanced_pumping (drainDeferred_balanced pumpedBalanced pumping drain) false, rfl⟩
  | false =>
    cases rest
    exact ⟨balanced_pumping pumpedBalanced false, rfl⟩

theorem flushOut_balanced : Balanced given replayed c.flushOut := by
  obtain ⟨sent, waiting, cut, acc⟩ := balanced
  exact ⟨sent, waiting, cut, { acc with out := by simpa [flushOut] using acc.out }⟩

end Conn

def AtBoundary (c : Conn) : Prop :=
  ∃ frames : List (List UInt8), (∀ frame ∈ frames, WholeFrame frame) ∧ c.handed ++ c.out = frames.flatten

theorem Accounts.cut_eq_nil {given replayed sent waiting : List (List UInt8)} {c : Conn} {cut : List UInt8}
    (acc : Accounts given replayed c sent waiting cut) (boundary : AtBoundary c) : cut = [] := by
  obtain ⟨frames, framesWhole, same⟩ := boundary
  obtain ⟨more, rfl, tail⟩ := frameFormat.flatten_split acc.sentWhole framesWhole (acc.out.symm.trans same)
  exact frameFormat.held_whole acc.waitingWhole
    (fun frame member => framesWhole frame (mem_append_right _ member)) acc.held tail

/-- A backfill is accepted only when no frame is partly out. -/
def OutEvent.Clear (c : Conn) : OutEvent → Prop
  | .accept _ => AtBoundary c
  | _ => True

/-- A result with nothing to replay: BACKFILL_DONE alone. -/
def quiet : Replay := ⟨[], [], [], [], [], [], 0, 0⟩

def doneBytes : List UInt8 := quiet.backfillDone.bytes

def quietEnd : BfPos := (backfillNext quiet .start).1

theorem quiet_encodes : ∀ call ∈ quiet.calls, Encodes call := by
  intro call member
  obtain rfl : call = quiet.backfillDone := mem_singleton.mp member
  rfl

theorem backfillNext_quiet :
    backfillNext quiet .start = (quietEnd, doneBytes) ∧ (backfillNext quiet quietEnd).2 = [] := by
  have first : NextFrame quiet (backfillNext quiet .start) [quiet.backfillDone] :=
    backfillNext_spec quiet .start quiet_encodes
  have ended : quiet.remaining quietEnd = [] := first.2
  have second := backfillNext_spec quiet quietEnd (by simp [ended])
  rw [ended] at second
  exact ⟨Prod.ext rfl first.1, second⟩

namespace Conn

variable {c : Conn}

theorem backfillPump_full {pumped : Conn} (busy : ¬ (c.bf = [] ∧ c.dq = []))
    (slice : pumpFrames bfSlice { c with bfPumping := true } = some (pumped, false)) :
    c.backfillPump = some { pumped with bfPumping := false } := by
  rw [backfillPump, if_neg busy, slice]
  rfl

theorem backfillPump_ended {pumped drained : Conn} (busy : ¬ (c.bf = [] ∧ c.dq = []))
    (slice : pumpFrames bfSlice { c with bfPumping := true } = some (pumped, true))
    (drain : pumped.drainDeferred = some drained) : c.backfillPump = some { drained with bfPumping := false } := by
  rw [backfillPump, if_neg busy, slice]
  change (pumped.drainDeferred.bind fun c => some { c with bfPumping := false }) = _
  rw [drain]
  rfl

theorem drainDeferred_room {n : Nat} (idle : c.bf = []) (pumping : c.bfPumping = true)
    (count : min c.dq.length (bfSoft - c.pendingOut) = n) (positive : 0 < n)
    (fits : (UInt64.ofNat (c.out.length + n) + (c.sentTotal - c.writtenTotal)).toNat ≤ maxOutBuffer) :
    c.drainDeferred = some { c with out := c.out ++ c.dq.take n, dq := c.dq.drop n } := by
  have within : n ≤ c.dq.length := count ▸ Nat.min_le_left _ _
  have queued : c.dq ≠ [] := ne_nil_of_length_pos (positive.trans_le within)
  have taken : (if c.dq.length < if c.pendingOut < bfSoft then bfSoft - c.pendingOut else 0 then
      c.dq.length else if c.pendingOut < bfSoft then bfSoft - c.pendingOut else 0) = n := by
    grind
  unfold drainDeferred
  dsimp only
  rw [if_pos ⟨idle, queued⟩, taken, if_neg (Nat.ne_of_gt positive), outAppend,
    if_neg (by simp [pumping]), length_take_of_le within, if_neg (not_lt.mpr fits)]
  rfl

theorem pumpFrames_quiet (left : Nat) (head : c.bf = [quiet]) (fresh : c.pos = .start)
    (pumping : c.bfPumping = true) (room : ¬ c.pendingOut ≥ bfSoft)
    (fits : (UInt64.ofNat (c.out.length + 17) + (c.sentTotal - c.writtenTotal)).toNat ≤ maxOutBuffer) :
    pumpFrames (left + 1) c = pumpFrames left { c with pos := quietEnd, out := c.out ++ doneBytes } := by
  have size : doneBytes.length = 17 := by decide
  rw [pumpFrames_room head room, fresh, backfillNext_quiet.1, if_neg (by decide)]
  unfold outAppend
  rw [if_neg (by simp [pumping]), size, if_neg (not_lt.mpr fits)]
  rfl

theorem pumpFrames_quiet_over (left : Nat) (head : c.bf = [quiet]) (ended : c.pos = quietEnd)
    (room : ¬ c.pendingOut ≥ bfSoft) : pumpFrames (left + 1) c = some ({ c with bf := [], pos := .start }, true) := by
  rw [pumpFrames_room head room, ended, if_pos backfillNext_quiet.2]
  exact pumpFrames_idle rfl

end Conn

def tick : List UInt8 := [0, 0, 0, 4, 0, 33, 0, 7]

theorem tick_whole : WholeFrame tick := ⟨by decide, by decide, by decide⟩

def staged (out : List UInt8) : Conn := { init with out }

def calm : Conn := { init with sentTotal := 25, handed := tick ++ doneBytes }

theorem calm_accept : (staged tick).backfillAccept quiet = some calm := by
  have pump := backfillPump_ended (c := { staged tick with bf := [quiet] }) (by simp)
    ((pumpFrames_quiet 63 rfl rfl rfl (by decide) (by decide)).trans (pumpFrames_quiet_over 62 rfl rfl (by decide)))
    rfl
  exact (congrArg (bind · _) pump).trans rfl

/-- Between events: the accounts balance, and no pump is under way. -/
def Settled (events : List OutEvent) (c : Conn) : Prop :=
  Balanced (appended events) (accepted events).flatten c ∧ c.bfPumping = false

variable {events : List OutEvent}

theorem Settled.step {event : OutEvent} {c after : Conn} (settled : Settled events c) (given : event.Given c)
    (clear : event.Clear c) (taken : c.step event = some after) : Settled (events ++ [event]) after := by
  unfold Settled at settled ⊢
  obtain ⟨balanced, resting⟩ := settled
  cases event with
  | append frame =>
    have frames : appended (events ++ [.append frame]) = appended events ++ [frame] := by
      simp [appended]
    have replays : accepted (events ++ [.append frame]) = accepted events := by simp [accepted]
    rw [frames, replays]
    obtain ⟨sent, waiting, cut, acc⟩ := balanced
    rcases outAppend_cases resting taken with ⟨empty, rfl⟩ | rfl
    · exact ⟨⟨_, _, _, acc.append empty given⟩, resting⟩
    · exact ⟨⟨_, _, _, acc.deferFrame given⟩, resting⟩
  | accept r =>
    have frames : appended (events ++ [.accept r]) = appended events := by simp [appended]
    have replays : (accepted (events ++ [.accept r])).flatten = (accepted events).flatten ++ replayFrames r := by
      simp [accepted]
    rw [frames, replays]
    obtain ⟨sent, waiting, cut, acc⟩ := balanced
    change c.backfillAccept r = some after at taken
    unfold backfillAccept at taken
    split at taken
    · cases taken
    obtain ⟨pumped, pump, flushed⟩ := bind_eq_some_iff.mp taken
    cases flushed
    obtain ⟨pumpedBalanced, pumpedResting⟩ := backfillPump_balanced
      ⟨sent, waiting, cut, acc.enqueue (acc.cut_eq_nil clear) given⟩ resting pump
    exact ⟨flushOut_balanced pumpedBalanced, pumpedResting⟩
  | written count =>
    have frames : appended (events ++ [.written count]) = appended events := by simp [appended]
    have replays : accepted (events ++ [.written count]) = accepted events := by simp [accepted]
    rw [frames, replays]
    change c.written count = some after at taken
    unfold written at taken
    split at taken
    · obtain ⟨sent, waiting, cut, acc⟩ := balanced
      refine backfillPump_balanced (c := { c with writtenTotal := count }) ?_ resting taken
      exact ⟨sent, waiting, cut, { acc with }⟩
    · exact backfillPump_balanced balanced resting taken
  | flush =>
    have frames : appended (events ++ [.flush]) = appended events := by simp [appended]
    have replays : accepted (events ++ [.flush]) = accepted events := by simp [accepted]
    rw [frames, replays]
    cases taken
    exact ⟨flushOut_balanced balanced, resting⟩

theorem Balanced.init : Balanced [] [] init := ⟨[], [], [],
    { out := rfl, deferred := rfl, held := .clear [], waitingWhole := by simp, sentWhole := by simp
      merged := ⟨[], [], rfl, rfl, .nil⟩, encodes := by simp [Conn.init, callsAhead]
      replaying := fun _ => rfl, rested := fun _ => rfl }⟩

/-- What is out, then what the replays have yet to write, then what waits behind them. -/
theorem Balanced.neverCut {c : Conn}
    (balanced : Balanced (appended events) (accepted events).flatten c) : NeverCut events c := by
  obtain ⟨sent, waiting, cut, acc⟩ := balanced
  obtain ⟨givenOut, replayedOut, givenSplit, replayedSplit, merged⟩ := acc.merged
  refine ⟨accepted events, sent ++ (callsAhead c.bf c.pos).map Put.bytes ++ waiting, .refl _, ?_, ?_⟩
  · rw [givenSplit, replayedSplit]
    exact (merged.append_right _).append_left _
  · have front : c.handed <+: sent.flatten ++ cut := ⟨c.out, acc.out⟩
    refine front.trans ?_
    rw [append_assoc, flatten_append, prefix_append_right_inj]
    by_cases replaying : c.bf = []
    · simp only [replaying, callsAhead, map_nil, nil_append]
      exact ⟨c.dq, acc.deferred⟩
    · rw [acc.replaying replaying]
      exact nil_prefix

theorem never_cut {events : List OutEvent} {c : Conn}
    (run : Machine.Run step (fun c event => event.Given c ∧ event.Clear c) init events c) :
    NeverCut events c := by
  have settled : Settled events c := run.invariant Settled ⟨Balanced.init, rfl⟩
    fun _ _ _ _ held permitted taken => held.step permitted.1 permitted.2 taken
  exact settled.1.neverCut

theorem never_cut_calm : NeverCut [.append tick, .accept quiet] calm := by
  have boundary : AtBoundary (staged tick) := ⟨[tick], fun _ member => mem_singleton.mp member ▸ tick_whole, rfl⟩
  exact never_cut (.snoc (.snoc .nil ⟨tick_whole, trivial⟩ rfl) ⟨quiet_encodes, boundary⟩ calm_accept)

section Torn

variable (filling : List UInt8)

def torn1 : Conn :=
  { init with
    bf := [quiet], pos := quietEnd, sentTotal := 262160, handed := filling ++ doneBytes }

def torn2 : Conn := { torn1 filling with dq := tick }

def torn3 : Conn :=
  { init with
    out := [0], dq := tick.tail, sentTotal := 262160, writtenTotal := 17
    handed := filling ++ doneBytes }

def torn4 : Conn :=
  { init with
    bf := [quiet], dq := tick.tail, sentTotal := 262161, writtenTotal := 17
    handed := filling ++ doneBytes ++ [0] }

def torn5 : Conn :=
  { init with
    out := doneBytes ++ tick.tail, sentTotal := 262161, writtenTotal := 262161
    handed := filling ++ doneBytes ++ [0] }

variable {filling}

theorem torn_accept (size : filling.length = 262143) :
    (staged filling).backfillAccept quiet = some (torn1 filling) := by
  have done : doneBytes.length = 17 := by decide
  have slice : pumpFrames bfSlice { staged filling with bf := [quiet], bfPumping := true } = some ({ staged filling with
        bf := [quiet], pos := quietEnd, out := filling ++ doneBytes, bfPumping := true }, false) := by
    refine (pumpFrames_quiet 63 rfl rfl rfl ?_ ?_).trans (pumpFrames_full rfl ?_)
    · simp only [pendingOut, staged, size]
      decide
    · simp only [staged, size]
      decide
    · simp only [pendingOut, staged, length_append, size, done]
      decide
  have pump := backfillPump_full (c := { staged filling with bf := [quiet] }) (by simp) slice
  refine (congrArg (Option.bind · _) pump).trans ?_
  simp only [Option.bind_some, flushOut, staged, torn1, init, length_append, size, done, nil_append]
  rfl

theorem torn_defer : (torn1 filling).outAppend tick = some (torn2 filling) := by
  rfl

theorem torn_written : (torn2 filling).written 17 = some (torn3 filling) := by
  refine backfillPump_ended (c := { torn2 filling with writtenTotal := 17 })
    (by simp [torn2, torn1]) (pumpFrames_quiet_over 63 rfl rfl ?_)
    (drainDeferred_room (n := 1) rfl rfl ?_ (by decide) ?_)
  · simp only [pendingOut, torn2, torn1, init]
    decide
  · simp only [pendingOut, torn2, torn1, init]
    decide
  · simp only [torn2, torn1, init]
    decide

theorem torn_accept_again : (torn3 filling).backfillAccept quiet = some (torn4 filling) := by
  have full : { torn3 filling with bf := [quiet], bfPumping := true }.pendingOut ≥ bfSoft := by
    simp only [pendingOut, torn3, init]
    decide
  have pump := backfillPump_full (c := { torn3 filling with bf := [quiet] }) (by simp) (pumpFrames_full rfl full)
  exact (congrArg (bind · _) pump).trans rfl

theorem torn_written_again : (torn4 filling).written 262161 = some (torn5 filling) := by
  refine backfillPump_ended (c := { torn4 filling with writtenTotal := 262161 }) (by simp [torn4])
    ((pumpFrames_quiet 63 rfl rfl rfl ?_ ?_).trans (pumpFrames_quiet_over 62 rfl rfl ?_))
    (drainDeferred_room (n := 7) rfl rfl ?_ (by decide) ?_)
  · simp only [pendingOut, torn4, init]
    decide
  · simp only [torn4, init]
    decide
  · simp only [pendingOut, torn4, init]
    decide
  · simp only [pendingOut, torn4, init]
    decide
  · simp only [torn4, init]
    decide

end Torn

def filler (size : Nat) : List UInt8 := BigEndian.encode 4 (size - 4) ++ List.replicate (size - 4) 0

theorem length_filler {size : Nat} (header : headerSize ≤ size) : (filler size).length = size := by
  unfold headerSize at header
  rw [filler, length_append, BigEndian.length_encode, length_replicate]
  omega

theorem filler_whole {size : Nat} (header : headerSize ≤ size) (small : size ≤ maxFrameSize) :
    WholeFrame (filler size) := by
  have length := length_filler header
  unfold headerSize at header
  unfold maxFrameSize at small
  refine ⟨by rw [length]; exact header, by rw [length]; exact small, ?_⟩
  rw [length, filler, lengthField_encode _ _ (by omega)]
  omega

theorem length_map_filler {sizes : List Nat} (header : ∀ size ∈ sizes, headerSize ≤ size) :
    (sizes.map filler).flatten.length = sizes.sum := by
  induction sizes with
  | nil => rfl
  | cons size sizes ih =>
    obtain ⟨first, others⟩ := forall_mem_cons.mp header
    rw [map_cons, flatten_cons, length_append, length_filler first, ih others, sum_cons]

def fillerSizes : List Nat := [65536, 65536, 65536, 65535]

def fillers : List (List UInt8) := fillerSizes.map filler

theorem fillers_whole : ∀ frame ∈ fillers, WholeFrame frame := by
  intro frame member
  obtain ⟨size, listed, rfl⟩ := mem_map.mp member
  have bounds : ∀ size ∈ fillerSizes, headerSize ≤ size ∧ size ≤ maxFrameSize := by decide
  exact filler_whole (bounds size listed).1 (bounds size listed).2

theorem length_fillers : fillers.flatten.length = 262143 := by
  rw [fillers, length_map_filler (by decide)]
  decide

theorem run_append (frames : List (List UInt8)) (whole : ∀ frame ∈ frames, WholeFrame frame)
    (fits : frames.flatten.length ≤ maxOutBuffer) :
    Machine.Run step (fun c event => event.Given c) init (frames.map .append) (staged frames.flatten) := by
  induction frames using List.reverseRecOn with
  | nil => exact .nil
  | append_singleton frames frame ih =>
    rw [flatten_append, length_append, flatten_singleton] at fits
    have small : frames.flatten.length + frame.length < UInt64.size := fits.trans_lt (by decide)
    have before := ih (fun other member => whole other (mem_append_left _ member))
      ((Nat.le_add_right _ _).trans fits)
    rw [map_append]
    refine .snoc before (whole frame (by simp)) ?_
    have room : ¬ (UInt64.ofNat ((staged frames.flatten).out.length + frame.length) +
        ((staged frames.flatten).sentTotal - (staged frames.flatten).writtenTotal)).toNat >
          maxOutBuffer := by
      have nothing : (staged frames.flatten).sentTotal - (staged frames.flatten).writtenTotal = 0 := UInt64.sub_self _
      rw [nothing, UInt64.add_zero]
      change ¬ (UInt64.ofNat (frames.flatten.length + frame.length)).toNat > maxOutBuffer
      rw [UInt64.toNat_ofNat_of_lt' small]
      exact not_lt.mpr fits
    change (staged frames.flatten).outAppend frame = _
    rw [outAppend, if_neg (by simp [staged, init]), if_neg room]
    simp [staged]

def tornEvents : List OutEvent :=
  fillers.map .append ++ [.accept quiet] ++ [.append tick] ++ [.written 17] ++ [.accept quiet] ++
    [.written 262161] ++ [.flush]

theorem torn_run : Machine.Run step (fun c event => event.Given c) init tornEvents
    (torn5 fillers.flatten).flushOut := by
  have start := run_append fillers fillers_whole (by rw [length_fillers]; decide)
  exact .snoc (.snoc (.snoc (.snoc (.snoc (.snoc start quiet_encodes (torn_accept length_fillers))
    tick_whole torn_defer) (show (0 : UInt64) ≤ 17 by decide) torn_written) quiet_encodes
    torn_accept_again) (show (17 : UInt64) ≤ 262161 by decide) torn_written_again) trivial rfl

theorem stray_length (rest : List UInt8) : (lengthField (0 :: (doneBytes ++ rest))).toNat = 0 := by
  rw [lengthField, take_succ_cons, take_append_of_le_length (by decide)]
  decide

/-- With room for one byte, the first byte of a deferred frame goes out; a backfill accepted
then puts its BACKFILL_DONE behind that byte, and the rest of the frame behind that. -/
theorem frame_torn : Machine.Run step (fun c event => event.Given c) init tornEvents (torn5 fillers.flatten).flushOut ∧
      ¬ NeverCut tornEvents (torn5 fillers.flatten).flushOut := by
  refine ⟨torn_run, ?_⟩
  rintro ⟨order, frames, sameReplays, merged, rest, handed⟩
  have doneWhole : WholeFrame doneBytes := (quiet_encodes _ mem_cons_self).bytes.1
  have framesWhole : ∀ frame ∈ frames, WholeFrame frame := by
    intro frame member
    rcases merged.mem_merged member with given | replayed
    · have known : frame ∈ fillers ∨ frame = tick := by
        simpa [appended, tornEvents] using given
      rcases known with filling | rfl
      · exact fillers_whole frame filling
      · exact tick_whole
    obtain ⟨replay, inOrder, inReplay⟩ := mem_flatten.mp replayed
    have known : replay = replayFrames quiet := by
      simpa [accepted, tornEvents] using sameReplays.mem_iff.mp inOrder
    rw [known] at inReplay
    obtain rfl : frame = doneBytes := mem_singleton.mp inReplay
    exact doneWhole
  have split : (fillers ++ [doneBytes]).flatten ++ (0 :: (doneBytes ++ (tick.tail ++ rest))) =
      frames.flatten := by
    rw [← handed]
    simp [torn5, flushOut]
  obtain ⟨more, rfl, tail⟩ := frameFormat.flatten_split (by
      intro frame member
      rcases mem_append.mp member with filling | last
      · exact fillers_whole frame filling
      · exact mem_singleton.mp last ▸ doneWhole)
    framesWhole split
  cases more with
  | nil => cases tail
  | cons next more =>
    -- its length field is the stray byte and the top of BACKFILL_DONE's own
    have whole := framesWhole next (by simp)
    have header := whole.header
    have field := lengthField_append more.flatten ((show 4 ≤ headerSize by decide).trans header)
    rw [← flatten_cons, ← tail] at field
    have length := whole.length
    rw [← field, stray_length] at length
    rw [← length] at header
    exact absurd header (by decide)

end OpenChime.Daemon
