import OpenChime.Lib.Framing
import OpenChime.Wire.Frame

/-! The incremental reassembler of `shared/framebuf.c`. Bytes that were already yielded
stay at the front of the buffer until the next push compacts them away, so the
capacity that matters is that of the bytes still pending. -/

set_option autoImplicit false

namespace OpenChime.Wire

open Framing List

def readChunk : Nat := 16384

/-- What `oc_framebuf_next` makes of the bytes pending in the buffer. -/
def frameCut (bytes : List UInt8) : Cut :=
  if bytes.length < headerSize then .wait
  else
    let length := (lengthField bytes).toNat
    if length < lengthMin then .refuse
    else if length + 4 > maxFrameSize then .refuse
    else if bytes.length < length + 4 then .wait
    else .frame (length + 4)

structure WholeFrame (frame : List UInt8) : Prop where
  header : headerSize ≤ frame.length
  small : frame.length ≤ maxFrameSize
  length : (lengthField frame).toNat + 4 = frame.length

theorem lengthField_append {bytes : List UInt8} (rest : List UInt8) (header : 4 ≤ bytes.length) :
    lengthField (bytes ++ rest) = lengthField bytes := by
  rw [lengthField, lengthField, take_append_of_le_length header]

private theorem frameCut_whole {frame : List UInt8} (rest : List UInt8) (whole : WholeFrame frame) :
    frameCut (frame ++ rest) = .frame frame.length := by
  obtain ⟨header, small, length⟩ := whole
  unfold headerSize at header
  unfold maxFrameSize at small
  simp only [frameCut, lengthField_append rest (by omega : 4 ≤ frame.length), length_append,
    headerSize, lengthMin, maxFrameSize]
  rw [if_neg (by omega), if_neg (by omega), if_neg (by omega), if_neg (by omega), length]

private theorem frameCut_short {frame front : List UInt8} (whole : WholeFrame frame) (within : front <+: frame)
    (shorter : front.length < frame.length) : frameCut front = .wait := by
  obtain ⟨header, small, length⟩ := whole
  unfold headerSize at header
  unfold maxFrameSize at small
  by_cases brief : front.length < 8
  · rw [frameCut, headerSize, if_pos brief]
  obtain ⟨rest, rfl⟩ := within
  rw [lengthField_append rest (by omega)] at length
  rw [frameCut, if_neg (by unfold headerSize; omega)]
  dsimp only
  rw [if_neg (by unfold lengthMin; omega), if_neg (by unfold maxFrameSize; omega), if_pos (by omega)]

def frameFormat : Format UInt8 where
  cut := frameCut
  Whole := WholeFrame
  cut_nil := rfl
  nonempty whole empty := by
    have header := whole.header
    rw [empty] at header
    exact absurd header (by decide)
  cut_whole := frameCut_whole
  cut_short := frameCut_short

theorem wholeFrame_frameBytes {version msgType : UInt16} {fields : List Field}
    (small : (frameBytes version msgType fields).length ≤ maxFrameSize) :
    WholeFrame (frameBytes version msgType fields) := by
  refine ⟨by rw [length_frameBytes, headerSize]; omega, small, ?_⟩
  rw [length_frameBytes, maxFrameSize] at small
  rw [length_frameBytes, frameBytes, lengthField_encode _ _ (by omega)]
  omega

structure FrameBuf where
  buf : List UInt8
  pos : Nat
  cap : Nat
  within : pos ≤ buf.length
  fits : buf.length ≤ cap

namespace FrameBuf

def init : FrameBuf := ⟨[], 0, maxFrameSize + readChunk, Nat.le_refl 0, Nat.zero_le _⟩

variable (fb : FrameBuf)

def pending : List UInt8 := fb.buf.drop fb.pos

def compact : FrameBuf :=
  if fb.pos = 0 then fb
  else { fb with
    buf := fb.buf.drop fb.pos
    pos := 0
    within := Nat.zero_le _
    fits := by
      rw [length_drop]
      exact (Nat.sub_le _ _).trans fb.fits }

@[simp] theorem buf_compact : fb.compact.buf = fb.pending := by
  unfold compact pending
  split
  · next zero => rw [zero, drop_zero]
  · rfl

@[simp] theorem pos_compact : fb.compact.pos = 0 := by
  unfold compact
  split
  · next zero => exact zero
  · rfl

@[simp] theorem cap_compact : fb.compact.cap = fb.cap := by
  unfold compact
  split <;> rfl

/-- `oc_framebuf_push`; `none` is its `-1`. -/
def push (data : List UInt8) : Option FrameBuf :=
  let fb := fb.compact
  if room : data.length > fb.cap - fb.buf.length then none
  else some { fb with
    buf := fb.buf ++ data
    within := fb.within.trans (length_append ▸ Nat.le_add_right _ _)
    fits := by
      have := fb.fits
      rw [length_append]
      omega }

variable {fb : FrameBuf}

theorem push_of_room {data : List UInt8} (room : fb.pending.length + data.length ≤ fb.cap) :
    ∃ after, fb.push data = some after ∧ after.pending = fb.pending ++ data ∧ after.cap = fb.cap := by
  have enough : ¬data.length > fb.compact.cap - fb.compact.buf.length := by
    rw [cap_compact, buf_compact]
    omega
  refine ⟨_, dif_neg enough, ?_, cap_compact fb⟩
  simp only [pending, pos_compact, buf_compact, drop_zero]

theorem push_of_full {data : List UInt8} (full : fb.cap < fb.pending.length + data.length) : fb.push data = none := by
  have held : fb.pending.length ≤ fb.cap := by
    rw [pending, length_drop]
    exact (Nat.sub_le _ _).trans fb.fits
  refine dif_pos ?_
  rw [cap_compact, buf_compact]
  omega

/-- `oc_framebuf_next`: an error, `0` as `none`, or `1` with the frame. -/
def next : Except OcError (Option (List UInt8 × FrameBuf)) :=
  if fb.buf.length - fb.pos < headerSize then .ok none
  else
    let length := (lengthField (fb.buf.drop fb.pos)).toNat
    if length < lengthMin then .error .malformed
    else if length + 4 > maxFrameSize then .error .tooLarge
    else if arrived : fb.buf.length - fb.pos < length + 4 then .ok none
    else .ok (some ((fb.buf.drop fb.pos).take (length + 4), { fb with
      pos := fb.pos + (length + 4)
      within := by have := fb.within; omega }))

theorem length_pending : fb.pending.length = fb.buf.length - fb.pos := length_drop

theorem next_of_wait (wait : frameCut fb.pending = .wait) : fb.next = .ok none := by
  rw [frameCut, length_pending] at wait
  unfold next
  split at wait
  · next brief => rw [if_pos brief]
  next long =>
  rw [if_neg long]
  dsimp only at wait ⊢
  split at wait
  · cases wait
  next enough =>
  rw [pending] at enough wait
  rw [if_neg enough]
  split at wait
  · cases wait
  next small =>
  rw [if_neg small]
  split at wait
  · next short => rw [dif_pos short]
  · cases wait

theorem next_of_frame {size : Nat} (found : frameCut fb.pending = .frame size) :
    ∃ after, fb.next = .ok (some (fb.pending.take size, after)) ∧
      after.pending = fb.pending.drop size ∧ after.cap = fb.cap := by
  rw [frameCut, length_pending] at found
  unfold next
  split at found
  · cases found
  next long =>
  rw [if_neg long]
  dsimp only at found ⊢
  split at found
  · cases found
  next enough =>
  rw [pending] at enough found
  rw [if_neg enough]
  split at found
  · cases found
  next small =>
  rw [if_neg small]
  split at found
  · cases found
  next arrived =>
  cases found
  rw [dif_neg arrived]
  exact ⟨_, rfl, by simp only [pending, drop_drop], rfl⟩

theorem next_advances {after : FrameBuf} {frame : List UInt8}
    (yielded : fb.next = .ok (some (frame, after))) : after.pending.length < fb.pending.length := by
  unfold next at yielded
  split at yielded
  · cases yielded
  dsimp only at yielded
  split at yielded
  · cases yielded
  split at yielded
  · cases yielded
  split at yielded
  · cases yielded
  next arrived =>
  cases yielded
  simp only [length_pending]
  omega

/-- `while ((rc = oc_framebuf_next(…)) == 1)`: the frames yielded, then how the loop ended. -/
def drain (fb : FrameBuf) : List (List UInt8) × Except OcError FrameBuf :=
  match _yielded : fb.next with
  | .error error => ([], .error error)
  | .ok none => ([], .ok fb)
  | .ok (some (frame, after)) =>
    let (frames, ended) := after.drain
    (frame :: frames, ended)
termination_by fb.pending.length
decreasing_by exact next_advances _yielded

theorem drain_of_drains {bytes : List UInt8} {frames : List (List UInt8)} {rest : List UInt8}
    (drains : Drains frameCut bytes frames rest) (held : fb.pending = bytes) :
    ∃ after, fb.drain = (frames, .ok after) ∧ after.pending = rest ∧ after.cap = fb.cap := by
  induction drains generalizing fb with
  | stop wait =>
    refine ⟨fb, ?_, held, rfl⟩
    unfold drain
    rw [next_of_wait (held ▸ wait)]
  | step found _ _ _ ih =>
    subst held
    obtain ⟨middle, yielded, shifted, sameCap⟩ := next_of_frame found
    obtain ⟨after, drained, left, lastCap⟩ := ih shifted
    refine ⟨after, ?_, left, lastCap.trans sameCap⟩
    unfold drain
    rw [yielded]
    simp only [drained]

/-- Push each chunk, then drain; `none` when a push fails or the stream is refused. -/
def feed (fb : FrameBuf) : List (List UInt8) → Option (List (List UInt8) × FrameBuf)
  | [] => some ([], fb)
  | chunk :: chunks => do
      let pushed ← fb.push chunk
      match pushed.drain with
      | (_, .error _) => none
      | (frames, .ok after) => do
          let (more, last) ← after.feed chunks
          some (frames ++ more, last)

theorem feed_of_stream {todo chunks : List (List UInt8)} (whole : ∀ frame ∈ todo, WholeFrame frame)
    (room : fb.cap = maxFrameSize + readChunk) (small : ∀ chunk ∈ chunks, chunk.length ≤ readChunk)
    (held : Held todo fb.pending) (split : fb.pending ++ chunks.flatten = todo.flatten) :
    ∃ last, fb.feed chunks = some (todo, last) ∧ last.pending = [] := by
  induction chunks generalizing fb todo with
  | nil =>
    rw [flatten_nil, append_nil] at split
    obtain ⟨rfl, empty⟩ := held.done (fun frame member => frameFormat.nonempty (whole frame member)) split
    exact ⟨fb, rfl, empty⟩
  | cons chunk chunks ih =>
    obtain ⟨chunkSmall, chunksSmall⟩ := forall_mem_cons.mp small
    have partialSmall : fb.pending.length < maxFrameSize :=
      held.length_lt (fun frame member => (whole frame member).small) (by decide)
    obtain ⟨pushed, push, arrived, pushedCap⟩ := @push_of_room fb chunk (by rw [room]; omega)
    rw [flatten_cons, ← append_assoc, ← arrived] at split
    obtain ⟨taken, left, rest, rfl, drains, behind, leftHeld⟩ := frameFormat.drains_chunk whole split
    obtain ⟨after, drained, pendingRest, afterCap⟩ := drain_of_drains drains rfl
    obtain ⟨last, fed, empty⟩ := ih (fun frame member => whole frame (mem_append_right _ member))
      (by rw [afterCap, pushedCap, room]) chunksSmall (pendingRest.symm ▸ leftHeld)
      (by rw [pendingRest, behind])
    refine ⟨last, ?_, empty⟩
    rw [feed, push]
    simp only [Option.bind_eq_bind, Option.bind_some, drained, fed]

end FrameBuf

def Put.bytes : Put → List UInt8
  | refuse _ => []
  | frame version msgType fields => frameBytes version msgType fields

def encodeAll (w : WBuf) : List Put → List (Except OcError Unit) × WBuf
  | [] => ([], w)
  | call :: calls =>
    let (result, next) := call.run w
    let (results, last) := encodeAll next calls
    (result :: results, last)

/-- The frames of the calls that returned `OC_OK`, in order. -/
def succeeded : List Put → List (Except OcError Unit) → List (List UInt8)
  | call :: calls, .ok () :: results => call.bytes :: succeeded calls results
  | _ :: calls, .error _ :: results => succeeded calls results
  | _, _ => []

theorem run_ok {w after : WBuf} {call : Put} (ran : call.run w = (.ok (), after)) :
    WholeFrame call.bytes ∧ after.data = w.data ++ call.bytes := by
  cases call with
  | refuse error => cases ran
  | frame version msgType fields =>
    obtain ⟨-, -, small, written, -⟩ := frame_run_ok ran
    exact ⟨wholeFrame_frameBytes small, written⟩

theorem encodeAll_spec (w : WBuf) (calls : List Put) : (encodeAll w calls).2.data =
        w.data ++ (succeeded calls (encodeAll w calls).1).flatten ∧
      ∀ frame ∈ succeeded calls (encodeAll w calls).1, WholeFrame frame := by
  induction calls generalizing w with
  | nil => exact ⟨by simp [encodeAll, succeeded], by simp [succeeded]⟩
  | cons call calls ih =>
    cases ran : call.run w with
    | mk result after =>
      obtain ⟨data, whole⟩ := ih after
      simp only [encodeAll, ran]
      cases result with
      | error error =>
        simp only [succeeded]
        exact ⟨by rw [data, run_error ran], whole⟩
      | ok =>
        obtain ⟨frameWhole, written⟩ := run_ok ran
        simp only [succeeded]
        exact ⟨by rw [data, written, flatten_cons, append_assoc], forall_mem_cons.mpr ⟨frameWhole, whole⟩⟩

/-- Whatever calls are appended into one buffer and whichever of them fail, the buffer
holds the frames of those that succeeded, and reading it back in chunks of any sizes up
to a read yields those frames. -/
theorem stream_framing (cap : Nat) (calls : List Put) : (encodeAll (.init cap) calls).2.data =
        (succeeded calls (encodeAll (.init cap) calls).1).flatten ∧
      ∀ chunks : List (List UInt8), (∀ chunk ∈ chunks, chunk.length ≤ readChunk) →
        chunks.flatten = (encodeAll (.init cap) calls).2.data →
        ∃ last, FrameBuf.init.feed chunks =
          some (succeeded calls (encodeAll (.init cap) calls).1, last) ∧ last.pending = [] := by
  obtain ⟨data, whole⟩ := encodeAll_spec (.init cap) calls
  have concatenated : (encodeAll (.init cap) calls).2.data =
      (succeeded calls (encodeAll (.init cap) calls).1).flatten := data
  refine ⟨concatenated, fun chunks small cut => ?_⟩
  refine FrameBuf.feed_of_stream whole rfl small (.clear _) ?_
  rw [← concatenated, ← cut]
  rfl

theorem stream_framing_after_overflow :
    ∃ last, FrameBuf.init.feed [[0, 0], [0, 5, 0, 1, 0], [], [3, 9, 0, 0, 0, 4, 0, 1, 0, 4]] =
      some ([[0, 0, 0, 5, 0, 1, 0, 3, 9], [0, 0, 0, 4, 0, 1, 0, 4]], last) ∧ last.pending = [] :=
  (stream_framing 20 [.frame 1 3 [.u8 9], .refuse .bodyTooLarge, .frame 1 4 [],
    .frame 1 5 [.u64 0], .frame 1 6 []]).2 _ (by decide) (by decide)

end OpenChime.Wire
