import OpenChime.Daemon.WebSocket

/-! The WebSocket transport against the raw stream. However the bytes are read, the frames
of a browser are handled one by one in their order; what is left to ask is whether each
payload finds room behind the protocol frame it continues. -/

set_option autoImplicit false

namespace OpenChime.Daemon

open Wire Framing List WsFrame

/-- One frame of a browser; a finished connection takes none. -/
def WsCore.handle (c : WsCore) (f : WsFrame) : WsCore :=
  if c.finished then c else c.take f.kind.opcode f.payload

theorem WsCore.foldl_handle_finished {c : WsCore} (ended : c.finished = true) (fs : List WsFrame) :
    fs.foldl handle c = c := by
  induction fs with
  | nil => rfl
  | cons f fs ih =>
    have unchanged : c.handle f = c := if_pos ended
    rw [foldl_cons, unchanged, ih]

namespace WsFrame

theorem drop_mask (f : WsFrame) (rest : List UInt8) :
    (f.bytes ++ rest).drop f.parsed.maskOff = f.mask ++ (unmask f.mask f.payload ++ rest) := by
  have shape : f.bytes ++ rest = (byte0 f.fin f.kind :: byte1 (f.form.small f.payload.length) ::
        BigEndian.encode f.form.width f.payload.length) ++
      (f.mask ++ (unmask f.mask f.payload ++ rest)) := by
    simp [bytes, tail]
  rw [shape]
  exact drop_left' (by simp [parsed]; omega)

theorem drop_payload (f : WsFrame) (rest : List UInt8) :
    (f.bytes ++ rest).drop f.parsed.payloadOff = unmask f.mask f.payload ++ rest := by
  have offset : f.parsed.payloadOff = f.parsed.maskOff + f.mask.length := by
    rw [f.mask_four]
    rfl
  rw [offset, ← drop_drop, drop_mask, drop_left]

end WsFrame

namespace WsConn

variable {c : WsConn}

theorem wsLoop_frame {f : WsFrame} {rest : List UInt8} (front : c.win = f.bytes ++ rest) : c.wsLoop =
      if (c.core.take f.kind.opcode f.payload).finished then
        { c with core := c.core.take f.kind.opcode f.payload }
      else wsLoop { c with win := rest, core := c.core.take f.kind.opcode f.payload } := by
  have parsed : wsParse c.win wsMaxFrame = .frame f.parsed := by rw [front, f.wsParse_bytes]
  have mask : (c.win.drop f.parsed.maskOff).take 4 = f.mask := by
    rw [front, f.drop_mask]
    exact take_left' f.mask_four
  have payload : (c.win.drop f.parsed.payloadOff).take f.parsed.len = unmask f.mask f.payload := by
    rw [front, f.drop_payload]
    exact take_left' (length_unmask _ _)
  have behind : c.win.drop f.parsed.whole = rest := by
    rw [front, ← f.length_bytes, drop_left]
  rw [wsLoop]
  split
  · next other => rw [parsed] at other; cases other
  · next other => rw [parsed] at other; cases other
  next out isParsed =>
  rw [parsed] at isParsed
  cases isParsed
  simp only [mask, payload, unmask_unmask, behind]
  rfl

theorem wsLoop_wait (wait : wsCut c.win = .wait) : c.wsLoop = c := by
  rw [wsLoop]
  unfold wsCut at wait
  split
  · rfl
  · next other => rw [other] at wait; cases wait
  · next other => rw [other] at wait; cases wait

theorem wsLoop_drains {fs : List WsFrame} {rest : List UInt8}
    (drains : Drains wsCut c.win (fs.map bytes) rest) (alive : c.core.finished = false) :
    c.wsLoop.core = fs.foldl WsCore.handle c.core ∧
      (c.wsLoop.core.finished = false → c.wsLoop.win = rest ∧ c.wsLoop.wcap = c.wcap) := by
  induction fs generalizing c with
  | nil =>
    cases drains with
    | stop wait => rw [wsLoop_wait wait]; exact ⟨rfl, fun _ => ⟨rfl, rfl⟩⟩
  | cons f fs ih =>
    rw [map_cons] at drains
    generalize isHead : f.bytes = head at drains
    cases drains with
    | @step _ size _ _ found within positive tail =>
      have front : c.win = f.bytes ++ c.win.drop size := by
        rw [isHead, take_append_drop]
      have handled : c.core.handle f = c.core.take f.kind.opcode f.payload := if_neg (by simp [alive])
      rw [wsLoop_frame front, foldl_cons, handled]
      split
      · next ended =>
        refine ⟨(WsCore.foldl_handle_finished ended fs).symm, fun going => ?_⟩
        rw [ended] at going
        cases going
      · next going => exact ih tail (Bool.eq_false_iff.mpr going)

theorem grown_pow {k need : Nat} (small : k ≤ 17) (fits : need ≤ 2 ^ 17) :
    ∀ positive, ∃ j ≤ 17, grown (2 ^ k) need positive = 2 ^ j := by
  induction left : 17 - k generalizing k with
  | zero =>
    intro positive
    obtain rfl : k = 17 := by omega
    refine ⟨17, le_rfl, ?_⟩
    rw [grown, if_neg (not_lt.mpr fits)]
  | succ left ih =>
    intro positive
    rw [grown]
    split
    · have := ih (k := k + 1) (by omega) (by omega) (Nat.two_pow_pos _)
      simpa only [pow_succ] using this
    · exact ⟨k, small, rfl⟩

/-- Nothing but powers of two from 4096 on, up to twice the largest frame. -/
def Reserved (wcap : Nat) : Prop := wcap = 0 ∨ ∃ k ≤ 17, wcap = 2 ^ k

theorem wsBytes_of_room {chunk : List UInt8} (reserved : Reserved c.wcap)
    (fits : c.win.length + chunk.length ≤ 2 ^ 17) :
    ∃ wcap, Reserved wcap ∧ c.wsBytes chunk = wsLoop { c with win := c.win ++ chunk, wcap } := by
  unfold wsBytes
  by_cases grow : c.win.length + chunk.length > c.wcap
  · have first : ∃ k ≤ 17, (if c.wcap = 0 then 4096 else c.wcap) = 2 ^ k := by
      rcases reserved with none | ⟨k, small, isCap⟩
      · exact ⟨12, by decide, by rw [if_pos none]; rfl⟩
      · refine ⟨k, small, ?_⟩
        rw [if_neg (by rw [isCap]; exact (Nat.two_pow_pos k).ne'), isCap]
    obtain ⟨k, small, isFirst⟩ := first
    obtain ⟨j, bounded, isGrown⟩ := grown_pow small fits (Nat.two_pow_pos k)
    have cap : grown _ (c.win.length + chunk.length) (firstCap_pos c.wcap) = 2 ^ j := by
      rw [← isGrown]
      congr 1
    have limit : 2 ^ j ≤ 2 ^ 17 := Nat.pow_le_pow_right Nat.two_pos bounded
    refine ⟨2 ^ j, .inr ⟨j, bounded, rfl⟩, ?_⟩
    simp only [if_pos grow, cap]
    rw [if_neg]
    unfold wsMaxFrame maxFrameSize
    omega
  · refine ⟨c.wcap, reserved, ?_⟩
    simp only [if_neg grow]
    rw [if_neg (fun full => grow full.1)]

/-- Reading a browser's frames, from any point inside them, handles each in its turn. -/
theorem reads_core {todo : List WsFrame} {chunks : List (List UInt8)} (alive : c.core.finished = false)
    (reserved : Reserved c.wcap) (small : ∀ chunk ∈ chunks, chunk.length ≤ readChunk)
    (held : Held (todo.map bytes) c.win) (split : c.win ++ chunks.flatten = (todo.map bytes).flatten) :
    (c.reads chunks).core = todo.foldl WsCore.handle c.core := by
  have whole : ∀ todo : List WsFrame, ∀ frame ∈ todo.map bytes, wsFormat.Whole frame := by
    intro todo frame member
    obtain ⟨f, -, rfl⟩ := mem_map.mp member
    exact ⟨f, rfl⟩
  induction chunks generalizing c todo with
  | nil =>
    rw [flatten_nil, append_nil] at split
    obtain ⟨empty, -⟩ := held.done (fun frame member => wsFormat.nonempty (whole todo frame member)) split
    rw [map_eq_nil_iff.mp empty]
    rfl
  | cons chunk chunks ih =>
    obtain ⟨chunkSmall, chunksSmall⟩ := forall_mem_cons.mp small
    have heldSmall : c.win.length < wsMaxFrame + 14 := by
      refine held.length_lt (fun frame member => ?_) (by decide)
      obtain ⟨f, -, rfl⟩ := mem_map.mp member
      rw [f.length_bytes, parsed]
      have payload := f.payload_le
      cases f.form <;> simp only [WsLength.width] <;> omega
    obtain ⟨wcap, stillReserved, read⟩ := @wsBytes_of_room c chunk reserved (by
      unfold wsMaxFrame maxFrameSize at heldSmall
      unfold readChunk at chunkSmall
      omega)
    rw [flatten_cons, ← append_assoc] at split
    obtain ⟨taken, left, rest, parts, drains, behind, leftHeld⟩ := wsFormat.drains_chunk (whole todo) split
    obtain ⟨fs, later, rfl, rfl, rfl⟩ := map_eq_append_iff.mp parts
    obtain ⟨handled, going⟩ := @wsLoop_drains { c with win := c.win ++ chunk, wcap } fs rest drains alive
    rw [reads, if_neg (by simp [alive]), read, foldl_append, ← handled]
    cases ended : (wsLoop { c with win := c.win ++ chunk, wcap }).core.finished with
    | true =>
      rw [WsCore.foldl_handle_finished ended]
      cases chunks with
      | nil => rfl
      | cons next more => rw [reads, if_pos ended]
    | false =>
      obtain ⟨isRest, isCap⟩ := going ended
      exact ih ended (isCap ▸ stillReserved) chunksSmall (isRest ▸ leftHeld) (by rw [isRest]; exact behind)

end WsConn

/-- How many of the first `n` bytes of a stream lie behind its last whole frame. -/
def unfinished : List (List UInt8) → Nat → Nat
  | [], n => n
  | frame :: frames, n =>
    if frame.length ≤ n then unfinished frames (n - frame.length) else n

/-- Each payload fits the frame buffer on top of the protocol frame that is incomplete
before it; `n` bytes of the stream have come. -/
def PayloadsFit (frames : List (List UInt8)) : Nat → List WsFrame → Prop
  | _, [] => True
  | n, f :: fs => unfinished frames n + f.data.length ≤ maxFrameSize + readChunk ∧
      PayloadsFit frames (n + f.data.length) fs

instance decidablePayloadsFit (frames : List (List UInt8)) :
    (n : Nat) → (fs : List WsFrame) → Decidable (PayloadsFit frames n fs)
  | _, [] => .isTrue trivial
  | n, f :: fs =>
    have := decidablePayloadsFit frames (n + f.data.length) fs
    inferInstanceAs (Decidable (_ ∧ _))

theorem unfinished_append (done todo : List (List UInt8)) (n : Nat) :
    unfinished (done ++ todo) (done.flatten.length + n) = unfinished todo n := by
  induction done with
  | nil => simp
  | cons frame done ih =>
    rw [cons_append, unfinished, flatten_cons, length_append,
      if_pos (by omega), Nat.add_assoc, Nat.add_sub_cancel_left, ih]

theorem payloadsFit_append (done todo : List (List UInt8)) (n : Nat) (fs : List WsFrame) :
    PayloadsFit (done ++ todo) (done.flatten.length + n) fs ↔ PayloadsFit todo n fs := by
  induction fs generalizing n with
  | nil => rfl
  | cons f fs ih => rw [PayloadsFit, PayloadsFit, unfinished_append, Nat.add_assoc, ih]

theorem unfinished_held {todo : List (List UInt8)} {rest : List UInt8} (held : Held todo rest)
    (whole : ∀ frame ∈ todo, WholeFrame frame) : unfinished todo rest.length = rest.length := by
  cases held with
  | clear =>
    cases todo with
    | nil => rfl
    | cons frame todo =>
      have filled := (whole frame mem_cons_self).header
      unfold headerSize at filled
      exact if_neg (by rw [length_nil]; omega)
  | short front proper => exact if_neg (not_le.mpr proper)

namespace WsCore

variable {kind : WsKind}

theorem opcode_of_data (carries : kind = .continuation ∨ kind = .binary) : kind.opcode = 0x2 ∨ kind.opcode = 0x0 := by
  rcases carries with rfl | rfl
  · exact .inr rfl
  · exact .inl rfl

theorem take_control (c : WsCore) (control : ¬(kind = .continuation ∨ kind = .binary))
    (payload : List UInt8) : ∃ queued, c.take kind.opcode payload = { c with queued } := by
  cases kind with
  | continuation => exact absurd (.inl rfl) control
  | binary => exact absurd (.inr rfl) control
  | ping => exact ⟨_, rfl⟩
  | pong => exact ⟨_, rfl⟩

theorem take_overflow (c : WsCore) (carries : kind = .continuation ∨ kind = .binary) {payload : List UInt8}
    (filled : payload ≠ []) (full : c.fb.cap < c.fb.pending.length + payload.length) :
    (c.take kind.opcode payload).finished = true := by
  rw [take, if_pos (opcode_of_data carries), if_neg filled, FrameBuf.push_of_full full]

theorem take_room (c : WsCore) (carries : kind = .continuation ∨ kind = .binary) {payload : List UInt8}
    (room : c.fb.pending.length + payload.length ≤ c.fb.cap) {frames : List (List UInt8)} {rest : List UInt8}
    (drains : Drains frameCut (c.fb.pending ++ payload) frames rest) :
    ∃ fb, fb.pending = rest ∧ fb.cap = c.fb.cap ∧
      c.take kind.opcode payload = { c with fb, posted := c.posted ++ frames } := by
  have pushes : ∃ pushed, (if payload = [] then some c.fb else c.fb.push payload) = some pushed ∧
      pushed.pending = c.fb.pending ++ payload ∧ pushed.cap = c.fb.cap := by
    by_cases empty : payload = []
    · exact ⟨c.fb, by rw [if_pos empty], by rw [empty, append_nil], rfl⟩
    · rw [if_neg empty]
      exact FrameBuf.push_of_room room
  obtain ⟨pushed, push, arrived, sameCap⟩ := pushes
  obtain ⟨after, drained, left, lastCap⟩ := FrameBuf.drain_of_drains drains arrived
  refine ⟨after, left, lastCap.trans sameCap, ?_⟩
  rw [take, if_pos (opcode_of_data carries), push]
  simp only [drained]

/-- Handling the rest of the frames that carry a stream, from any point inside it. -/
theorem foldl_handle {c : WsCore} {todo : List (List UInt8)} {fs : List WsFrame}
    (whole : ∀ frame ∈ todo, WholeFrame frame) (cap : c.fb.cap = maxFrameSize + readChunk) (alive : c.finished = false)
    (held : Held todo c.fb.pending) (split : c.fb.pending ++ fs.flatMap data = todo.flatten) :
    (PayloadsFit todo c.fb.pending.length fs → (fs.foldl handle c).finished = false ∧
        (fs.foldl handle c).posted = c.posted ++ todo) ∧
      (¬PayloadsFit todo c.fb.pending.length fs → (fs.foldl handle c).finished = true) := by
  induction fs generalizing c todo with
  | nil =>
    rw [flatMap_nil, append_nil] at split
    obtain ⟨rfl, -⟩ := held.done (fun frame member => frameFormat.nonempty (whole frame member)) split
    exact ⟨fun _ => ⟨alive, (append_nil _).symm⟩, fun overfull => absurd trivial overfull⟩
  | cons f fs ih =>
    have handled : c.handle f = c.take f.kind.opcode f.payload := if_neg (by simp [alive])
    rw [foldl_cons, handled, PayloadsFit, unfinished_held held whole]
    rw [flatMap_cons] at split
    by_cases carries : f.kind = .continuation ∨ f.kind = .binary
    · have data : f.data = f.payload := by
        rcases carries with isKind | isKind <;> simp [data, isKind]
      rw [data] at split ⊢
      by_cases room : c.fb.pending.length + f.payload.length ≤ maxFrameSize + readChunk
      · rw [← append_assoc] at split
        obtain ⟨taken, left, rest, rfl, drains, behind, leftHeld⟩ := frameFormat.drains_chunk whole split
        obtain ⟨fb, isRest, sameCap, taking⟩ := c.take_room carries (cap ▸ room) drains
        have come : c.fb.pending.length + f.payload.length = taken.flatten.length + rest.length := by
          have both := split.trans (by rw [flatten_append, ← behind, ← append_assoc])
          have same := append_cancel_right both
          rw [← length_append, same, length_append]
        rw [taking, come, payloadsFit_append, ← isRest]
        obtain ⟨fitting, overfull⟩ := @ih { c with fb, posted := c.posted ++ taken } left
          (fun frame member => whole frame (mem_append_right _ member))
          (sameCap.trans cap) alive (isRest ▸ leftHeld) (by rw [isRest]; exact behind)
        refine ⟨fun fits => ?_, fun rest => overfull fun fits => rest ⟨?_, fits⟩⟩
        · rw [← append_assoc]
          exact fitting fits.2
        · rw [isRest, ← come]
          exact room
      · have filled : f.payload ≠ [] := by
          intro empty
          have pendingSmall : c.fb.pending.length < maxFrameSize :=
            held.length_lt (fun frame member => (whole frame member).small) (by decide)
          rw [empty, length_nil] at room
          omega
        have ended := c.take_overflow carries filled (cap ▸ not_le.mp room)
        rw [foldl_handle_finished ended]
        exact ⟨fun fits => absurd fits.1 room, fun _ => ended⟩
    · have data : f.data = [] := by
        cases isKind : f.kind <;> simp_all [data]
      obtain ⟨queued, taking⟩ := c.take_control carries f.payload
      rw [data] at split
      rw [taking, data, length_nil]
      obtain ⟨fitting, overfull⟩ := @ih { c with queued } todo whole cap alive held split
      refine ⟨fun fits => fitting fits.2, fun rest => overfull fun fits => rest ⟨?_, fits⟩⟩
      exact cap ▸ c.fb.length_pending ▸ (Nat.sub_le _ _).trans c.fb.fits

end WsCore

theorem WsConn.reads_opened {frames : List (List UInt8)} {sent : List WsFrame} {chunks : List (List UInt8)}
    (whole : ∀ frame ∈ frames, WholeFrame frame) (carried : sent.flatMap data = frames.flatten)
    (small : ∀ chunk ∈ chunks, chunk.length ≤ readChunk) (cut : chunks.flatten = sent.flatMap bytes) :
    (PayloadsFit frames 0 sent → (opened.reads chunks).core.finished = false ∧
        (opened.reads chunks).core.posted = frames) ∧
      (¬PayloadsFit frames 0 sent → (opened.reads chunks).core.finished = true) := by
  have core : (opened.reads chunks).core = sent.foldl WsCore.handle opened.core :=
    reads_core rfl (.inl rfl) small (.clear _) (by rw [← flatMap_def, ← cut]; rfl)
  rw [core]
  exact @WsCore.foldl_handle opened.core frames sent whole rfl rfl (.clear _) carried

/-- Every stream of whole protocol frames, every way to cut it into WebSocket frames with
pings and pongs between them, every way to read those. -/
theorem ws_same_frames (frames : List (List UInt8)) (whole : ∀ frame ∈ frames, WholeFrame frame)
    (sent : List WsFrame) (carried : sent.flatMap data = frames.flatten)
    (chunks : List (List UInt8)) (small : ∀ chunk ∈ chunks, chunk.length ≤ readChunk)
    (cut : chunks.flatten = sent.flatMap bytes) :
    ((WsConn.opened.reads chunks).core.posted = frames ∧
      (WsConn.opened.reads chunks).core.finished = false) ↔ PayloadsFit frames 0 sent := by
  obtain ⟨fitting, overfull⟩ := WsConn.reads_opened whole carried small cut
  constructor
  · rintro ⟨-, alive⟩
    by_contra fails
    rw [overfull fails] at alive
    cases alive
  · intro fits
    exact ⟨(fitting fits).2, (fitting fits).1⟩

def pieces : List WsFrame :=
  [⟨false, .binary, .seven, [1, 2, 3, 4], [0, 0, 0], rfl, by decide, by decide⟩,
    ⟨true, .ping, .seven, [9, 9, 9, 9], [7], rfl, by decide, by decide⟩,
    ⟨true, .continuation, .sixteen, [5, 6, 7, 8], [4, 0, 1, 0, 6], rfl, by decide, by decide⟩]

theorem ws_same_frames_pieces :
    let read := WsConn.opened.reads [(pieces.flatMap bytes).take 11, (pieces.flatMap bytes).drop 11]
    read.core.posted = [[0, 0, 0, 4, 0, 1, 0, 6]] ∧ read.core.finished = false := by
  refine (ws_same_frames [[0, 0, 0, 4, 0, 1, 0, 6]] ?_ pieces rfl
    [(pieces.flatMap bytes).take 11, (pieces.flatMap bytes).drop 11]
    (by decide) rfl).mpr (by decide)
  intro frame member
  obtain rfl := mem_singleton.mp member
  exact ⟨by decide, by decide, by decide⟩

def carrying (payload : List UInt8) (small : payload.length ≤ wsMaxFrame) : WsFrame :=
  ⟨true, .binary, .sixtyFour, [0, 0, 0, 0], payload, rfl, small, trivial⟩

theorem carrying_data (payload : List UInt8) (small : payload.length ≤ wsMaxFrame) :
    (carrying payload small).data = payload := (rfl)

section

variable {front back : List UInt8} (frontLength : front.length = 40000) (backLength : back.length = 26560)

/-- One protocol frame of the largest size twice, as payloads of 40000, 66560 and 26560
bytes. -/
def misaligned : List WsFrame :=
  [carrying front (by rw [frontLength]; decide),
    carrying (back ++ front) (by rw [length_append, frontLength, backLength]; decide),
    carrying back (by rw [backLength]; decide)]

theorem misaligned_data : (misaligned frontLength backLength).flatMap data =
    [front ++ back, front ++ back].flatten := by
  simp only [misaligned, flatMap_cons, flatMap_nil, carrying_data, append_nil, flatten_cons, flatten_nil, append_assoc]

theorem misaligned_overfull : ¬PayloadsFit [front ++ back, front ++ back] 0 (misaligned frontLength backLength) := by
  have behind : unfinished [front ++ back, front ++ back] 40000 = 40000 := by
    rw [unfinished, if_neg (by rw [length_append, frontLength, backLength]; decide)]
  simp only [misaligned, PayloadsFit, carrying_data, length_append, frontLength, backLength, Nat.zero_add, behind]
  exact fun fits => absurd fits.2.1 (by decide)

end

/-- The two parts of an all-zero frame of the largest size. -/
def largestFront : List UInt8 := [0, 1, 3, 252] ++ List.replicate 39996 0

def largestBack : List UInt8 := List.replicate 26560 0

theorem length_largestFront : largestFront.length = 40000 := by
  rw [largestFront, length_append, length_replicate]
  rfl

theorem length_largestBack : largestBack.length = 26560 := length_replicate

theorem largest_whole : WholeFrame (largestFront ++ largestBack) := by
  have long : (largestFront ++ largestBack).length = maxFrameSize := by
    rw [length_append, length_largestFront, length_largestBack]
    rfl
  refine ⟨?_, long.le, ?_⟩
  · rw [long]
    decide
  · rw [long, lengthField_append _ (by rw [length_largestFront]; decide), largestFront,
      lengthField_append _ (by decide)]
    decide

/-- Even read one byte at a time, the second payload finds no room. -/
theorem misaligned_refused :
    let frames := [largestFront ++ largestBack, largestFront ++ largestBack]
    let sent := misaligned length_largestFront length_largestBack
    let chunks := (sent.flatMap bytes).map fun byte => [byte]
    (∀ frame ∈ frames, WholeFrame frame) ∧ sent.flatMap data = frames.flatten ∧
      (∀ chunk ∈ chunks, chunk.length ≤ readChunk) ∧
      chunks.flatten = sent.flatMap bytes ∧
      (WsConn.opened.reads chunks).core.finished = true := by
  intro frames sent chunks
  have whole : ∀ frame ∈ frames, WholeFrame frame := by
    intro frame member
    have same : frame = largestFront ++ largestBack := by simpa [frames] using member
    exact same ▸ largest_whole
  have small : ∀ chunk ∈ chunks, chunk.length ≤ readChunk := by
    intro chunk member
    obtain ⟨byte, -, rfl⟩ := mem_map.mp member
    exact Nat.le_of_ble_eq_true rfl
  have cut : chunks.flatten = sent.flatMap bytes := by
    rw [← flatMap_def, flatMap_singleton']
  have carried := misaligned_data length_largestFront length_largestBack
  exact ⟨whole, carried, small, cut, (WsConn.reads_opened whole carried small cut).2
    (misaligned_overfull length_largestFront length_largestBack)⟩

end OpenChime.Daemon
