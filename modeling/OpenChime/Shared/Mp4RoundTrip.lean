import OpenChime.Lib.Run
import OpenChime.Shared.Mp4ReadBack

/-! Every sample an accepted call hands to the writer of the restricted MP4 comes back from the reader
of the finished file. What a call records is stated over the calls made so far. -/

set_option autoImplicit false

namespace OpenChime.Shared.Mp4

open List Writer WSample Option

structure Frame where
  data : List UInt8
  ptsUs : Int
  keyframe : Bool

structure Packet where
  data : List UInt8
  samples : UInt32

inductive Call where
  | video (frame : Frame)
  | audio (packet : Packet)

def frames : List Call → List Frame
  | [] => []
  | .video frame :: calls => frame :: frames calls
  | .audio _ :: calls => frames calls

def packets : List Call → List Packet
  | [] => []
  | .video _ :: calls => packets calls
  | .audio packet :: calls => packet :: packets calls

theorem frames_append (calls more : List Call) : frames (calls ++ more) = frames calls ++ frames more := by
  induction calls with
  | nil => rfl
  | cons call calls ih =>
    cases call with
    | video frame => exact congrArg (frame :: ·) ih
    | audio packet => exact ih

theorem packets_append (calls more : List Call) : packets (calls ++ more) = packets calls ++ packets more := by
  induction calls with
  | nil => rfl
  | cons call calls ih =>
    cases call with
    | video frame => exact ih
    | audio packet => exact congrArg (packet :: ·) ih

/-- How long frames last: each until the next, the last one for a thirtieth of a second. -/
def frameDurations : List Int → List Nat
  | [] => []
  | [_] => [videoTimescale / 30]
  | pts :: next :: rest => frameDur (next - pts) :: frameDurations (next :: rest)

theorem frameDurations_append (front : List Int) (last pts : Int) : frameDurations (front ++ [last] ++ [pts]) =
      (frameDurations (front ++ [last])).dropLast ++ [frameDur (pts - last), videoTimescale / 30] := by
  induction front with
  | nil => rfl
  | cons first front ih =>
    cases front with
    | nil => rfl
    | cons second front =>
      have later : frameDurations (second :: front ++ [last]) ≠ [] := by
        cases front with
        | nil => exact cons_ne_nil _ _
        | cons third front => exact cons_ne_nil _ _
      have split : frameDurations (first :: second :: front ++ [last]) =
          frameDur (second - first) :: frameDurations (second :: front ++ [last]) := rfl
      have whole : frameDurations (first :: second :: front ++ [last] ++ [pts]) =
          frameDur (second - first) :: frameDurations (second :: front ++ [last] ++ [pts]) :=
        rfl
      rw [whole, ih, split, dropLast_cons_of_ne_nil later]
      rfl

theorem frameDur_lt (gap : Int) : frameDur gap < 2 ^ 32 := by
  exact Nat.mod_lt _ (by decide)

theorem frameDurations_lt {times : List Int} {duration : Nat}
    (member : duration ∈ frameDurations times) : duration < 2 ^ 32 := by
  induction times with
  | nil => exact absurd member not_mem_nil
  | cons first times ih =>
    cases times with
    | nil =>
      rw [mem_singleton.mp member]
      decide
    | cons second times =>
      cases mem_cons.mp member with
      | inl same =>
        rw [same]
        exact frameDur_lt _
      | inr later => exact ih later

namespace Writer

def taken (result : Bool × Writer) : Option Writer :=
  if result.1 then some result.2 else none

variable {after : Writer}

theorem taken_eq {result : Bool × Writer} (done : taken result = some after) : result = (true, after) := by
  obtain ⟨accepted, writer⟩ := result
  cases accepted with
  | false => cases done
  | true =>
    cases done
    rfl

def accept (w : Writer) : Call → Option Writer
  | .video frame => taken (w.writeVideo frame.data frame.ptsUs frame.keyframe)
  | .audio packet => taken (w.writeAudio packet.data packet.samples)

variable {w : Writer}

theorem dataAppend_eq {data : List UInt8} {off : Nat} (taken : w.dataAppend data = some (off, after)) :
    w.video.length + w.audio.length < maxSamples ∧ off = w.data.length ∧ after = { w with data := w.data ++ data } := by
  rw [dataAppend] at taken
  split at taken
  · cases taken
  split at taken
  · cases taken
  next few =>
  cases taken
  exact ⟨Nat.lt_of_not_le few, rfl, rfl⟩

/-- The frames recorded before a frame, with the last one's duration known. -/
def earlier (w : Writer) (ptsUs : Int) : List WSample :=
  if w.haveVideo then setLastDur w.video (frameDur (ptsUs - w.lastPtsUs)) else w.video

theorem accept_video {frame : Frame} (done : w.accept (.video frame) = some after) :
    w.width ≠ 0 ∧ (w.haveVideo = false → frame.keyframe = true) ∧
      (w.earlier frame.ptsUs).length + w.audio.length < maxSamples ∧
      after = { w with
        data := w.data ++ frame.data
        video := w.earlier frame.ptsUs ++ [⟨w.data.length, frame.data.length, videoTimescale / 30, frame.keyframe⟩]
        lastPtsUs := frame.ptsUs
        haveVideo := true } := by
  have clock : ∀ {ready : Writer}, w.advance frame.ptsUs frame.keyframe = some ready →
      w.width ≠ 0 ∧ (w.haveVideo = false → frame.keyframe = true) ∧ ready = { w with
          video := w.earlier frame.ptsUs
          lastPtsUs := frame.ptsUs
          haveVideo := true } := by
    intro ready advanced
    rw [advance] at advanced
    rw [earlier]
    cases started : w.haveVideo with
    | false =>
      cases key : frame.keyframe with
      | false =>
        rw [started, key] at advanced
        split at advanced
        · cases advanced
        · cases advanced
      | true =>
        rw [started, key] at advanced
        split at advanced
        · cases advanced
        next wide =>
        cases advanced
        exact ⟨wide, fun _ => rfl, rfl⟩
    | true =>
      rw [started] at advanced
      split at advanced
      · cases advanced
      next wide =>
      rw [if_neg (by decide)] at advanced
      split at advanced
      · cases advanced
      · cases advanced
        exact ⟨wide, fun no => Bool.noConfusion no, by rw [if_pos rfl]⟩
  have written := taken_eq done
  rw [writeVideo] at written
  cases advanced : w.advance frame.ptsUs frame.keyframe with
  | none =>
    simp [advanced] at written
  | some ready =>
    obtain ⟨wide, opening, same⟩ := clock advanced
    rw [advanced] at written
    dsimp only at written
    cases appended : ready.dataAppend frame.data with
    | none =>
      simp [appended] at written
    | some result =>
      obtain ⟨few, place, kept⟩ := dataAppend_eq appended
      rw [appended] at written
      cases written
      rw [kept, place, same]
      rw [same] at few
      exact ⟨wide, opening, few, rfl⟩

theorem accept_audio {packet : Packet} (done : w.accept (.audio packet) = some after) :
    w.video.length + w.audio.length < maxSamples ∧ after = { w with
        data := w.data ++ packet.data
        audio := w.audio ++ [⟨w.data.length, packet.data.length, packet.samples.toNat, true⟩] } := by
  have written := taken_eq done
  rw [writeAudio] at written
  split at written
  · cases written
  cases appended : w.dataAppend packet.data with
  | none =>
    simp [appended] at written
  | some result =>
    obtain ⟨few, place, kept⟩ := dataAppend_eq appended
    rw [appended] at written
    cases written
    rw [kept, place]
    exact ⟨few, rfl⟩

end Writer

def bytesAt (data : List UInt8) (off size : Nat) : List UInt8 := (data.drop off).take size

variable {data : List UInt8} {t : List WSample} {held : List (List UInt8)} {opened w : Writer} {calls : List Call}

theorem bytesAt_append {off size : Nat} (inside : off + size ≤ data.length) (more : List UInt8) :
    bytesAt (data ++ more) off size = bytesAt data off size := by
  rw [bytesAt, bytesAt, drop_append_of_le_length (by omega), take_append_of_le_length]
  rw [length_drop]
  omega

theorem bytesAt_here (data more : List UInt8) : bytesAt (data ++ more) data.length more.length = more := by
  rw [bytesAt, drop_left, take_length]

theorem bytesAt_behind (front data : List UInt8) (off size : Nat) :
    bytesAt (front ++ data) (front.length + off) size = bytesAt data off size := by
  rw [bytesAt, bytesAt, ← drop_drop, drop_left]

theorem map_setLastDur {α : Type} {of : WSample → α} (ignores : ∀ s dur, of { s with dur := dur } = of s)
    (t : List WSample) (dur : Nat) : (setLastDur t dur).map of = t.map of := by
  induction t using List.reverseRecOn with
  | nil => rfl
  | append_singleton t last ih =>
    rw [setLastDur, getLast?_concat]
    rw [dropLast_concat, map_append, map_append, map_singleton, map_singleton, ignores]

theorem dur_setLastDur (present : t ≠ []) (dur : Nat) :
    (setLastDur t dur).map WSample.dur = (t.map WSample.dur).dropLast ++ [dur] := by
  induction t using List.reverseRecOn with
  | nil => exact absurd rfl present
  | append_singleton t last ih =>
    rw [setLastDur, getLast?_concat]
    rw [dropLast_concat, map_append, map_append, map_singleton, map_singleton, dropLast_concat]

structure Held (data : List UInt8) (t : List WSample) (held : List (List UInt8)) : Prop where
  bytes : t.map (fun s => bytesAt data s.off s.size) = held
  inside : ∀ s ∈ t, s.off + s.size ≤ data.length

theorem Held.grow (holds : Held data t held) (more : List UInt8) : Held (data ++ more) t held := by
  constructor
  · rw [← holds.bytes]
    apply map_congr_left
    intro s member
    exact bytesAt_append (holds.inside s member) more
  · intro s member
    rw [length_append]
    exact (holds.inside s member).trans (Nat.le_add_right _ _)

theorem Held.add (holds : Held data t held) (more : List UInt8) (dur : Nat) (sync : Bool) :
    Held (data ++ more) (t ++ [⟨data.length, more.length, dur, sync⟩]) (held ++ [more]) := by
  have grown := holds.grow more
  constructor
  · rw [map_append, grown.bytes, map_singleton, bytesAt_here]
  · intro s member
    cases mem_append.mp member with
    | inl old => exact grown.inside s old
    | inr new =>
      rw [mem_singleton.mp new, length_append]

theorem Held.setLastDur (holds : Held data t held) (dur : Nat) : Held data (setLastDur t dur) held := by
  constructor
  · rw [map_setLastDur fun _ _ => rfl]
    exact holds.bytes
  · intro s member
    have placed : (s.off, s.size) ∈ t.map fun s => (s.off, s.size) := by
      rw [← map_setLastDur (fun _ _ => rfl) t dur]
      exact mem_map.mpr ⟨s, member, rfl⟩
    obtain ⟨old, listed, same⟩ := mem_map.mp placed
    have inside := holds.inside old listed
    obtain ⟨off, size⟩ := Prod.mk.inj same
    omega

structure Recorded (opened : Writer) (filmed : List Frame) (spoken : List Packet) (w : Writer) : Prop where
  width : w.width = opened.width
  height : w.height = opened.height
  few : w.video.length + w.audio.length ≤ maxSamples
  started : w.haveVideo = true ↔ filmed ≠ []
  sized : filmed ≠ [] → opened.width ≠ 0
  last : ∀ frame, filmed.getLast? = some frame → w.lastPtsUs = frame.ptsUs
  first : ∀ frame, filmed.head? = some frame → frame.keyframe = true
  video : Held w.data w.video (filmed.map Frame.data)
  videoTimes : w.video.map dur = frameDurations (filmed.map Frame.ptsUs)
  videoSyncs : w.video.map sync = filmed.map Frame.keyframe
  audio : Held w.data w.audio (spoken.map Packet.data)
  audioTimes : w.audio.map dur = spoken.map fun packet => packet.samples.toNat
  audioSyncs : w.audio.map sync = spoken.map fun _ => true

variable {filmed : List Frame} {spoken : List Packet}

theorem Recorded.length_video (recorded : Recorded opened filmed spoken w) : w.video.length = filmed.length := by
  have same := congrArg List.length recorded.videoSyncs
  rwa [length_map, length_map] at same

theorem Recorded.earlier (recorded : Recorded opened filmed spoken w) (ptsUs : Int) :
    Held w.data (w.earlier ptsUs) (filmed.map Frame.data) ∧ (w.earlier ptsUs).map dur ++ [videoTimescale / 30] =
        frameDurations (filmed.map Frame.ptsUs ++ [ptsUs]) ∧
      (w.earlier ptsUs).map sync = filmed.map Frame.keyframe ∧
      (w.earlier ptsUs).length = w.video.length := by
  cases before : w.haveVideo with
  | false =>
    have none : filmed = [] := by
      by_contra some
      simp [recorded.started.mpr some] at before
    rw [Writer.earlier, before, if_neg (by decide)]
    refine ⟨recorded.video, ?_, recorded.videoSyncs, rfl⟩
    rw [recorded.videoTimes, none]
    rfl
  | true =>
    have some := recorded.started.mp before
    have present : w.video ≠ [] := by
      intro empty
      apply some
      have length := recorded.length_video
      rw [empty] at length
      exact length_eq_zero_iff.mp length.symm
    rw [Writer.earlier, before, if_pos rfl]
    refine ⟨recorded.video.setLastDur _, ?_, ?_, ?_⟩
    · obtain ⟨front, lastFrame, split⟩ : ∃ front lastFrame, filmed = front ++ [lastFrame] :=
        ⟨_, _, (dropLast_append_getLast some).symm⟩
      have lastPts := recorded.last lastFrame (by rw [split, getLast?_concat])
      rw [dur_setLastDur present, recorded.videoTimes, lastPts, split, map_append,
        map_singleton, frameDurations_append, append_assoc]
      rfl
    · rw [map_setLastDur fun _ _ => rfl]
      exact recorded.videoSyncs
    · have same : (setLastDur w.video _).map WSample.sync = w.video.map WSample.sync :=
        map_setLastDur (fun _ _ => rfl) w.video (frameDur (ptsUs - w.lastPtsUs))
      have lengths := congrArg List.length same
      rwa [length_map, length_map] at lengths

theorem Recorded.accept {after : Writer} {call : Call} (recorded : Recorded opened (frames calls) (packets calls) w)
    (done : w.accept call = some after) :
    Recorded opened (frames (calls ++ [call])) (packets (calls ++ [call])) after := by
  rw [frames_append, packets_append]
  cases call with
  | video frame =>
    obtain ⟨wide, opening, few, same⟩ := accept_video done
    obtain ⟨held, times, syncs, length⟩ := recorded.earlier frame.ptsUs
    change Recorded opened (frames calls ++ [frame]) (packets calls ++ []) after
    rw [same, append_nil]
    refine { recorded with few := ?_, started := ?_, sized := fun _ => recorded.width ▸ wide, last := ?_, first := ?_
                           video := ?_, videoTimes := ?_, videoSyncs := ?_, audio := recorded.audio.grow frame.data }
    · rw [length_append]
      dsimp only [length_singleton]
      omega
    · exact ⟨fun _ => concat_ne_nil _ _, fun _ => rfl⟩
    · intro other last
      rw [getLast?_concat] at last
      rw [← some.inj last]
    · intro other first
      cases before : frames calls with
      | nil =>
        rw [before] at first
        rw [← some.inj first]
        apply opening
        by_contra running
        exact recorded.started.mp (Bool.eq_true_of_not_eq_false running) before
      | cons earliest rest =>
        apply recorded.first other
        rw [before] at first ⊢
        exact first
    · rw [map_append]
      exact held.add frame.data _ _
    · rw [map_append, map_append]
      exact times
    · rw [map_append, map_append, syncs]
      rfl
  | audio packet =>
    obtain ⟨few, same⟩ := accept_audio done
    change Recorded opened (frames calls ++ []) (packets calls ++ [packet]) after
    rw [same, append_nil]
    refine { recorded with few := ?_, video := recorded.video.grow packet.data, audio := ?_, audioTimes := ?_
                           audioSyncs := ?_ }
    · rw [length_append]
      dsimp only [length_singleton]
      omega
    · rw [map_append]
      exact recorded.audio.add packet.data _ _
    · rw [map_append, map_append, recorded.audioTimes]
      rfl
    · rw [map_append, map_append, recorded.audioSyncs]
      rfl

def Opened (w : Writer) : Prop :=
  (∃ width height, writerOpen width height = some w) ∨ ∃ rate, writerOpenAudio rate = some w

theorem Opened.size (opened : Opened w) : (w.width ≠ 0 → w.width < 2 ^ 16 ∧ w.height ≠ 0 ∧ w.height < 2 ^ 16) ∧
      (w.width = 0 → w.height = 0) := by
  cases opened with
  | inl made =>
    obtain ⟨width, height, same⟩ := made
    rw [writerOpen] at same
    split at same
    · cases same
    next sized =>
    cases same
    dsimp only
    omega
  | inr made =>
    obtain ⟨rate, same⟩ := made
    rw [writerOpenAudio] at same
    split at same
    · cases same
    · cases same
      exact ⟨fun wide => absurd rfl wide, fun _ => rfl⟩

theorem Opened.recorded (opened : Opened w) : Recorded w [] [] w := by
  have empty : w.data = [] ∧ w.video = [] ∧ w.audio = [] ∧ w.haveVideo = false := by
    cases opened with
    | inl made =>
      obtain ⟨width, height, same⟩ := made
      rw [writerOpen] at same
      split at same
      · cases same
      · cases same
        exact ⟨rfl, rfl, rfl, rfl⟩
    | inr made =>
      obtain ⟨rate, same⟩ := made
      rw [writerOpenAudio] at same
      split at same
      · cases same
      · cases same
        exact ⟨rfl, rfl, rfl, rfl⟩
  obtain ⟨data, video, audio, started⟩ := empty
  have nothing : Held w.data [] [] := ⟨rfl, fun s member => absurd member not_mem_nil⟩
  constructor <;> simp [video, audio, started, nothing, frameDurations]

theorem Recorded.sound (made : Opened opened) (recorded : Recorded opened filmed spoken w) : Sound w := by
  obtain ⟨sized, unsized⟩ := made.size
  constructor
  · rw [recorded.width, recorded.height]
    exact sized
  · intro narrow
    rw [recorded.width] at narrow
    refine ⟨recorded.height.trans (unsized narrow), ?_⟩
    have none : filmed = [] := by
      by_contra some
      exact recorded.sized some narrow
    have length := recorded.length_video
    rw [none] at length
    exact length_eq_zero_iff.mp length
  · exact recorded.few
  · intro s member
    have listed := mem_map_of_mem (f := dur) member
    rw [recorded.videoTimes] at listed
    exact frameDurations_lt listed
  · intro s member
    have listed := mem_map_of_mem (f := dur) member
    rw [recorded.audioTimes] at listed
    obtain ⟨packet, -, same⟩ := mem_map.mp listed
    rw [← same]
    exact packet.samples.toNat_lt
  · exact recorded.video.inside
  · exact recorded.audio.inside
  · intro s first
    have flags := congrArg List.head? recorded.videoSyncs
    rw [head?_map, first, head?_map] at flags
    obtain ⟨frame, head, same⟩ := map_eq_some_iff.mp flags.symm
    rw [← same]
    exact recorded.first frame head
  · intro s member
    have listed := mem_map_of_mem (f := sync) member
    rw [recorded.audioSyncs] at listed
    obtain ⟨packet, -, same⟩ := mem_map.mp listed
    exact same.symm

structure Reads (file : List UInt8) (t : Track) (held : List (List UInt8)) (durations : List Nat)
    (syncs : List Bool) : Prop where
  inside : ∀ s ∈ t.samples, s.offset + s.size ≤ file.length
  bytes : t.samples.map (fun s => bytesAt file s.offset s.size) = held
  durations : t.samples.map Sample.duration = durations
  syncs : t.samples.map Sample.sync = syncs
  dts : ∀ i (inside : i < t.samples.length), t.samples[i].dts = ((t.samples.take i).map Sample.duration).sum

/-- A file has a track where there are samples for it. -/
def Carries (file : List UInt8) (track : Option Track) (held : List (List UInt8))
    (durations : List Nat) (syncs : List Bool) : Prop :=
  (track.isSome = true ↔ held ≠ []) ∧ ∀ t ∈ track, Reads file t held durations syncs

theorem Held.reads (holds : Held data t held) (front : List UInt8) (timescale duration : Nat) :
    Reads (front ++ data) ⟨timescale, readBack (fun s => front.length + s.off) 0 t, duration⟩ held
      (t.map dur) (t.map sync) := by
  constructor
  · intro s member
    have placed : (readBack (fun s => front.length + s.off) 0 t).map (fun s => (s.offset, s.size)) =
        t.map fun s => (front.length + s.off, s.size) := map_readBack (fun _ _ => rfl) 0 t
    have listed : (s.offset, s.size) ∈ t.map fun s => (front.length + s.off, s.size) := by
      rw [← placed]
      exact mem_map.mpr ⟨s, member, rfl⟩
    obtain ⟨stored, known, same⟩ := mem_map.mp listed
    obtain ⟨off, size⟩ := Prod.mk.inj same
    have inside := holds.inside stored known
    rw [length_append]
    omega
  · have bytes : (readBack (fun s => front.length + s.off) 0 t).map (fun s => bytesAt (front ++ data) s.offset s.size) =
        t.map fun s => bytesAt (front ++ data) (front.length + s.off) s.size :=
      map_readBack (fun _ _ => rfl) 0 t
    rw [bytes, ← holds.bytes]
    apply map_congr_left
    intro s _
    exact bytesAt_behind front data s.off s.size
  · exact map_readBack (fun _ _ => rfl) 0 t
  · exact map_readBack (fun _ _ => rfl) 0 t
  · intro i inside
    exact (dts_readBack _ 0 t i inside).trans (Nat.zero_add _)

theorem Held.carries (holds : Held data t held) (front : List UInt8) (timescale duration : Nat) :
    Carries (front ++ data) (if t.length ≠ 0 then
        some ⟨timescale, readBack (fun s => front.length + s.off) 0 t, duration⟩ else none)
      held (t.map dur) (t.map sync) := by
  have same : t.length = held.length := by
    rw [← holds.bytes, length_map]
  by_cases present : t.length ≠ 0
  · rw [if_pos present]
    constructor
    · exact ⟨fun _ empty => present (same.trans (length_eq_zero_iff.mpr empty)), fun _ => rfl⟩
    · intro track found
      cases found
      exact holds.reads front timescale duration
  · rw [if_neg present]
    have empty := same.symm.trans (Decidable.not_not.mp present)
    constructor
    · exact ⟨fun no => Bool.noConfusion no, fun some => absurd (length_eq_zero_iff.mp empty) some⟩
    · exact fun track no => absurd no (not_mem_none track)

theorem mp4_round_trip {opened w : Writer} {calls : List Call} {file : List UInt8} {ms : Nat}
    (made : Opened opened) (run : Machine.Run accept (fun _ _ => True) opened calls w)
    (finished : w.finish = some (file, ms)) :
    ∃ info, parse file = some info ∧ info.width = opened.width ∧ info.height = opened.height ∧
      Carries file info.video ((frames calls).map Frame.data)
        (frameDurations ((frames calls).map Frame.ptsUs)) ((frames calls).map Frame.keyframe) ∧
      Carries file info.audio ((packets calls).map Packet.data)
        ((packets calls).map fun packet => packet.samples.toNat) ((packets calls).map fun _ => true) ∧
      info.durationMs = ms := by
  have recorded := run.invariant (fun calls => Recorded opened (frames calls) (packets calls)) made.recorded
    (fun _ _ _ _ recorded _ done => recorded.accept done)
  have sound := recorded.sound made
  rw [w.finish_eq] at finished
  split at finished
  · next fits =>
    cases finished
    obtain ⟨width, height⟩ := found_size sound fits.1 w.base
    obtain ⟨front, split, length⟩ : ∃ front, w.fileBytes w.base = front ++ w.data ∧ front.length = w.base := by
      have ending : w.fileBytes w.base = (Boxes.box tagFtyp ftypBytes ++ (Boxes.box tagMoov (w.moovBytes w.base) ++
            (BigEndian.encode 4 (8 + w.data.length) ++ tagMdat.bytes))) ++ w.data := by
        rw [fileBytes, append_nil, Boxes.box, Boxes.box, Boxes.box]
        simp only [append_assoc]
      refine ⟨_, ending, ?_⟩
      have total := w.length_fileBytes w.base
      rw [ending, length_append] at total
      exact Nat.add_right_cancel total
    have video := recorded.video.carries front videoTimescale (trackDuration w.video)
    have audio := recorded.audio.carries front audioTimescale (trackDuration w.audio)
    rw [← split, length, ← found_video, recorded.videoTimes, recorded.videoSyncs] at video
    rw [← split, length, ← found_audio, recorded.audioTimes, recorded.audioSyncs] at audio
    exact ⟨_, parse_fileBytes sound fits.1 fits.2, width.trans recorded.width,
      height.trans recorded.height, video, audio, rfl⟩
  · cases finished

/-- A keyframe, a packet of sound and a second frame, and what comes back of them. -/
theorem mp4_round_trip_two_tracks : ∃ opened w file ms info, Opened opened ∧ Machine.Run accept (fun _ _ => True) opened
      [.video ⟨[1, 2], 0, true⟩, .audio ⟨[3], 960⟩, .video ⟨[4], 40000, false⟩] w ∧
    w.finish = some (file, ms) ∧ parse file = some info ∧ info.width = 16 ∧
    Carries file info.video [[1, 2], [4]] [3600, 3000] [true, false] ∧
    Carries file info.audio [[3]] [960] [true] ∧ info.durationMs = ms := by
  obtain ⟨opened, made⟩ : ∃ opened, writerOpen 16 16 = some opened := ⟨_, rfl⟩
  have finishes : (Machine.follow accept (fun _ _ => true) opened
      [.video ⟨[1, 2], 0, true⟩, .audio ⟨[3], 960⟩, .video ⟨[4], 40000, false⟩]).map
      (fun w => decide (w.missing = false ∧ w.base + w.data.length ≤ maxFile)) = some true := by
    cases made
    decide +kernel
  obtain ⟨w, followed, fits⟩ := map_eq_some_iff.mp finishes
  have run := Machine.Run.nil.of_follow (fun _ _ _ => trivial) followed
  have finished := w.finish_eq
  rw [if_pos (of_decide_eq_true fits)] at finished
  obtain ⟨info, parsed, width, -, video, audio, duration⟩ := mp4_round_trip (Or.inl ⟨16, 16, made⟩) run finished
  cases made
  exact ⟨_, w, _, _, info, Or.inl ⟨16, 16, rfl⟩, run, finished, parsed, width, video, audio, duration⟩

namespace Writer

def call (w : Writer) : Call → Bool × Writer
  | .video frame => w.writeVideo frame.data frame.ptsUs frame.keyframe
  | .audio packet => w.writeAudio packet.data packet.samples

/-- A call whose bytes `data_append` takes, or that is refused before the clock of the video moves. A
frame at the very time of the last one moves nothing when that one already lasts one tick. -/
def Clean (w : Writer) : Call → Prop
  | .video frame => (w.dataAppend frame.data).isSome = true ∨ w.width = 0 ∨
      (w.haveVideo = false ∧ frame.keyframe = false) ∨
      (w.haveVideo = true ∧ (frame.ptsUs < w.lastPtsUs ∨ frame.ptsUs = w.lastPtsUs ∧ setLastDur w.video 1 = w.video))
  | .audio _ => True

theorem advance_cases (w : Writer) (ptsUs : Int) (keyframe : Bool) :
    (w.advance ptsUs keyframe = none ∧ (w.width = 0 ∨ (w.haveVideo = false ∧ keyframe = false) ∨
        (w.haveVideo = true ∧ ptsUs < w.lastPtsUs))) ∨
      (w.width ≠ 0 ∧ w.haveVideo = false ∧ keyframe = true ∧
        w.advance ptsUs keyframe = some { w with lastPtsUs := ptsUs, haveVideo := true }) ∨
      (w.width ≠ 0 ∧ w.haveVideo = true ∧ ¬ptsUs < w.lastPtsUs ∧ w.advance ptsUs keyframe = some { w with
          video := setLastDur w.video (frameDur (ptsUs - w.lastPtsUs))
          lastPtsUs := ptsUs }) := by
  rw [advance]
  split
  · next narrow => exact Or.inl ⟨rfl, Or.inl narrow⟩
  next wide =>
  cases started : w.haveVideo with
  | false =>
    cases keyframe with
    | false => exact Or.inl ⟨rfl, Or.inr (Or.inl ⟨rfl, rfl⟩)⟩
    | true => exact Or.inr (Or.inl ⟨wide, rfl, rfl, rfl⟩)
  | true =>
    rw [if_neg (by decide)]
    split
    · next back => exact Or.inl ⟨rfl, Or.inr (Or.inr ⟨rfl, back⟩)⟩
    · next on => exact Or.inr (Or.inr ⟨wide, rfl, on, by rw [← started]⟩)

theorem length_setLastDur (t : List WSample) (dur : Nat) : (setLastDur t dur).length = t.length := by
  have same := congrArg List.length (@map_setLastDur Unit (fun _ => ()) (fun _ _ => rfl) t dur)
  rwa [length_map, length_map] at same

variable {w : Writer}

theorem isSome_dataAppend {ready : Writer} (data : List UInt8) (same : ready.data = w.data)
    (frames : ready.video.length = w.video.length) (packets : ready.audio = w.audio) :
    (ready.dataAppend data).isSome = (w.dataAppend data).isSome := by
  rw [dataAppend, dataAppend, same, frames, packets]
  split
  · rfl
  split
  · rfl
  · rfl

/-- A refused frame leaves the writer as it was exactly when it was clean. -/
theorem writeVideo_keeps_iff {frame : Frame} (refused : (w.call (.video frame)).1 = false) :
    (w.call (.video frame)).2 = w ↔ w.Clean (.video frame) := by
  rw [call, writeVideo] at refused ⊢
  obtain ⟨stays, early⟩ | ⟨wide, unstarted, key, moved⟩ | ⟨wide, started, on, moved⟩ :=
    w.advance_cases frame.ptsUs frame.keyframe
  · rw [stays]
    refine iff_of_true rfl (Or.inr ?_)
    exact early.imp_right (Or.imp_right (And.imp_right Or.inl))
  · have sizes := @isSome_dataAppend w { w with lastPtsUs := frame.ptsUs, haveVideo := true } frame.data rfl rfl rfl
    rw [moved] at refused ⊢
    dsimp only at refused ⊢
    split at refused
    · next full =>
      rw [full] at sizes
      refine iff_of_false (fun same => ?_) ?_
      · have flag := congrArg haveVideo same
        rw [unstarted] at flag
        cases flag
      · rintro (fits | narrow | ⟨-, noKey⟩ | ⟨started, -⟩)
        · rw [← sizes] at fits
          cases fits
        · exact wide narrow
        · rw [key] at noKey
          cases noKey
        · rw [unstarted] at started
          cases started
    · cases refused
  · have sizes := @isSome_dataAppend w { w with
        video := setLastDur w.video (frameDur (frame.ptsUs - w.lastPtsUs)), lastPtsUs := frame.ptsUs }
      frame.data rfl (length_setLastDur _ _) rfl
    rw [moved] at refused ⊢
    dsimp only at refused ⊢
    split at refused
    · next full =>
      rw [full] at sizes
      constructor
      · intro same
        have time : frame.ptsUs = w.lastPtsUs := congrArg lastPtsUs same
        have last := congrArg video same
        rw [time, Int.sub_self] at last
        exact Or.inr (Or.inr (Or.inr ⟨started, Or.inr ⟨time, last⟩⟩))
      · rintro (fits | narrow | ⟨unstarted, -⟩ | ⟨-, back | ⟨time, last⟩⟩)
        · rw [← sizes] at fits
          cases fits
        · exact absurd narrow wide
        · rw [started] at unstarted
          cases unstarted
        · exact absurd back on
        · have one : frameDur (w.lastPtsUs - w.lastPtsUs) = 1 := by
            rw [Int.sub_self]
            rfl
          rw [time, one, last]
    · cases refused

theorem call_audio_refused {packet : Packet} (refused : (w.call (.audio packet)).1 = false) :
    (w.call (.audio packet)).2 = w := by
  rw [call, writeAudio] at refused ⊢
  split
  · rfl
  next sounds =>
  rw [if_neg sounds] at refused
  split at refused
  · rfl
  · cases refused

theorem Clean.started {next : Call} (clean : w.Clean next) (holds : w.haveVideo = true → w.video ≠ []) :
    (w.call next).2.haveVideo = true → (w.call next).2.video ≠ [] := by
  cases taken : (w.call next).1 with
  | false =>
    cases next with
    | video frame => rwa [(writeVideo_keeps_iff taken).mpr clean]
    | audio packet => rwa [call_audio_refused taken]
  | true =>
    have done : w.accept next = some (w.call next).2 := by
      cases next with
      | video frame => exact if_pos taken
      | audio packet => exact if_pos taken
    cases next with
    | video frame =>
      rw [(accept_video done).2.2.2]
      exact fun _ => append_ne_nil_of_right_ne_nil _ (cons_ne_nil _ _)
    | audio packet =>
      rw [(accept_audio done).2]
      exact holds

end Writer

/-- Along clean calls a started video track has a frame, and a call that is refused changes nothing
exactly when it is clean itself. -/
theorem mp4_refused_keeps_iff {opened w : Writer} {calls : List Call} (made : Opened opened)
    (run : Machine.Run (fun w call => some (w.call call).2) Writer.Clean opened calls w) :
    (w.haveVideo = true → w.video ≠ []) ∧ ∀ call, (w.call call).1 = false → ((w.call call).2 = w ↔ w.Clean call) := by
  refine ⟨?_, ?_⟩
  · apply run.invariant fun _ w => w.haveVideo = true → w.video ≠ []
    · intro started
      exact absurd rfl (made.recorded.started.mp started)
    · intro _ next state after holds clean step
      cases step
      exact clean.started holds
  · intro call refused
    cases call with
    | video frame => exact writeVideo_keeps_iff refused
    | audio packet => exact iff_of_true (call_audio_refused refused) trivial

private def smallest : Writer := ⟨[], 1, 1, audioTimescale, [], [], 0, false⟩

private def oneFrame : Writer := (smallest.call (.video ⟨[1], 5, true⟩)).2

/-- After a frame that is taken, one from before it. -/
theorem mp4_refused_keeps_earlier : (smallest.call (.video ⟨[1], 5, true⟩)).1 = true ∧
      (oneFrame.call (.video ⟨[1], 4, false⟩)).1 = false ∧ (oneFrame.call (.video ⟨[1], 4, false⟩)).2 = oneFrame := by
  have taken : Machine.Run (fun w call => some (w.call call).2) Writer.Clean smallest [.video ⟨[1], 5, true⟩]
    oneFrame :=
    Machine.Run.nil.snoc (Or.inl rfl) rfl
  have clean := mp4_refused_keeps_iff (Or.inl ⟨1, 1, rfl⟩ : Opened smallest) taken
  exact ⟨rfl, rfl, (clean.2 _ rfl).mpr (Or.inr (Or.inr (Or.inr ⟨rfl, Or.inl (by decide)⟩)))⟩

/-- A first keyframe without bytes is refused, and the track counts as started: the next frame sets
the duration of a frame before the first. -/
theorem mp4_refused_first_starts : writerOpen 1 1 = some smallest ∧ (smallest.call (.video ⟨[], 0, true⟩)).1 = false ∧
      (smallest.call (.video ⟨[], 0, true⟩)).2.haveVideo = true ∧
      (smallest.call (.video ⟨[], 0, true⟩)).2.video = [] := by
  exact ⟨rfl, rfl, rfl, rfl⟩

end OpenChime.Shared.Mp4
