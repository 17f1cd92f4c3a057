import OpenChime.Lib.Boxes
import OpenChime.Shared.Text

/-! The writer of the restricted MP4 a video message is stored in (`shared/oc_mp4.c`). Memory that
runs out makes a call fail and is left out: a file is only written when it did not. -/

set_option autoImplicit false

namespace OpenChime.Shared.Mp4

open Boxes

def videoTimescale : Nat := 90000
def audioTimescale : Nat := 48000
def opusPreskip : Nat := 312
def maxSamples : Nat := 200000
def maxFile : Nat := 256 * 1024 * 1024

def tagFtyp : Tag := ⟨text "ftyp", rfl⟩
def tagMoov : Tag := ⟨text "moov", rfl⟩
def tagMdat : Tag := ⟨text "mdat", rfl⟩
def tagMvhd : Tag := ⟨text "mvhd", rfl⟩
def tagTrak : Tag := ⟨text "trak", rfl⟩
def tagTkhd : Tag := ⟨text "tkhd", rfl⟩
def tagEdts : Tag := ⟨text "edts", rfl⟩
def tagElst : Tag := ⟨text "elst", rfl⟩
def tagMdia : Tag := ⟨text "mdia", rfl⟩
def tagMdhd : Tag := ⟨text "mdhd", rfl⟩
def tagHdlr : Tag := ⟨text "hdlr", rfl⟩
def tagMinf : Tag := ⟨text "minf", rfl⟩
def tagVmhd : Tag := ⟨text "vmhd", rfl⟩
def tagSmhd : Tag := ⟨text "smhd", rfl⟩
def tagDinf : Tag := ⟨text "dinf", rfl⟩
def tagDref : Tag := ⟨text "dref", rfl⟩
def tagUrl : Tag := ⟨text "url ", rfl⟩
def tagStbl : Tag := ⟨text "stbl", rfl⟩
def tagStsd : Tag := ⟨text "stsd", rfl⟩
def tagVp09 : Tag := ⟨text "vp09", rfl⟩
def tagVpcC : Tag := ⟨text "vpcC", rfl⟩
def tagOpus : Tag := ⟨text "Opus", rfl⟩
def tagDOps : Tag := ⟨text "dOps", rfl⟩
def tagStts : Tag := ⟨text "stts", rfl⟩
def tagStss : Tag := ⟨text "stss", rfl⟩
def tagStsc : Tag := ⟨text "stsc", rfl⟩
def tagStsz : Tag := ⟨text "stsz", rfl⟩
def tagStco : Tag := ⟨text "stco", rfl⟩
def tagVide : Tag := ⟨text "vide", rfl⟩
def tagSoun : Tag := ⟨text "soun", rfl⟩

def u8 (v : Nat) : Put := raw (BigEndian.encode 1 v)
def u16 (v : Nat) : Put := raw (BigEndian.encode 2 v)
def u32 (v : Nat) : Put := raw (BigEndian.encode 4 v)
def fourcc (tag : Tag) : Put := raw tag.bytes
def zeros (n : Nat) : Put := raw (List.replicate n 0)

/-- `fullbox_begin` … `box_end` -/
def fullboxed (tag : Tag) (version flags : Nat) (body : List Put) : Put :=
  boxed tag (inOrder (u32 (version <<< 24 ||| flags &&& 0xFFFFFF) :: body))

def unityMatrix : Put :=
  inOrder [u32 0x00010000, u32 0, u32 0, u32 0, u32 0x00010000, u32 0, u32 0, u32 0, u32 0x40000000]

structure WSample where
  off : Nat
  size : Nat
  dur : Nat
  sync : Bool
  deriving DecidableEq

structure Writer where
  data : List UInt8
  width : Nat
  height : Nat
  inputRate : Nat
  video : List WSample
  audio : List WSample
  lastPtsUs : Int
  haveVideo : Bool

def writerOpen (width height : Int) : Option Writer :=
  if width ≤ 0 ∨ height ≤ 0 ∨ width > 65535 ∨ height > 65535 then none
  else some ⟨[], width.toNat, height.toNat, audioTimescale, [], [], 0, false⟩

def writerOpenAudio (inputRate : UInt32) : Option Writer :=
  if inputRate = 0 then none else some ⟨[], 0, 0, inputRate.toNat, [], [], 0, false⟩

namespace Writer

/-- `data_append`: the offset the bytes are at. -/
def dataAppend (w : Writer) (data : List UInt8) : Option (Nat × Writer) :=
  if data.length = 0 ∨ data.length > maxFile ∨ w.data.length + data.length > maxFile then none
  else if w.video.length + w.audio.length ≥ maxSamples then none
  else some (w.data.length, { w with data := w.data ++ data })

/-- The last sample's duration is set. With no sample yet, when the first frame was refused, the
source writes in front of its table. -/
def setLastDur (samples : List WSample) (dur : Nat) : List WSample :=
  match samples.getLast? with
  | none => samples
  | some last => samples.dropLast ++ [{ last with dur }]

/-- How long a frame lasts, from the time to the next in microseconds. -/
def frameDur (gapUs : Int) : Nat :=
  let gap := gapUs.toNat % 2 ^ 64
  let d := (gap * videoTimescale + 500000) % 2 ^ 64 / 1000000
  (if d ≠ 0 then d else 1) % 2 ^ 32

/-- The clock of the video track before a frame is stored, `none` for a frame that is refused. -/
def advance (w : Writer) (ptsUs : Int) (keyframe : Bool) : Option Writer :=
  if w.width = 0 then none
  else if !w.haveVideo then
    if !keyframe then none else some { w with lastPtsUs := ptsUs, haveVideo := true }
  else if ptsUs < w.lastPtsUs then none
  else
    some { w with
      video := setLastDur w.video (frameDur (ptsUs - w.lastPtsUs))
      lastPtsUs := ptsUs }

/-- `oc_mp4_write_video`: whether the frame was taken, and the writer then. -/
def writeVideo (w : Writer) (data : List UInt8) (ptsUs : Int) (keyframe : Bool) : Bool × Writer :=
  match w.advance ptsUs keyframe with
  | none => (false, w)
  | some w =>
    match w.dataAppend data with
    | none => (false, w)
    | some (off, w) =>
      (true, { w with
        video := w.video ++ [⟨off, data.length, videoTimescale / 30, keyframe⟩] })

def writeAudio (w : Writer) (data : List UInt8) (samples : UInt32) : Bool × Writer :=
  if samples = 0 then (false, w)
  else
    match w.dataAppend data with
    | none => (false, w)
    | some (off, w) => (true, { w with audio := w.audio ++ [⟨off, data.length, samples.toNat, true⟩] })

end Writer

def trackDuration (t : List WSample) : Nat := (t.map WSample.dur).sum

/-- Runs of equal durations: how many samples, and how long each lasts. -/
def runs : List Nat → List (Nat × Nat)
  | [] => []
  | dur :: durs =>
    match runs durs with
    | [] => [(1, dur)]
    | (count, other) :: rest =>
      if dur = other then (count + 1, other) :: rest else (1, dur) :: (count, other) :: rest

/-- The entries, and their number in front of them once they are there. -/
def sttsBody (entries : List (Nat × Nat)) : Put := fun before =>
  let started := u32 0 before
  let filled := inOrder (entries.map fun entry => inOrder [u32 entry.1, u32 entry.2]) (u32 0 started)
  patch filled started.length entries.length

def writeStts (t : List WSample) : Put := boxed tagStts (sttsBody (runs (t.map WSample.dur)))

/-- The numbers of the samples that are keyframes, from 1. -/
def syncNumbers (t : List WSample) : List Nat := ((t.zipIdx 1).filter fun entry => entry.1.sync).map Prod.snd

def writeSampleTables (t : List WSample) (dataBase : Nat) (video : Bool) : Put :=
  inOrder [writeStts t, if video then
        fullboxed tagStss 0 0 [u32 (t.countP WSample.sync), inOrder ((syncNumbers t).map u32)]
      else inOrder [],
      fullboxed tagStsc 0 0 [u32 1, u32 1, u32 1, u32 1],
      fullboxed tagStsz 0 0 [u32 0, u32 t.length, inOrder (t.map fun s => u32 s.size)],
      fullboxed tagStco 0 0 [u32 t.length, inOrder (t.map fun s => u32 (dataBase + s.off))]]

def writeDinf : Put := boxed tagDinf (fullboxed tagDref 0 0 [u32 1, fullboxed tagUrl 0 1 []])

def writeHdlr (type : Tag) (name : Text) : Put :=
  fullboxed tagHdlr 0 0 [u32 0, fourcc type, zeros 12, raw (name ++ [0])]

def writeTkhd (id durMs : Nat) (video : Bool) (width height : Nat) : Put :=
  fullboxed tagTkhd 0 3
    [u32 0, u32 0, u32 id, u32 0, u32 durMs, zeros 8, u16 0, u16 0, u16 (if video then 0 else 0x0100),
      u16 0, unityMatrix, u32 (if video then width <<< 16 else 0),
      u32 (if video then height <<< 16 else 0)]

def writeMdhd (timescale duration : Nat) : Put :=
  fullboxed tagMdhd 0 0 [u32 0, u32 0, u32 timescale, u32 duration, u16 0x55C4, u16 0]

namespace Writer

variable (w : Writer)

def videoMs : Nat := trackDuration w.video * 1000 / videoTimescale

/-- The audio track's, the decoder's pre-roll taken off. -/
def audioMs : Nat :=
  let adur := trackDuration w.audio
  (if adur > opusPreskip then adur - opusPreskip else 0) * 1000 / audioTimescale

def movieMs : Nat :=
  if w.videoMs > w.audioMs then w.videoMs else w.audioMs

def mvhd : Put :=
  fullboxed tagMvhd 0 0
    [u32 0, u32 0, u32 1000, u32 w.movieMs, u32 0x00010000, u16 0x0100, zeros 10, unityMatrix, zeros 24,
      u32 ((if w.video.length ≠ 0 then 1 else 0) + (if w.audio.length ≠ 0 then 1 else 0) + 1)]

def vp9Level : Nat :=
  let px := w.width * w.height
  if px ≤ 960 * 540 then 30 else if px ≤ 1280 * 720 then 31 else 40

def vpcC : Put := fullboxed tagVpcC 1 0 [u8 0, u8 w.vp9Level, u8 0x82, u8 1, u8 1, u8 1, u16 0]

def videoEntry : Put :=
  boxed tagVp09 (inOrder
    [zeros 6, u16 1, u16 0, u16 0, zeros 12, u16 w.width, u16 w.height, u32 0x00480000,
      u32 0x00480000, u32 0, u16 1, zeros 32, u16 0x0018, u16 0xFFFF,
      w.vpcC])

def videoTrak (id dataBase : Nat) : Put :=
  boxed tagTrak (inOrder [writeTkhd id w.videoMs true w.width w.height,
      boxed tagMdia (inOrder [writeMdhd videoTimescale (trackDuration w.video),
          writeHdlr tagVide (text "OpenChime video"),
          boxed tagMinf (inOrder [fullboxed tagVmhd 0 1 [u16 0, zeros 6], writeDinf, boxed tagStbl (inOrder
                [fullboxed tagStsd 0 0 [u32 1, w.videoEntry], writeSampleTables w.video dataBase true])])])])

def dOps : Put := boxed tagDOps (inOrder [u8 0, u8 1, u16 opusPreskip, u32 w.inputRate, u16 0, u8 0])

def audioEntry : Put :=
  boxed tagOpus (inOrder
    [zeros 6, u16 1, u16 0, u16 0, u32 0, u16 1, u16 16, u16 0, u16 0, u32 (audioTimescale <<< 16), w.dOps])

def audioTrak (id dataBase : Nat) : Put :=
  boxed tagTrak (inOrder [writeTkhd id w.audioMs false 0 0,
      boxed tagEdts (fullboxed tagElst 0 0 [u32 1, u32 w.audioMs, u32 opusPreskip, u16 1, u16 0]),
      boxed tagMdia (inOrder [writeMdhd audioTimescale (trackDuration w.audio),
          writeHdlr tagSoun (text "OpenChime audio"),
          boxed tagMinf (inOrder [fullboxed tagSmhd 0 0 [u16 0, u16 0], writeDinf, boxed tagStbl (inOrder
                [fullboxed tagStsd 0 0 [u32 1, w.audioEntry], writeSampleTables w.audio dataBase false])])])])

def buildMoov (dataBase : Nat) : Put :=
  boxed tagMoov (inOrder [w.mvhd,
      if w.video.length ≠ 0 then w.videoTrak 1 dataBase else inOrder [],
      if w.audio.length ≠ 0 then w.audioTrak (if w.video.length ≠ 0 then 2 else 1) dataBase
      else inOrder []])

def ftyp : Put :=
  boxed tagFtyp (inOrder [raw (text "isom"), u32 0x200, raw (text "isom"), raw (text "iso6"), raw (text "mp41")])

/-- The track the writer was opened for has nothing in it. -/
def missing : Bool :=
  if w.width ≠ 0 then w.video.isEmpty else w.audio.isEmpty

/-- `oc_mp4_writer_finish`: the file and its duration in milliseconds. The movie box is built once
to measure it, and again with the offsets it then knows. -/
def finish : Option (List UInt8 × Nat) :=
  if w.missing then none
  else
    let started := ftyp []
    let moovLen := (w.buildMoov 0 []).length
    let dataBase := started.length + moovLen + 8
    if dataBase + w.data.length ≤ maxFile then
      let file := inOrder [w.buildMoov dataBase, u32 (8 + w.data.length), fourcc tagMdat, raw w.data] started
      if file.length ≠ dataBase + w.data.length then none
      else some (file, w.movieMs % 2 ^ 32)
    else none

end Writer

end OpenChime.Shared.Mp4
