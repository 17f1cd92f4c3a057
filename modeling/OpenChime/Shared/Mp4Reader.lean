import OpenChime.Shared.Mp4Writer

/-! The reader of the restricted MP4 (`shared/oc_mp4.c`). A span is the bytes it spans. -/

set_option autoImplicit false

namespace OpenChime.Shared.Mp4

open Boxes

/-- A number of `width` bytes, when they are all there. -/
def rd (width : Nat) (s : List UInt8) (position : Nat) : Option Nat :=
  if position > s.length ∨ s.length - position < width then none else some (number s position width)

def rd32 (s : List UInt8) (position : Nat) : Option Nat := rd 4 s position

def rd16 (s : List UInt8) (position : Nat) : Option Nat := rd 2 s position

/-- The loop of `child`; every box it passes is at least 8 bytes long. -/
def childFrom (type : Tag) : Nat → List UInt8 → Option (List UInt8)
  | 0, _ => none
  | fuel + 1, rest =>
    if rest.length < 8 then none
    else
      let sz := number rest 0 4
      if sz < 8 ∨ sz > rest.length then none
      else if (rest.drop 4).take 4 = type.bytes then some ((rest.take sz).drop 8)
      else childFrom type fuel (rest.drop sz)

/-- `child`: the payload of the first box of a type directly inside `parent`. -/
def child (parent : List UInt8) (type : Tag) : Option (List UInt8) := childFrom type parent.length parent

def path (root : List UInt8) (types : List Tag) : Option (List UInt8) := types.foldlM child root

/-- `read_table`: how many entries, and their bytes. -/
def readTable (box : List UInt8) (lead entry : Nat) : Option (Nat × List UInt8) := do
  let count ← rd32 box (4 + lead)
  guard (count ≤ maxSamples)
  let start := 8 + lead
  guard (start ≤ box.length ∧ count ≤ (box.length - start) / (if entry ≠ 0 then entry else 1))
  return (count, (box.drop start).take (count * entry))

structure Sample where
  offset : Nat
  size : Nat
  dts : Nat
  duration : Nat
  sync : Bool
  deriving DecidableEq

/-- `oc_mp4_track`, of a track that is present. -/
structure Track where
  timescale : Nat
  samples : List Sample
  duration : Nat
  deriving DecidableEq

structure Info where
  video : Option Track
  audio : Option Track
  width : Nat
  height : Nat
  vp9Profile : Nat
  vp9BitDepth : Nat
  opusChannels : Nat
  opusPreskip : Nat
  durationMs : Nat
  deriving DecidableEq

def noInfo : Info := ⟨none, none, 0, 0, 0, 0, 0, 0, 0⟩

def readSizes (stsz : List UInt8) : Option (List Nat) := do
  let fixedSize ← rd32 stsz 4
  let n ← rd32 stsz 8
  guard (n ≠ 0 ∧ n ≤ maxSamples)
  guard (¬ (fixedSize = 0 ∧ (stsz.length < 12 ∨ (stsz.length - 12) / 4 < n)))
  (List.range n).mapM fun i => if fixedSize = 0 then rd32 stsz (12 + i * 4) else some fixedSize

/-- The durations of runs of samples, of at most `left` samples. -/
def spread : List (Nat × Nat) → Nat → List Nat
  | [], _ => []
  | (count, delta) :: entries, left =>
    let taken := min count left
    List.replicate taken delta ++ spread entries (left - taken)

def readTimes (stts : List UInt8) (n : Nat) : Option (List Nat) := do
  let (count, bytes) ← readTable stts 0 8
  let entries ← (List.range count).mapM fun e => do
    return (← rd32 bytes (e * 8), ← rd32 bytes (e * 8 + 4))
  let durations := spread entries n
  guard (durations.length = n)
  return durations

/-- How many samples a chunk has: the last entry that starts at or before it. -/
def samplesPer (entries : List (Nat × Nat)) (chunk : Nat) : Option Nat :=
  entries.foldlM (fun per entry =>
    if entry.1 = 0 then none else some (if entry.1 - 1 ≤ chunk then entry.2 else per)) 0

/-- The samples of one chunk, one behind the other: their offsets, and the sizes of the samples
that are left. -/
def placeChunk (fileLen : Nat) : Nat → Nat → List Nat → Option (List Nat × List Nat)
  | 0, _, sizes => some ([], sizes)
  | _ + 1, _, [] => some ([], [])
  | per + 1, off, size :: sizes =>
    if off > fileLen ∨ fileLen - off < size then none
    else (placeChunk fileLen per (off + size) sizes).map fun placed => (off :: placed.1, placed.2)

def placeChunks (fileLen : Nat) (entries : List (Nat × Nat)) : List (Nat × Nat) → List Nat → Option (List Nat)
  | _, [] => some []
  | [], _ :: _ => none
  | (chunk, off) :: chunks, size :: sizes => do
      let per ← samplesPer entries chunk
      guard (per ≠ 0 ∧ per ≤ maxSamples)
      let (offsets, left) ← placeChunk fileLen per off (size :: sizes)
      let others ← placeChunks fileLen entries chunks left
      return offsets ++ others

def readOffsets (stco stsc : List UInt8) (fileLen : Nat) (sizes : List Nat) : Option (List Nat) := do
  let (chunks, coBytes) ← readTable stco 0 4
  let (count, scBytes) ← readTable stsc 0 12
  guard (count ≠ 0)
  let entries ← (List.range count).mapM fun e => do
    return (← rd32 scBytes (e * 12), ← rd32 scBytes (e * 12 + 4))
  let offs ← (List.range chunks).mapM fun c => rd32 coBytes (c * 4)
  placeChunks fileLen entries (offs.zipIdx.map Prod.swap) sizes

/-- Which samples are keyframes: those a list names, or all of them. -/
def readSyncs (stbl : List UInt8) (video : Bool) (n : Nat) : Option (List Bool) :=
  match (if video then child stbl tagStss else none) with
  | none => some (List.replicate n true)
  | some stss => do
      let (count, bytes) ← readTable stss 0 4
      let numbers ← (List.range count).mapM fun e => do
        let num ← rd32 bytes (e * 4)
        guard (num ≠ 0 ∧ num ≤ n)
        return num
      return (List.range n).map fun i => i + 1 ∈ numbers

/-- The samples from what is known of each, decoded one after another from `dts` on. -/
def assemble : Nat → List Nat → List Nat → List Nat → List Bool → List Sample
  | dts, off :: offs, size :: sizes, dur :: durs, sync :: syncs =>
    ⟨off, size, dts, dur, sync⟩ :: assemble (dts + dur) offs sizes durs syncs
  | _, _, _, _, _ => []

def parseTrack (stbl : List UInt8) (fileLen : Nat) (video : Bool) (timescale : Nat) : Option Track := do
  let stts ← child stbl tagStts
  let stsz ← child stbl tagStsz
  let stsc ← child stbl tagStsc
  let stco ← child stbl tagStco
  let sizes ← readSizes stsz
  let durations ← readTimes stts sizes.length
  let offsets ← readOffsets stco stsc fileLen sizes
  let syncs ← readSyncs stbl video sizes.length
  guard (¬ (video ∧ syncs.head? ≠ some true))
  return ⟨timescale, assemble 0 offsets sizes durations syncs, durations.sum⟩

def parseVideo (info : Info) (vp09 stbl : List UInt8) (fileLen timescale : Nat) : Option Info := do
  guard info.video.isNone
  let w ← rd16 vp09 24
  let h ← rd16 vp09 26
  guard (w ≠ 0 ∧ h ≠ 0)
  let vpcc ← child (vp09.drop 78) tagVpcC
  guard (12 ≤ vpcc.length)
  let track ← parseTrack stbl fileLen true timescale
  return { info with
    width := w
    height := h
    vp9Profile := (vpcc.getD 4 0).toNat
    vp9BitDepth := (vpcc.getD 6 0).toNat >>> 4
    video := some track }

def parseAudio (info : Info) (opus stbl : List UInt8) (fileLen timescale : Nat) : Option Info := do
  guard info.audio.isNone
  let dops ← child (opus.drop 28) tagDOps
  guard (11 ≤ dops.length ∧ dops.getD 0 0 = 0)
  let channels := (dops.getD 1 0).toNat
  guard (1 ≤ channels ∧ channels ≤ 2)
  let track ← parseTrack stbl fileLen false timescale
  return { info with
    opusChannels := channels
    opusPreskip := number dops 2 2
    audio := some track }

def parseEntry (info : Info) (handler entry stbl : List UInt8) (fileLen timescale : Nat) : Option Info :=
  match (if handler = tagVide.bytes then child entry tagVp09 else none) with
  | some vp09 => parseVideo info vp09 stbl fileLen timescale
  | none =>
    match (if handler = tagSoun.bytes then child entry tagOpus else none) with
    | some opus => parseAudio info opus stbl fileLen timescale
    | none => none

/-- One `trak`, classified by its sample entry. -/
def parseTrak (info : Info) (trak : List UInt8) (fileLen : Nat) : Option Info := do
  let mdhd ← path trak [tagMdia, tagMdhd]
  let hdlr ← path trak [tagMdia, tagHdlr]
  let stbl ← path trak [tagMdia, tagMinf, tagStbl]
  let stsd ← child stbl tagStsd
  let timescale ← rd32 mdhd 12
  guard (timescale ≠ 0)
  guard (12 ≤ hdlr.length)
  let entries ← rd32 stsd 4
  guard (entries = 1)
  parseEntry info ((hdlr.drop 8).take 4) (stsd.drop 8) stbl fileLen timescale

/-- The walk of `oc_mp4_parse` through the boxes of the movie. -/
def parseTraks (fileLen : Nat) : Nat → Info → List UInt8 → Option Info
  | 0, info, _ => some info
  | fuel + 1, info, rest =>
    if rest.length < 8 then some info
    else
      let sz := number rest 0 4
      if sz < 8 ∨ sz > rest.length then none
      else if (rest.drop 4).take 4 = tagTrak.bytes then
        match parseTrak info ((rest.take sz).drop 8) fileLen with
        | none => none
        | some info => parseTraks fileLen fuel info (rest.drop sz)
      else parseTraks fileLen fuel info (rest.drop sz)

def infoMs (info : Info) : Nat :=
  let vms := (info.video.map fun t => t.duration * 1000 / t.timescale).getD 0
  let ams := (info.audio.map fun t =>
    (if t.duration > info.opusPreskip then t.duration - info.opusPreskip else 0) * 1000 / t.timescale).getD 0
  if vms > ams then vms else ams

def parse (data : List UInt8) : Option Info := do
  guard (16 ≤ data.length ∧ data.length ≤ maxFile)
  let _ ← child data tagFtyp
  let moov ← child data tagMoov
  let _ ← child data tagMdat
  let info ← parseTraks data.length moov.length noInfo moov
  guard (info.video.isSome ∨ info.audio.isSome)
  guard (¬ (info.video.isSome ∧ (info.vp9Profile ≠ 0 ∨ info.vp9BitDepth ≠ 8)))
  return { info with durationMs := infoMs info % 2 ^ 32 }

end OpenChime.Shared.Mp4
