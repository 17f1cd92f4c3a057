import OpenChime.Shared.Mp4Reader

/-! The bytes of the restricted MP4, between its writer and its reader: the writer adds them whatever
stands before, and the reader finds the boxes among them. -/

set_option autoImplicit false

namespace OpenChime.Shared.Mp4

open Boxes List BigEndian

def Fits (payload : List UInt8) : Prop := 8 + payload.length < 2 ^ 32

theorem childFrom_fuel (type : Tag) (fuel fuel' : Nat) (rest : List UInt8) (enough : rest.length ≤ fuel)
    (enough' : rest.length ≤ fuel') : childFrom type fuel rest = childFrom type fuel' rest := by
  have short (fuel : Nat) (rest : List UInt8) (empty : rest.length < 8) : childFrom type fuel rest = none := by
    cases fuel with
    | zero => rfl
    | succ fuel => rw [childFrom, if_pos empty]
  induction fuel generalizing fuel' rest with
  | zero => rw [short 0 rest (by omega), short fuel' rest (by omega)]
  | succ fuel ih =>
    cases fuel' with
    | zero => rw [short 0 rest (by omega), short (fuel + 1) rest (by omega)]
    | succ fuel' =>
      rw [childFrom, childFrom]
      split
      · rfl
      dsimp only
      split
      · rfl
      next sized =>
      split
      · rfl
      have shorter : (rest.drop (number rest 0 4)).length + 8 ≤ rest.length := by
        rw [length_drop]
        omega
      exact ih fuel' _ (by omega) (by omega)

theorem parseTraks_fuel (fileLen fuel fuel' : Nat) (info : Info) (rest : List UInt8) (enough : rest.length ≤ fuel)
    (enough' : rest.length ≤ fuel') : parseTraks fileLen fuel info rest = parseTraks fileLen fuel' info rest := by
  have short (fuel : Nat) (info : Info) (rest : List UInt8) (empty : rest.length < 8) :
      parseTraks fileLen fuel info rest = some info := by
    cases fuel with
    | zero => rfl
    | succ fuel => rw [parseTraks, if_pos empty]
  induction fuel generalizing fuel' info rest with
  | zero => rw [short 0 info rest (by omega), short fuel' info rest (by omega)]
  | succ fuel ih =>
    cases fuel' with
    | zero => rw [short 0 info rest (by omega), short (fuel + 1) info rest (by omega)]
    | succ fuel' =>
      rw [parseTraks, parseTraks]
      split
      · rfl
      dsimp only
      split
      · rfl
      next sized =>
      have shorter : (rest.drop (number rest 0 4)).length + 8 ≤ rest.length := by
        rw [length_drop]
        omega
      split
      · cases parseTrak info ((rest.take (number rest 0 4)).drop 8) fileLen with
        | none => rfl
        | some after => exact ih fuel' after _ (by omega) (by omega)
      · exact ih fuel' info _ (by omega) (by omega)

def traks (fileLen : Nat) (info : Info) (rest : List UInt8) : Option Info := parseTraks fileLen rest.length info rest

section Boxes

variable {tag type : Tag} {payload rest : List UInt8}

theorem Fits.inner (fits : Fits (box tag payload ++ rest)) : Fits payload := by
  rw [Fits, length_append, length_box] at fits
  rw [Fits]
  omega

theorem Fits.after (fits : Fits (box tag payload ++ rest)) : Fits rest := by
  rw [Fits, length_append] at fits
  rw [Fits]
  omega

theorem number_box (fits : Fits payload) : number (box tag payload ++ rest) 0 4 = 8 + payload.length := by
  have read := number_append [] (tag.bytes ++ payload ++ rest) 4 (8 + payload.length)
  exact read.trans (Nat.mod_eq_of_lt fits)

theorem tag_box : ((box tag payload ++ rest).drop 4).take 4 = tag.bytes := by
  have size : (encode 4 (8 + payload.length)).length = 4 := length_encode 4 _
  rw [box, append_assoc, drop_left' size, append_assoc, take_left' tag.size]

theorem payload_box : ((box tag payload ++ rest).take (8 + payload.length)).drop 8 = payload := by
  have size : (encode 4 (8 + payload.length) ++ tag.bytes).length = 8 := by
    rw [length_append, length_encode, tag.size]
  rw [take_left' (length_box tag payload), box, ← append_assoc, drop_left' size]

theorem child_box (fits : Fits (box tag payload ++ rest)) : child (box tag payload ++ rest) type =
      if tag = type then some payload else child rest type := by
  have length : (box tag payload ++ rest).length = 8 + payload.length + rest.length := by
    rw [length_append, length_box]
  obtain ⟨fuel, size⟩ : ∃ fuel, (box tag payload ++ rest).length = fuel + 1 :=
    ⟨7 + payload.length + rest.length, by omega⟩
  rw [child, size, childFrom, if_neg (by omega), number_box fits.inner, if_neg (by omega), tag_box, payload_box]
  by_cases equal : tag = type
  · rw [if_pos (congrArg Tag.bytes equal), if_pos equal]
  rw [if_neg (fun bytes => equal (Tag.ext bytes)), if_neg equal, drop_left' (length_box tag payload)]
  apply childFrom_fuel
  · omega
  · exact le_refl _

theorem child_this (fits : Fits (box tag payload ++ rest)) : child (box tag payload ++ rest) tag = some payload := by
  rw [child_box fits, if_pos rfl]

theorem child_next (other : tag ≠ type) (fits : Fits (box tag payload ++ rest)) :
    child (box tag payload ++ rest) type = child rest type := by
  rw [child_box fits, if_neg other]

theorem traks_box (fileLen : Nat) (info : Info) (fits : Fits (box tag payload ++ rest)) :
    traks fileLen info (box tag payload ++ rest) =
      if tag = tagTrak then (parseTrak info payload fileLen).bind fun after => traks fileLen after rest
      else traks fileLen info rest := by
  have length : (box tag payload ++ rest).length = 8 + payload.length + rest.length := by
    rw [length_append, length_box]
  obtain ⟨fuel, size⟩ : ∃ fuel, (box tag payload ++ rest).length = fuel + 1 :=
    ⟨7 + payload.length + rest.length, by omega⟩
  rw [traks, size, parseTraks, if_neg (by omega), number_box fits.inner, if_neg (by omega), tag_box,
    payload_box, drop_left' (length_box tag payload)]
  by_cases equal : tag = tagTrak
  · rw [if_pos (congrArg Tag.bytes equal), if_pos equal]
    cases parseTrak info payload fileLen with
    | none => rfl
    | some after => exact parseTraks_fuel fileLen _ _ after rest (by omega) (le_refl _)
  · rw [if_neg (fun bytes => equal (Tag.ext bytes)), if_neg equal]
    exact parseTraks_fuel fileLen _ _ info rest (by omega) (le_refl _)

end Boxes

attribute [local simp] u8 u16 u32 fourcc zeros

theorem writes_u32 (v : Nat) : Writes (u32 v) (encode 4 v) := writes_raw _

theorem writes_fullboxed {body : List Put} {bytes : List UInt8} (tag : Tag) (version flags : Nat)
    (written : Writes (inOrder body) bytes) :
    Writes (fullboxed tag version flags body) (box tag (encode 4 (version <<< 24 ||| flags &&& 0xFFFFFF) ++ bytes)) :=
  writes_boxed tag (writes_cons (writes_u32 _) written)

def counted (count : Nat) (entries : List UInt8) : List UInt8 := encode 4 0 ++ (encode 4 count ++ entries)

def pairs (entries : List (Nat × Nat)) : List Nat := entries.flatMap fun entry => [entry.1, entry.2]

variable (t : List WSample)

def sttsBytes : List UInt8 :=
  let entries := runs (t.map WSample.dur)
  counted entries.length (row (pairs entries))

def stssBytes : List UInt8 := counted (t.countP WSample.sync) (row (syncNumbers t))

def stscBytes : List UInt8 := counted 1 (row [1, 1, 1])

def stszBytes : List UInt8 := encode 4 0 ++ (encode 4 0 ++ (encode 4 t.length ++ row (t.map WSample.size)))

def stcoBytes (dataBase : Nat) : List UInt8 := counted t.length (row (t.map fun s => dataBase + s.off))

def tableBytes (dataBase : Nat) (video : Bool) : List UInt8 :=
  box tagStts (sttsBytes t) ++ ((if video then box tagStss (stssBytes t) else []) ++
    (box tagStsc stscBytes ++ (box tagStsz (stszBytes t) ++ (box tagStco (stcoBytes t dataBase) ++ []))))

theorem writes_sttsBody (entries : List (Nat × Nat)) :
    Writes (sttsBody entries) (counted entries.length (row (pairs entries))) := by
  intro before
  have each (entry : Nat × Nat) : Writes (inOrder [u32 entry.1, u32 entry.2]) (row [entry.1, entry.2]) :=
    writes_cons (writes_u32 _) (writes_cons (writes_u32 _) writes_none)
  have written := writes_map each entries
  have rows : entries.flatMap (fun entry => row [entry.1, entry.2]) = row (pairs entries) := by
    rw [pairs, row, flatMap_assoc]
    rfl
  rw [rows] at written
  rw [sttsBody, written, writes_u32, append_assoc, patch_append, writes_u32, counted, append_assoc]

theorem writes_table {body : List Put} {bytes : List UInt8} (tag : Tag) (count : Nat)
    (written : Writes (inOrder body) bytes) :
    Writes (fullboxed tag 0 0 (u32 count :: body)) (box tag (counted count bytes)) :=
  writes_fullboxed tag 0 0 (writes_cons (writes_u32 count) written)

theorem writes_sampleTables (dataBase : Nat) (video : Bool) :
    Writes (writeSampleTables t dataBase video) (tableBytes t dataBase video) := by
  have numbers (values : List Nat) : Writes (inOrder [inOrder (values.map u32)]) (row values) := by
    have written := writes_cons (writes_map writes_u32 values) writes_none
    rwa [append_nil] at written
  have stss : Writes (if video then fullboxed tagStss 0 0 [u32 (t.countP WSample.sync),
      inOrder ((syncNumbers t).map u32)] else inOrder [])
      (if video then box tagStss (stssBytes t) else []) := by
    cases video with
    | false => exact writes_none
    | true => exact writes_table tagStss _ (numbers (syncNumbers t))
  have stsc : Writes (inOrder [u32 1, u32 1, u32 1]) (row [1, 1, 1]) := writes_map writes_u32 [1, 1, 1]
  have stsz := numbers (t.map WSample.size)
  have stco := numbers (t.map fun s => dataBase + s.off)
  rw [map_map] at stsz stco
  apply writes_cons (writes_boxed tagStts (writes_sttsBody _))
  apply writes_cons stss
  apply writes_cons (writes_table tagStsc 1 stsc)
  apply writes_cons (writes_fullboxed tagStsz 0 0 (writes_cons (writes_u32 0) (writes_cons (writes_u32 t.length) stsz)))
  exact writes_cons (writes_table tagStco t.length stco) writes_none

def mdhdBytes (timescale duration : Nat) : List UInt8 :=
  encode 4 0 ++ (encode 4 0 ++ (encode 4 0 ++
    (encode 4 timescale ++ (encode 4 duration ++ (encode 2 0x55C4 ++ (encode 2 0 ++ []))))))

theorem writes_mdhd (timescale duration : Nat) :
    Writes (writeMdhd timescale duration) (box tagMdhd (mdhdBytes timescale duration)) := by
  apply writes_fullboxed tagMdhd 0 0
  intro before
  simp

def hdlrBytes (type : Tag) (name : Text) : List UInt8 :=
  encode 4 0 ++ (encode 4 0 ++ (type.bytes ++ (replicate 12 0 ++ (name ++ [0] ++ []))))

theorem writes_hdlr (type : Tag) (name : Text) : Writes (writeHdlr type name) (box tagHdlr (hdlrBytes type name)) := by
  apply writes_fullboxed tagHdlr 0 0
  intro before
  simp

def dinfBytes : List UInt8 := box tagDref (encode 4 0 ++ (encode 4 1 ++ (box tagUrl (encode 4 1 ++ []) ++ [])))

theorem writes_dinf : Writes writeDinf (box tagDinf dinfBytes) := by
  apply writes_boxed tagDinf
  apply writes_fullboxed tagDref 0 0
  exact writes_cons (writes_u32 1) (writes_cons (writes_fullboxed tagUrl 0 1 writes_none) writes_none)

def matrixBytes : List UInt8 := row [0x00010000, 0, 0, 0, 0x00010000, 0, 0, 0, 0x40000000]

theorem writes_unityMatrix : Writes unityMatrix matrixBytes :=
  writes_map writes_u32 [0x00010000, 0, 0, 0, 0x00010000, 0, 0, 0, 0x40000000]

def tkhdBytes (id durMs : Nat) (video : Bool) (width height : Nat) : List UInt8 :=
  encode 4 3 ++ (encode 4 0 ++ (encode 4 0 ++ (encode 4 id ++
    (encode 4 0 ++ (encode 4 durMs ++ (replicate 8 (0 : UInt8) ++ (encode 2 0 ++ (encode 2 0 ++
        (encode 2 (if video then 0 else 0x0100) ++ (encode 2 0 ++ (matrixBytes ++
          (encode 4 (if video then width <<< 16 else 0) ++
            (encode 4 (if video then height <<< 16 else 0) ++ [])))))))))))))

theorem writes_tkhd (id durMs : Nat) (video : Bool) (width height : Nat) :
    Writes (writeTkhd id durMs video width height) (box tagTkhd (tkhdBytes id durMs video width height)) := by
  apply writes_fullboxed tagTkhd 0 3
  intro before
  simp [writes_unityMatrix _]

structure Media where
  timescale : Nat
  kind : Tag
  name : Text
  headTag : Tag
  head : List UInt8
  entry : List UInt8
  samples : List WSample
  video : Bool

namespace Media

def stblBytes (m : Media) (dataBase : Nat) : List UInt8 :=
  box tagStsd (counted 1 (m.entry ++ [])) ++ (tableBytes m.samples dataBase m.video ++ [])

def minfBytes (m : Media) (dataBase : Nat) : List UInt8 :=
  box m.headTag m.head ++ (box tagDinf dinfBytes ++ (box tagStbl (m.stblBytes dataBase) ++ []))

def mdiaBytes (m : Media) (dataBase : Nat) : List UInt8 :=
  box tagMdhd (mdhdBytes m.timescale (trackDuration m.samples)) ++
    (box tagHdlr (hdlrBytes m.kind m.name) ++ (box tagMinf (m.minfBytes dataBase) ++ []))

def put (m : Media) (head entry : Put) (dataBase : Nat) : Put :=
  boxed tagMdia (inOrder
    [writeMdhd m.timescale (trackDuration m.samples), writeHdlr m.kind m.name, boxed tagMinf (inOrder
        [head, writeDinf, boxed tagStbl (inOrder [fullboxed tagStsd 0 0 [u32 1, entry],
              writeSampleTables m.samples dataBase m.video])])])

theorem writes_put (m : Media) {head entry : Put} (dataBase : Nat) (headed : Writes head (box m.headTag m.head))
    (described : Writes entry m.entry) : Writes (m.put head entry dataBase) (box tagMdia (m.mdiaBytes dataBase)) := by
  have stbl : Writes _ (m.stblBytes dataBase) :=
    writes_cons (writes_table tagStsd 1 (writes_cons described writes_none))
      (writes_cons (writes_sampleTables m.samples dataBase m.video) writes_none)
  have minf : Writes _ (m.minfBytes dataBase) :=
    writes_cons headed (writes_cons writes_dinf (writes_cons (writes_boxed tagStbl stbl) writes_none))
  apply writes_boxed tagMdia
  apply writes_cons (writes_mdhd m.timescale (trackDuration m.samples))
  apply writes_cons (writes_hdlr m.kind m.name)
  exact writes_cons (writes_boxed tagMinf minf) writes_none

end Media

namespace Writer

variable (w : Writer)

def vpcCBytes : List UInt8 :=
  encode 4 (1 <<< 24) ++ (encode 1 0 ++ (encode 1 w.vp9Level ++
    (encode 1 0x82 ++ (encode 1 1 ++ (encode 1 1 ++ (encode 1 1 ++ (encode 2 0 ++ [])))))))

def vp09Bytes : List UInt8 :=
  replicate 6 (0 : UInt8) ++ (encode 2 1 ++ (encode 2 0 ++ (encode 2 0 ++
    (replicate 12 0 ++ (encode 2 w.width ++ (encode 2 w.height ++
      (encode 4 0x00480000 ++ (encode 4 0x00480000 ++ (encode 4 0 ++
        (encode 2 1 ++ (replicate 32 0 ++ (encode 2 0x0018 ++
          (encode 2 0xFFFF ++ (box tagVpcC w.vpcCBytes ++ []))))))))))))))

theorem writes_videoEntry : Writes w.videoEntry (box tagVp09 w.vp09Bytes) := by
  have vpcC : Writes w.vpcC (box tagVpcC w.vpcCBytes) := by
    apply writes_fullboxed tagVpcC 1 0
    intro before
    simp
  apply writes_boxed tagVp09
  intro before
  simp [vp09Bytes, vpcC _]

def dOpsBytes : List UInt8 :=
  encode 1 0 ++ (encode 1 1 ++ (encode 2 opusPreskip ++ (encode 4 w.inputRate ++ (encode 2 0 ++ (encode 1 0 ++ [])))))

def opusBytes : List UInt8 :=
  replicate 6 (0 : UInt8) ++ (encode 2 1 ++ (encode 2 0 ++ (encode 2 0 ++
    (encode 4 0 ++ (encode 2 1 ++ (encode 2 16 ++ (encode 2 0 ++ (encode 2 0 ++ (encode 4 (audioTimescale <<< 16) ++
        (box tagDOps w.dOpsBytes ++ []))))))))))

theorem writes_audioEntry : Writes w.audioEntry (box tagOpus w.opusBytes) := by
  have dOps : Writes w.dOps (box tagDOps w.dOpsBytes) := by
    apply writes_boxed tagDOps
    intro before
    simp [dOpsBytes]
  apply writes_boxed tagOpus
  intro before
  simp [opusBytes, dOps _]

def videoMedia : Media where
  timescale := videoTimescale
  kind := tagVide
  name := text "OpenChime video"
  headTag := tagVmhd
  head := encode 4 1 ++ (encode 2 0 ++ (replicate 6 0 ++ []))
  entry := box tagVp09 w.vp09Bytes
  samples := w.video
  video := true

def audioMedia : Media where
  timescale := audioTimescale
  kind := tagSoun
  name := text "OpenChime audio"
  headTag := tagSmhd
  head := encode 4 0 ++ (encode 2 0 ++ (encode 2 0 ++ []))
  entry := box tagOpus w.opusBytes
  samples := w.audio
  video := false

def videoTrakBytes (id dataBase : Nat) : List UInt8 :=
  box tagTkhd (tkhdBytes id w.videoMs true w.width w.height) ++ (box tagMdia (w.videoMedia.mdiaBytes dataBase) ++ [])

theorem writes_videoTrak (id dataBase : Nat) :
    Writes (w.videoTrak id dataBase) (box tagTrak (w.videoTrakBytes id dataBase)) := by
  have head : Writes (fullboxed tagVmhd 0 1 [u16 0, zeros 6]) (box tagVmhd w.videoMedia.head) :=
    writes_fullboxed tagVmhd 0 1 fun before => by simp
  apply writes_boxed tagTrak
  apply writes_cons (writes_tkhd id w.videoMs true w.width w.height)
  exact writes_cons (w.videoMedia.writes_put dataBase head w.writes_videoEntry) writes_none

def edtsBytes : List UInt8 :=
  box tagElst (encode 4 0 ++ (encode 4 1 ++ (encode 4 w.audioMs ++
    (encode 4 opusPreskip ++ (encode 2 1 ++ (encode 2 0 ++ []))))))

def audioTrakBytes (id dataBase : Nat) : List UInt8 :=
  box tagTkhd (tkhdBytes id w.audioMs false 0 0) ++ (box tagEdts w.edtsBytes ++
    (box tagMdia (w.audioMedia.mdiaBytes dataBase) ++ []))

theorem writes_audioTrak (id dataBase : Nat) :
    Writes (w.audioTrak id dataBase) (box tagTrak (w.audioTrakBytes id dataBase)) := by
  have edts : Writes (boxed tagEdts (fullboxed tagElst 0 0
      [u32 1, u32 w.audioMs, u32 opusPreskip, u16 1, u16 0])) (box tagEdts w.edtsBytes) := by
    apply writes_boxed tagEdts
    apply writes_fullboxed tagElst 0 0
    intro before
    simp
  have head : Writes (fullboxed tagSmhd 0 0 [u16 0, u16 0]) (box tagSmhd w.audioMedia.head) :=
    writes_fullboxed tagSmhd 0 0 fun before => by simp
  apply writes_boxed tagTrak
  apply writes_cons (writes_tkhd id w.audioMs false 0 0)
  apply writes_cons edts
  exact writes_cons (w.audioMedia.writes_put dataBase head w.writes_audioEntry) writes_none

def mvhdBytes : List UInt8 :=
  encode 4 0 ++ (encode 4 0 ++ (encode 4 0 ++ (encode 4 1000 ++
    (encode 4 w.movieMs ++ (encode 4 0x00010000 ++ (encode 2 0x0100 ++
      (replicate 10 (0 : UInt8) ++ (matrixBytes ++ (replicate 24 (0 : UInt8) ++ (encode 4
        ((if w.video.length ≠ 0 then 1 else 0) + (if w.audio.length ≠ 0 then 1 else 0) + 1) ++ []))))))))))

theorem writes_mvhd : Writes w.mvhd (box tagMvhd w.mvhdBytes) := by
  apply writes_fullboxed tagMvhd 0 0
  intro before
  simp [writes_unityMatrix _]

def moovBytes (dataBase : Nat) : List UInt8 :=
  box tagMvhd w.mvhdBytes ++
    ((if w.video.length ≠ 0 then box tagTrak (w.videoTrakBytes 1 dataBase) else []) ++ ((if w.audio.length ≠ 0 then
        box tagTrak (w.audioTrakBytes (if w.video.length ≠ 0 then 2 else 1) dataBase) else []) ++ []))

theorem writes_buildMoov (dataBase : Nat) : Writes (w.buildMoov dataBase) (box tagMoov (w.moovBytes dataBase)) := by
  have optional {present : Prop} [Decidable present] {put : Put} {bytes : List UInt8} (written : Writes put bytes) :
      Writes (if present then put else inOrder []) (if present then bytes else []) := by
    split
    · exact written
    · exact writes_none
  apply writes_boxed tagMoov
  apply writes_cons w.writes_mvhd
  apply writes_cons (optional (w.writes_videoTrak 1 dataBase))
  exact writes_cons (optional (w.writes_audioTrak _ dataBase)) writes_none

theorem length_moovBytes (dataBase other : Nat) : (w.moovBytes dataBase).length = (w.moovBytes other).length := by
  have tables (t : List WSample) (video : Bool) :
      (tableBytes t dataBase video).length = (tableBytes t other video).length := by
    simp only [tableBytes, stcoBytes, counted, length_append, length_box, length_row, length_map]
  have media (m : Media) : (m.mdiaBytes dataBase).length = (m.mdiaBytes other).length := by
    simp only [Media.mdiaBytes, Media.minfBytes, Media.stblBytes, length_append, length_box, tables]
  have video : (w.videoTrakBytes 1 dataBase).length = (w.videoTrakBytes 1 other).length := by
    simp only [videoTrakBytes, length_append, length_box, media]
  have audio (id : Nat) : (w.audioTrakBytes id dataBase).length = (w.audioTrakBytes id other).length := by
    simp only [audioTrakBytes, length_append, length_box, media]
  have optional (present : Prop) [Decidable present] {first second : List UInt8} (same : first.length = second.length) :
      (if present then box tagTrak first else []).length = (if present then box tagTrak second else []).length := by
    split
    · rw [length_box, length_box, same]
    · rfl
  rw [moovBytes, moovBytes, length_append, length_append, length_append,
    length_append, length_append, length_append, optional _ video,
    optional _ (audio _)]

def ftypBytes : List UInt8 := text "isom" ++ (encode 4 0x200 ++ (text "isom" ++ (text "iso6" ++ (text "mp41" ++ []))))

theorem writes_ftyp : Writes ftyp (box tagFtyp ftypBytes) := by
  apply writes_boxed tagFtyp
  intro before
  simp [ftypBytes]

def fileBytes (dataBase : Nat) : List UInt8 :=
  box tagFtyp ftypBytes ++ (box tagMoov (w.moovBytes dataBase) ++ (box tagMdat w.data ++ []))

def base : Nat := 8 + ftypBytes.length + (8 + (w.moovBytes 0).length) + 8

theorem length_fileBytes (dataBase : Nat) : (w.fileBytes dataBase).length = w.base + w.data.length := by
  rw [fileBytes, base, append_nil, length_append, length_append, length_box, length_box,
    length_box, w.length_moovBytes dataBase 0]
  omega

/-- The file is the boxes one after another, and the second pass always fits the first. -/
theorem finish_eq : w.finish = if w.missing = false ∧ w.base + w.data.length ≤ maxFile then
      some (w.fileBytes w.base, w.movieMs % 2 ^ 32) else none := by
  have started : ftyp [] = box tagFtyp ftypBytes := writes_ftyp.nil
  have measured : (ftyp []).length + (w.buildMoov 0 []).length + 8 = w.base := by
    rw [started, (w.writes_buildMoov 0).nil, length_box, length_box, base]
  have written : inOrder [w.buildMoov w.base, u32 (8 + w.data.length), fourcc tagMdat, raw w.data]
      (ftyp []) = w.fileBytes w.base := by
    have rest := writes_cons (w.writes_buildMoov w.base) (writes_cons (writes_u32 (8 + w.data.length))
      (writes_cons (writes_raw tagMdat.bytes) (writes_cons (writes_raw w.data) writes_none)))
    rw [started]
    refine (rest _).trans ?_
    rw [fileBytes, box, box, box]
    simp only [append_assoc]
  rw [finish]
  dsimp only
  rw [measured, written, w.length_fileBytes]
  cases absent : w.missing with
  | true => rw [if_pos rfl, if_neg (fun both => Bool.noConfusion both.1)]
  | false =>
    rw [if_neg (by decide)]
    by_cases small : w.base + w.data.length ≤ maxFile
    · rw [if_pos small, if_neg (fun differ => differ rfl), if_pos ⟨rfl, small⟩]
    · rw [if_neg small, if_neg (fun both => small both.2)]

end Writer

end OpenChime.Shared.Mp4
