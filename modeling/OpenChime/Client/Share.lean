import OpenChime.Lib.BigEndian

/-! Screen sharing's packets (`client/core/call/share.c`): the sharer, who splits frames into
fragments and sends again what a viewer asks for, and a viewer, who puts them together. The
counters of the call's statistics are written and never read here, and are left out. -/

set_option autoImplicit false

namespace OpenChime.Client.Share

open BigEndian List

def fragSize : Nat := 1100
def videoHdr : Nat := 14
def maxFrags : Nat := 1024
def maxDim : Nat := 4096
def kbpsMin : Nat := 150
def kbpsStart : Nat := 1200
def historyMs : Int := 1000
def nackMs : Int := 60
def giveupMs : Int := 300
def pliEveryMs : Int := 500
def joinMs : Int := 250
def history : Nat := 1024
def slotCount : Nat := 32
def viewerCount : Nat := 32

/-- A call packet's plaintext, its type byte first. -/
abbrev Packet := List UInt8

def callpktVideo : UInt8 := 2
def callpktControl : UInt8 := 3

def field (body : List UInt8) (off width : Nat) : Nat := decode ((body.drop off).take width)

inductive Control where
  | nack
  | pli
  | report

def Control.code : Control → UInt8
  | .nack => 1
  | .pli => 2
  | .report => 3

def ctlHead (target : Nat) (kind : Control) : Packet := callpktControl :: (encode 8 target ++ [kind.code])

def ctlPli (target : Nat) : Packet := ctlHead target .pli

def ctlNack (target frame : Nat) (frags : List Nat) : Packet :=
  let named := frags.take 64
  ctlHead target .nack ++ encode 4 frame ++ encode 2 named.length ++ named.flatMap (encode 2)

/-- A frame as it was given to `oc_share_tx_frame`, with the number it got. -/
structure Frame where
  number : Nat
  data : List UInt8
  keyframe : Bool
  width : Nat
  height : Nat
  deriving DecidableEq

namespace Frame

def nfrags (f : Frame) : Nat := (f.data.length + fragSize - 1) / fragSize

/-- The bytes of fragment `i`. -/
def part (f : Frame) (i : Nat) : List UInt8 := (f.data.drop (i * fragSize)).take fragSize

/-- The packet of fragment `i`. -/
def packet (f : Frame) (i : Nat) : Packet :=
  callpktVideo :: (encode 4 f.number ++ encode 2 i ++ encode 2 f.nfrags ++
      [if f.keyframe then 1 else 0] ++ encode 2 f.width ++ encode 2 f.height ++
      f.part i)

end Frame

/-- `oc_share_sent`; an empty packet is an empty entry. -/
structure Sent where
  frame : Nat
  frag : Nat
  pt : Packet
  atMs : Int

structure Viewer where
  user : Nat
  lossPermille : Nat
  atMs : Int

structure Tx where
  self : Nat
  nextFrame : Nat
  hist : List Sent
  histAt : Nat
  kbps : Nat
  rateAtMs : Int
  cutAtMs : Int
  keyAtMs : Int
  haveKey : Bool
  keyWanted : Bool
  viewers : List Viewer

def noSent : Sent := ⟨0, 0, [], 0⟩
def noViewer : Viewer := ⟨0, 0, 0⟩

def txInit (self : Nat) : Tx where
  self := self
  nextFrame := 0
  hist := replicate history noSent
  histAt := 0
  kbps := kbpsStart
  rateAtMs := 0
  cutAtMs := 0
  keyAtMs := 0
  haveKey := false
  keyWanted := false
  viewers := replicate viewerCount noViewer

namespace Tx

def restart (t : Tx) (now : Int) : Tx :=
  { t with
    hist := t.hist.map fun s => { s with pt := [] }
    kbps := kbpsStart
    rateAtMs := now
    cutAtMs := 0
    keyAtMs := 0
    haveKey := false
    keyWanted := true
    viewers := replicate viewerCount noViewer }

def remember (now : Int) (f : Frame) (t : Tx) (i : Nat) : Tx :=
  { t with
    hist := t.hist.set t.histAt ⟨f.number, i, f.packet i, now⟩
    histAt := (t.histAt + 1) % history }

/-- The frame a call of `oc_share_tx_frame` sends. -/
def toSend (t : Tx) (data : List UInt8) (keyframe : Bool) (width height : Int) : Frame :=
  ⟨t.nextFrame, data, keyframe, width.toNat, height.toNat⟩

/-- `oc_share_tx_frame`: the packets it emits, `none` for a frame too large to send. -/
def frame (t : Tx) (data : List UInt8) (keyframe : Bool) (width height now : Int) : Option (List Packet) × Tx :=
  let f := t.toSend data keyframe width height
  if data.length = 0 ∨ f.nfrags > maxFrags ∨ width ≤ 0 ∨ height ≤ 0 ∨ width > maxDim ∨ height > maxDim then
    (none, { t with keyWanted := true })
  else
    let t := { t with nextFrame := (t.nextFrame + 1) % 2 ^ 32 }
    let t := (range f.nfrags).foldl (remember now f) t
    let t := if keyframe then { t with keyAtMs := now, haveKey := true, keyWanted := false } else t
    (some ((range f.nfrags).map f.packet), t)

/-- `resend`: one fragment of a frame, or all of them. -/
def resend (t : Tx) (frame : Nat) (frag : Option Nat) (now : Int) : List Packet :=
  let found := t.hist.filter fun s =>
    s.pt ≠ [] ∧ s.frame = frame ∧ (frag = none ∨ frag = some s.frag) ∧ ¬ now - s.atMs > historyMs
  match frag with
  | none => found.map Sent.pt
  | some _ => (found.take 1).map Sent.pt

def viewerIndex (t : Tx) (user : Nat) : Nat :=
  match t.viewers.findIdx? (fun v => v.user = user) with
  | some i => i
  | none =>
    match t.viewers.findIdx? (fun v => v.user = 0) with
    | some i => i
    | none =>
      (range viewerCount).foldl (fun old i =>
        if (t.viewers.getD i noViewer).atMs < (t.viewers.getD old noViewer).atMs then i else old) 0

def report (t : Tx) (user loss : Nat) (now : Int) : Tx :=
  let t := { t with viewers := t.viewers.set (t.viewerIndex user) ⟨user, loss, now⟩ }
  if loss > 50 ∧ now - t.cutAtMs ≥ 1000 then
    { t with kbps := max (t.kbps / 2) kbpsMin, cutAtMs := now, rateAtMs := now }
  else if loss > 20 then { t with rateAtMs := now }
  else t

def control (t : Tx) (user : Nat) (body : List UInt8) (now : Int) : List Packet × Tx :=
  if body.length < 9 ∨ field body 0 8 ≠ t.self then ([], t)
  else
    let kind := body.getD 8 0
    let body := body.drop 9
    if kind = Control.nack.code then
      let frame := field body 0 4
      let n := field body 4 2
      if body.length < 6 ∨ n > 64 ∨ body.length < 6 + 2 * n then ([], t)
      else if n = 0 then (t.resend frame none now, t)
      else
        ((range n).flatMap fun i => t.resend frame (some (field body (6 + 2 * i) 2)) now, t)
    else if kind = Control.pli.code then ([], { t with keyWanted := true })
    else if kind = Control.report.code then
      if body.length < 6 then ([], t) else ([], t.report user (field body 0 2) now)
    else ([], t)

end Tx

/-- `oc_share_slot`. The bitmap is the fragments' numbers it has a bit for; the buffer is the
block's bytes by offset. -/
structure Slot where
  used : Bool
  frame : Nat
  nfrags : Nat
  count : Nat
  lastLen : Nat
  keyframe : Bool
  width : Nat
  height : Nat
  got : Nat → Bool
  buf : Option (Nat → UInt8)
  firstMs : Int
  nackedMs : Int
  nacks : Nat

def noSlot : Slot := ⟨false, 0, 0, 0, 0, false, 0, 0, fun _ => false, none, 0, 0, 0⟩

def Slot.complete (s : Slot) : Bool := s.used && s.nfrags != 0 && s.count == s.nfrags

structure Rx where
  sharer : Nat
  started : Bool
  needKey : Bool
  nextFrame : Nat
  topFrame : Nat
  haveTop : Bool
  pliMs : Int
  pliAny : Bool
  bornMs : Int
  handed : Option (Fin slotCount)
  slots : Fin slotCount → Slot

def rxInit (sharer : Nat) : Rx where
  sharer := sharer
  started := false
  needKey := false
  nextFrame := 0
  topFrame := 0
  haveTop := false
  pliMs := 0
  pliAny := false
  bornMs := -1
  handed := none
  slots := fun _ => noSlot

structure Fragment where
  frame : Nat
  frag : Nat
  nfrags : Nat
  keyframe : Bool
  width : Nat
  height : Nat
  bytes : List UInt8

/-- What `oc_share_rx_put` reads of a packet behind its type byte, if it takes it at all. -/
def parse (body : List UInt8) : Option Fragment :=
  let f : Fragment :=
    { frame := field body 0 4
      frag := field body 4 2
      nfrags := field body 6 2
      keyframe := body.getD 8 0 &&& 1 = 1
      width := field body 9 2
      height := field body 11 2
      bytes := body.drop (videoHdr - 1) }
  let n := f.bytes.length
  if body.length < videoHdr then none
  else if f.nfrags = 0 ∨ f.nfrags > maxFrags ∨ f.frag ≥ f.nfrags ∨ n > fragSize ∨
      (f.frag + 1 < f.nfrags ∧ n ≠ fragSize) ∨ f.width < 2 ∨ f.height < 2 ∨ f.width % 2 = 1 ∨
      f.height % 2 = 1 ∨ f.width > maxDim ∨ f.height > maxDim then none
  else some f

namespace Rx

variable (r : Rx)

def setSlot (i : Fin slotCount) (s : Slot) : Rx := { r with slots := Function.update r.slots i s }

@[simp] theorem setSlot_same (i : Fin slotCount) (s : Slot) : (r.setSlot i s).slots i = s := Function.update_self _ _ _

theorem setSlot_other {i j : Fin slotCount} (s : Slot) (other : j ≠ i) : (r.setSlot i s).slots j = r.slots j :=
  Function.update_of_ne other _ _

def slotDrop (i : Fin slotCount) : Rx := r.setSlot i noSlot

def slotOf (frame : Nat) : Option (Fin slotCount) :=
  (finRange slotCount).find? fun i => (r.slots i).used && (r.slots i).frame == frame

def freeSlot : Option (Fin slotCount) :=
  (finRange slotCount).find? fun i => !(r.slots i).used && decide (r.handed ≠ some i)

def oldestOf (among : List (Fin slotCount)) : Option (Fin slotCount) :=
  among.foldl (fun old i =>
    match old with
    | none => some i
    | some o => if (r.slots i).frame < (r.slots o).frame then some i else some o) none

def freshSlot (frame : Nat) (now : Int) : Slot := { noSlot with used := true, frame := frame, firstMs := now }

def slotNew (frame : Nat) (now : Int) : Option (Fin slotCount) × Rx :=
  match r.freeSlot with
  | some i => (some i, r.setSlot i (freshSlot frame now))
  | none =>
    match r.oldestOf ((finRange slotCount).filter fun i => r.handed ≠ some i) with
    | none => (none, r)
    | some i =>
      if (r.slots i).frame > frame then (none, r)
      else
        let r := if r.started ∧ (r.slots i).frame ≥ r.nextFrame then { r with needKey := true } else r
        (some i, r.setSlot i (freshSlot frame now))

/-- One of the frames between the newest so far and this one, sent and not seen. -/
def noteMissing (now : Int) (r : Rx) (frame : Nat) : Rx :=
  if frame ≥ r.nextFrame ∧ r.slotOf frame = none then (r.slotNew frame now).2 else r

def noteGap (frame : Nat) (now : Int) : Rx :=
  let next := (r.topFrame + 1) % 2 ^ 32
  if r.started ∧ r.haveTop ∧ frame > next then
    (range' next (min 8 (frame - next))).foldl (noteMissing now) r
  else r

def noteTop (frame : Nat) : Rx :=
  if !r.haveTop ∨ frame > r.topFrame then { r with topFrame := frame, haveTop := true } else r

/-- `memcpy` into the block. -/
def write (buf : Nat → UInt8) (off : Nat) (bytes : List UInt8) : Nat → UInt8 :=
  fun i => if off ≤ i ∧ i < off + bytes.length then bytes.getD (i - off) 0 else buf i

def placed (s : Slot) (f : Fragment) (buf : Nat → UInt8) : Slot :=
  { s with
    nfrags := f.nfrags
    keyframe := f.keyframe
    width := f.width
    height := f.height
    got := Function.update s.got f.frag true
    buf := some (write buf (f.frag * fragSize) f.bytes)
    lastLen := if f.frag + 1 = f.nfrags then f.bytes.length else s.lastLen
    count := s.count + 1 }

/-- The end of `oc_share_rx_put`, on the fragment's slot. `memory` is what `malloc` gives: the
bytes a new block happens to hold, or nothing. -/
def fill (i : Fin slotCount) (f : Fragment) (memory : Option (Nat → UInt8)) : Bool × Rx :=
  let s := r.slots i
  if s.nfrags = 0 then
    match memory with
    | none => (false, r.slotDrop i)
    | some block =>
      if s.got f.frag then
        (true, r.setSlot i { s with
          buf := some block, nfrags := f.nfrags, keyframe := f.keyframe, width := f.width,
          height := f.height })
      else (true, r.setSlot i (placed s f block))
  else if s.nfrags ≠ f.nfrags ∨ s.width ≠ f.width ∨ s.height ≠ f.height ∨ s.keyframe ≠ f.keyframe then
    (false, r)
  else if s.got f.frag then (true, r)
  else (true, r.setSlot i (placed s f (s.buf.getD fun _ => 0)))

def put (body : List UInt8) (now : Int) (memory : Option (Nat → UInt8)) : Bool × Rx :=
  match parse body with
  | none => (false, r)
  | some f =>
    if r.started ∧ f.frame < r.nextFrame then (false, r)
    else
      let r := (r.noteGap f.frame now).noteTop f.frame
      match r.slotOf f.frame with
      | some i => r.fill i f memory
      | none =>
        match r.slotNew f.frame now with
        | (none, r) => (false, r)
        | (some i, r) => r.fill i f memory

/-- What `oc_share_rx_next` hands to the decoder. -/
structure HandedOut where
  data : List UInt8
  keyframe : Bool
  width : Nat
  height : Nat
  frame : Nat
  deriving DecidableEq

def handOut (i : Fin slotCount) : HandedOut × Rx :=
  let s := r.slots i
  ({ data := (range ((s.nfrags - 1) * fragSize + s.lastLen)).map (s.buf.getD fun _ => 0)
     keyframe := s.keyframe
     width := s.width
     height := s.height
     frame := s.frame },
    { r with handed := some i, nextFrame := (s.frame + 1) % 2 ^ 32 })

def dropHanded : Rx :=
  match r.handed with
  | none => r
  | some i => { r.slotDrop i with handed := none }

def keySlots : List (Fin slotCount) :=
  (finRange slotCount).filter fun i =>
    (r.slots i).complete && (r.slots i).keyframe && !(r.started && decide ((r.slots i).frame < r.nextFrame))

/-- The viewer starts at a keyframe, and drops what is older. -/
def startAt (i : Fin slotCount) : Rx :=
  let frame := (r.slots i).frame
  { r with
    slots := fun j => if (r.slots j).used && decide ((r.slots j).frame < frame) then noSlot else r.slots j
    started := true
    needKey := false
    nextFrame := frame }

/-- The slot of the next frame in order, if it is all there. -/
def inOrder : Option (Fin slotCount) :=
  if r.started && !r.needKey then
    (r.slotOf r.nextFrame).filter fun i => (r.slots i).complete
  else none

def next : Option HandedOut × Rx :=
  let r := r.dropHanded
  match r.inOrder with
  | some i => let (out, r) := r.handOut i; (some out, r)
  | none =>
    match r.oldestOf r.keySlots with
    | none => (none, r)
    | some i => let (out, r) := (r.startAt i).handOut i; (some out, r)

/-- `oc_share_rx_need_key` -/
def needKeyframe : Rx := { r with needKey := true }

/-- The fragments missing from a slot, in requests of at most 64; after four of those the whole
frame is asked for. -/
def requests (s : Slot) : List (List Nat) :=
  let missing := (range s.nfrags).filter fun f => !s.got f
  let (out, pending, _) := missing.foldl (fun (state : List (List Nat) × List Nat × Nat) f =>
      let (out, pending, sent) := state
      if sent > 4 then state
      else if (pending ++ [f]).length = 64 then
        if sent + 1 > 4 then (out ++ [[]], [], sent + 1) else (out ++ [pending ++ [f]], [], sent + 1)
      else (out, pending ++ [f], sent))
    ([], [], 0)
  if pending = [] then out else out ++ [pending]

def overdue (now : Int) (i : Fin slotCount) : Bool :=
  let s := r.slots i
  s.used && decide (r.handed ≠ some i) && !s.complete && decide (s.nacks < 3) &&
    !(r.started && decide (s.frame < r.nextFrame)) &&
    !decide (now - (if s.nacks ≠ 0 then s.nackedMs else s.firstMs) < nackMs)

def askAgain (now : Int) (state : List Packet × Rx) (i : Fin slotCount) : List Packet × Rx :=
  let (out, r) := state
  let s := r.slots i
  if r.overdue now i then
    let asks := if s.nfrags = 0 then [[]] else requests s
    (out ++ asks.map (ctlNack r.sharer s.frame), r.setSlot i { s with nacks := s.nacks + 1, nackedMs := now })
  else state

/-- A frame the next one depends on that has not come in time is given up. -/
def giveUp (now : Int) : Rx :=
  if r.started ∧ !r.needKey ∧ r.haveTop ∧ r.topFrame ≥ r.nextFrame then
    let (slot, r) := match r.slotOf r.nextFrame with
      | some i => (some i, r)
      | none => r.slotNew r.nextFrame now
    match slot with
    | none => r
    | some i =>
      if !(r.slots i).complete ∧ now - (r.slots i).firstMs ≥ giveupMs then { r with needKey := true }
      else r
  else r

def askKey (now : Int) : List Packet × Rx :=
  if (!r.started ∧ now - r.bornMs ≥ joinMs) ∨ (r.started ∧ r.needKey) then
    let coming := (finRange slotCount).any fun i =>
      (r.slots i).used && (r.slots i).keyframe && (!r.started || decide ((r.slots i).frame ≥ r.nextFrame)) &&
        decide (now - (r.slots i).firstMs < giveupMs)
    if !coming ∧ (!r.pliAny ∨ now - r.pliMs ≥ pliEveryMs) then
      ([ctlPli r.sharer], { r with pliMs := now, pliAny := true })
    else ([], r)
  else ([], r)

/-- `oc_share_rx_poll`: the packets it emits. -/
def poll (now : Int) : List Packet × Rx :=
  let r := if r.bornMs < 0 then { r with bornMs := now } else r
  let (asked, r) := (finRange slotCount).foldl (askAgain now) ([], r)
  let (key, r) := (r.giveUp now).askKey now
  (asked ++ key, r)

end Rx

end OpenChime.Client.Share
