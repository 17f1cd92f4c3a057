import Mathlib.Algebra.Order.Ring.Nat
import Mathlib.Data.List.Induction
import Mathlib.Data.List.Sort
import OpenChime.Lib.Serial

/-! One sender's jitter buffer (`client/core/call/jitter.c`): packets in by frame number, one
frame out every tick. The counters of the call's statistics are written and never read, and are
left out. -/

set_option autoImplicit false

namespace OpenChime.Client.Jitter

open Serial Function
open List hiding count

def frameMs : Int := 20
def slots : Nat := 64
def maxPacket : Nat := 512
def hist : Nat := 100
def minMs : Int := 40
def maxMs : Int := 240
def plcMax : Nat := 3

structure Slot where
  used : Bool
  frame : BitVec 32
  data : List UInt8

/-- `oc_jitter` -/
structure Buffer where
  slot : Fin slots → Slot
  started : Bool
  idle : Bool
  play : BitVec 32
  newest : BitVec 32
  target : Nat
  grow : Nat
  concealed : Nat
  delay : List Int
  nDelay : Nat
  iDelay : Nat

/-- What `oc_jb_put` (0, 1, 2) and `oc_jb_get` answer; a packet with the frame it is played as. -/
inductive Answer where
  | kept
  | duplicate
  | late
  | nothing
  | packet (frame : BitVec 32) (data : List UInt8)
  | fec (data : List UInt8)
  | plc
  deriving DecidableEq

def noSlot : Slot := ⟨false, 0, []⟩

def init : Buffer where
  slot := fun _ => noSlot
  started := false
  idle := false
  play := 0
  newest := 0
  target := (minMs / frameMs).toNat
  grow := 0
  concealed := 0
  delay := replicate hist 0
  nDelay := 0
  iDelay := 0

/-- A 64-bit number stored in an `int`. -/
def toInt32 (n : Int) : Int := n.bmod (2 ^ 32)

variable (j : Buffer)

def retarget : Buffer :=
  let n := j.nDelay
  if n < 2 then j
  else
    let v := (j.delay.take n).insertionSort (· ≤ ·)
    let spread := v.getD (if n * 95 / 100 < n then n * 95 / 100 else n - 1) 0 - v.getD 0 0
    let ms := toInt32 (toInt32 spread + frameMs)
    let ms := if ms < minMs then minMs else ms
    let ms := if ms > maxMs then maxMs else ms
    { j with target := ((ms + frameMs - 1) / frameMs).toNat }

def noteArrival (frame : BitVec 32) (now : Int) : Buffer :=
  retarget { j with
      delay := j.delay.set j.iDelay (now - frame.toNat * frameMs)
      iDelay := (j.iDelay + 1) % hist
      nDelay := if j.nDelay < hist then j.nDelay + 1 else j.nDelay }

theorem index_lt (frame : BitVec 32) : frame.toNat % slots < slots := Nat.mod_lt _ (by decide)

def index (frame : BitVec 32) : Fin slots := ⟨frame.toNat % slots, index_lt frame⟩

/-- The first packet, or the first of a talk spurt, sets the clock. -/
def setClock (frame : BitVec 32) : Buffer :=
  if !j.started then
    { j with started := true, play := frame, newest := frame, grow := j.target }
  else if j.idle ∧ ahead frame j.newest > 0 then
    { j with play := frame, grow := j.target, idle := false }
  else j

/-- Far ahead of what is playing: start again from here. -/
def jump (frame : BitVec 32) : Buffer :=
  { j with slot := fun _ => noSlot, play := frame, newest := frame, grow := j.target }

def store (frame : BitVec 32) (data : List UInt8) : Answer × Buffer :=
  let s := j.slot (index frame)
  if s.used ∧ s.frame = frame then (.duplicate, j)
  else
    (.kept, { j with
        slot := update j.slot (index frame) ⟨true, frame, data⟩
        newest := if ahead frame j.newest > 0 then frame else j.newest })

def put (frame : BitVec 32) (data : List UInt8) (now : Int) : Answer × Buffer :=
  if maxPacket < data.length then (.late, j)
  else
    let j := setClock (noteArrival j frame now) frame
    if ahead frame j.play < 0 then (.late, { j with grow := if j.grow < 1 then 1 else j.grow })
    else if slots ≤ ahead frame j.play then store (jump j frame) frame data
    else store j frame data

/-- `at`: what is stored for a frame. -/
def stored (frame : BitVec 32) : Option (List UInt8) :=
  let s := j.slot (index frame)
  if s.used ∧ s.frame = frame then some s.data else none

/-- The clock moves on past a frame, whose slot is free again. -/
def pass : Buffer :=
  let s := j.slot (index j.play)
  { j with
    slot := if s.used ∧ s.frame = j.play then
        update j.slot (index j.play) { s with used := false }
      else j.slot
    play := j.play + 1 }

/-- The end of `oc_jb_get`: the frame did not come, nor the one that could rebuild it. -/
def conceal : Answer × Buffer :=
  let passed := pass j
  if ahead j.play j.newest > 0 then
    if j.concealed < plcMax ∧ !j.idle then
      (.plc, { passed with
          concealed := j.concealed + 1
          idle := if j.concealed + 1 = plcMax then true else j.idle })
    else (.nothing, { passed with idle := true, concealed := 0 })
  else if j.concealed < plcMax then (.plc, { passed with concealed := j.concealed + 1 })
  else (.nothing, passed)

/-- The part of `oc_jb_get` that plays a frame. -/
def playFrame : Answer × Buffer :=
  let f := j.play
  match stored j f, stored j (f + 1) with
  | some data, _ => (.packet f data, { pass j with concealed := 0, idle := false })
  | none, some (byte :: rest) => (.fec (byte :: rest), { pass j with concealed := 0 })
  | none, _ => conceal j

/-- More is buffered than the target wants, and nobody is speaking. -/
def gives (quiet : Bool) : Bool := quiet && decide (ahead j.newest j.play > j.target + 1)

def get (quiet : Bool) : Answer × Buffer :=
  if !j.started then (.nothing, j)
  else if 0 < j.grow then
    if 0 < j.concealed ∧ j.concealed < plcMax then
      (.plc, { j with grow := j.grow - 1, concealed := j.concealed + 1 })
    else (.nothing, { j with grow := j.grow - 1 })
  else playFrame (if gives j quiet then pass j else j)

inductive Call where
  | put (frame : BitVec 32) (data : List UInt8) (now : Int)
  | get (quiet : Bool)

def step : Call → Answer × Buffer
  | .put frame data now => put j frame data now
  | .get quiet => get j quiet

def run (calls : List Call) : Buffer := calls.foldl (fun j call => (step j call).2) j

def log : Buffer → List Call → List (Call × Answer)
  | _, [] => []
  | j, call :: calls => (call, (step j call).1) :: log (step j call).2 calls

def Call.isGet : Call → Bool
  | .put .. => false
  | .get _ => true

def gets (calls : List Call) : Nat := calls.countP Call.isGet

def keptOf : Call × Answer → Option (BitVec 32 × List UInt8)
  | (.put frame data _, .kept) => some (frame, data)
  | _ => none

def playedOf : Call × Answer → Option (BitVec 32 × List UInt8)
  | (_, .packet frame data) => some (frame, data)
  | _ => none

def lates (calls : List Call) : Nat := (log j calls).countP fun entry => entry.2 = .late

/-- A quiet tick that does not wait gives the frame up, more than the target and one being buffered. -/
def Skips (call : Call) (frame : BitVec 32) : Prop :=
  call = .get true ∧ j.grow = 0 ∧ ahead j.newest j.play > j.target + 1 ∧ frame = j.play

/-- A packet as far ahead as there are slots comes. -/
def Jumps (call : Call) : Prop :=
  ∃ frame data now, call = .put frame data now ∧ data.length ≤ maxPacket ∧ slots ≤ ahead frame j.play

/-- Along the calls the packet is played, or is given up in one of the two ways there are. -/
def Settles (frame : BitVec 32) (data : List UInt8) : Buffer → List Call → Prop
  | _, [] => False
  | j, call :: calls =>
    ((step j call).1 = .packet frame data ∨ Skips j call frame ∨ Jumps j call) ∨
      Settles frame data (step j call).2 calls

/-- The newest frame kept, counted from a base, and the ticks since it came, after one more call. -/
def noteEntry (base : BitVec 32) (newest : Option (Nat × Nat)) (entry : Call × Answer) : Option (Nat × Nat) :=
  match keptOf entry, newest with
  | some p, some (n, ticks) => some (if n < count base p.1 then (count base p.1, 0) else (n, ticks))
  | some p, none => some (count base p.1, 0)
  | none, newest => newest.map fun lead => (lead.1, lead.2 + if entry.1.isGet then 1 else 0)

def newestKept (base : BitVec 32) (entries : List (Call × Answer)) : Option (Nat × Nat) :=
  entries.foldl (noteEntry base) none

/-- The frames are less than half the ring on from the base, and the clock, which goes on from the
newest one by one a tick, is not half the ring past one when it comes. -/
def Timely (base : BitVec 32) (calls : List Call) : Prop :=
  ∀ before frame data now rest, calls = before ++ .put frame data now :: rest →
    count base frame < 2 ^ 31 ∧
      ∀ lead ∈ newestKept base (log init before), lead.1 + lead.2 < count base frame + 2 ^ 31

theorem stored_eq_some {j : Buffer} {frame : BitVec 32} {data : List UInt8} : stored j frame = some data ↔
      ((j.slot (index frame)).used = true ∧ (j.slot (index frame)).frame = frame) ∧
        (j.slot (index frame)).data = data := by
  dsimp only [stored]
  split <;> simp [*]

theorem stored_congr {j j' : Buffer} (same : j'.slot = j.slot) (frame : BitVec 32) :
    stored j' frame = stored j frame := by
  rw [stored, stored, same]

/-- The buffer as numbers counted from a base: the clock is at `P`, the newest packet is `N`,
and what is stored is from `P` on, not past `N`, in the slots of one turn of the ring. -/
structure Rings (base : BitVec 32) (j : Buffer) (P N : Nat) : Prop where
  started : j.started = true
  play : j.play = place base P
  newest : j.newest = place base N
  turn : N < P + 64
  filled : ∀ i, (j.slot i).used = true →
    ∃ o, (j.slot i).frame = place base o ∧ index (place base o) = i ∧ P ≤ o ∧ o ≤ N ∧ o < P + 64

/-- The clock is past the newest packet when the buffer is idle, and before that no further past it
than ticks have been concealed. -/
structure Holds (base : BitVec 32) (j : Buffer) (P N : Nat) : Prop extends Rings base j P N where
  idle : j.idle = true → N < P
  busy : j.idle = false → P ≤ N + 1 + j.concealed
  calm : j.concealed ≤ plcMax

section

variable {base : BitVec 32} {j j' : Buffer} {P N o : Nat} {frame : BitVec 32} {data : List UInt8}

theorem Rings.of_stored (rings : Rings base j P N) (found : stored j frame = some data) :
    ∃ o, frame = place base o ∧ P ≤ o ∧ o ≤ N ∧ o < P + 64 := by
  obtain ⟨⟨used, named⟩, -⟩ := stored_eq_some.mp found
  obtain ⟨o, at_, -, bounds⟩ := rings.filled _ used
  exact ⟨o, named.symm.trans at_, bounds⟩

theorem eq_of_index {m n : Nat} (within : m < n + 64) (within' : n < m + 64)
    (same : index (place base m) = index (place base n)) : m = n :=
  eq_of_ring within within' (congrArg Fin.val same)

theorem Rings.congr (rings : Rings base j P N) (slot : j'.slot = j.slot) (started : j'.started = j.started)
    (play : j'.play = j.play) (newest : j'.newest = j.newest) : Rings base j' P N where
  started := started.trans rings.started
  play := play.trans rings.play
  newest := newest.trans rings.newest
  turn := rings.turn
  filled := by
    rw [slot]
    exact rings.filled

theorem pass_used {i : Fin slots} (used : ((pass j).slot i).used = true) :
    (pass j).slot i = j.slot i ∧ ¬ (i = index j.play ∧ (j.slot i).frame = j.play) := by
  by_cases free : (j.slot (index j.play)).used ∧ (j.slot (index j.play)).frame = j.play
  · have slot : (pass j).slot = update j.slot (index j.play) { j.slot (index j.play) with used := false } := if_pos free
    by_cases here : i = index j.play
    · rw [slot, here, update_self] at used
      cases used
    · rw [slot, update_of_ne here]
      exact ⟨rfl, fun both => here both.1⟩
  · have slot : (pass j).slot = j.slot := if_neg free
    rw [slot] at used ⊢
    refine ⟨rfl, fun both => free ?_⟩
    rw [← both.1]
    exact ⟨used, both.2⟩

theorem Rings.pass (rings : Rings base j P N) : Rings base (pass j) (P + 1) N where
  __ := rings
  play := by
    rw [← place_succ, ← rings.play]
    rfl
  turn := rings.turn.trans (by omega)
  filled := by
    intro i used
    obtain ⟨same, other⟩ := pass_used used
    rw [same] at used ⊢
    obtain ⟨o, at_, here, low, high, turn⟩ := rings.filled i used
    have later : P ≠ o := by
      intro atClock
      rw [← atClock, ← rings.play] at at_ here
      exact other ⟨here.symm, at_⟩
    exact ⟨o, at_, here, by omega, high, by omega⟩

theorem stored_pass (j : Buffer) (frame : BitVec 32) :
    stored (pass j) frame = if frame = j.play then none else stored j frame := by
  apply Option.ext
  intro data
  rw [stored_eq_some]
  by_cases atClock : frame = j.play
  · rw [if_pos atClock]
    constructor
    · intro found
      obtain ⟨same, other⟩ := pass_used found.1.1
      rw [same] at found
      exact absurd ⟨by rw [atClock], found.1.2.trans atClock⟩ other
    · nofun
  rw [if_neg atClock, stored_eq_some]
  constructor
  · intro found
    have same := (pass_used found.1.1).1
    rwa [same] at found
  · intro found
    have untouched : (pass j).slot (index frame) = j.slot (index frame) := by
      dsimp only [Jitter.pass]
      split
      · next free =>
        refine update_of_ne (fun here => atClock ?_) _ _
        rw [← found.1.2, here, free.2]
      · rfl
    rwa [untouched]

theorem store_duplicate (found : stored j frame ≠ none) : store j frame data = (.duplicate, j) := by
  obtain ⟨held, found⟩ := Option.ne_none_iff_exists'.mp found
  exact if_pos (stored_eq_some.mp found).1

theorem store_kept (empty : stored j frame = none) : store j frame data = (.kept, { j with
          slot := update j.slot (index frame) ⟨true, frame, data⟩
          newest := if ahead frame j.newest > 0 then frame else j.newest }) := by
  apply if_neg
  intro found
  simp [stored_eq_some.mpr ⟨found, rfl⟩] at empty

theorem Rings.store (rings : Rings base j P N) (inTurn : P ≤ o ∧ o < P + 64) (small : o < 2 ^ 31) (heard : N < 2 ^ 31)
    (empty : stored j (place base o) = none) (busy : j.idle = false) (calm : j.concealed ≤ plcMax) :
    ∃ kept, Jitter.store j (place base o) data = (.kept, kept) ∧ Holds base kept P (max N o) ∧
      (∀ g, stored kept g = if g = place base o then some data else stored j g) ∧
      kept.grow = j.grow := by
  refine ⟨_, store_kept empty, ⟨⟨rings.started, rings.play, ?_, ?_, ?_⟩, ?_, ?_, calm⟩, ?_, rfl⟩
  · rw [rings.newest, ahead_place (by omega) (by omega)]
    split
    · rw [max_eq_right (by omega)]
    · rw [max_eq_left (by omega)]
  · exact max_lt rings.turn inTurn.2
  · intro i used
    dsimp only at used ⊢
    by_cases here : i = index (place base o)
    · subst here
      rw [update_self]
      exact ⟨o, rfl, rfl, inTurn.1, le_max_right N o, inTurn.2⟩
    · rw [update_of_ne here] at used ⊢
      obtain ⟨o', at_, index_, low, high, turn⟩ := rings.filled i used
      exact ⟨o', at_, index_, low, le_max_of_le_left high, turn⟩
  · intro quiet
    rw [show j.idle = true from quiet] at busy
    cases busy
  · intro _
    omega
  · intro g
    by_cases same : g = place base o
    · rw [if_pos same, same, stored_eq_some]
      simp
    rw [if_neg same]
    by_cases here : index g = index (place base o)
    · -- the slot was free, so nothing else of this turn was in it
      have absent : stored j g = none := by
        by_contra present
        obtain ⟨held, found⟩ := Option.ne_none_iff_exists'.mp present
        obtain ⟨o', at_, low, high, turn⟩ := rings.of_stored found
        rw [at_] at here same
        exact same (by rw [eq_of_index (by omega) (by omega) here])
      rw [absent, stored]
      simp [here, Ne.symm same]
    · simp only [Jitter.stored, update_of_ne here]

theorem retarget_eq (j : Buffer) : ∃ target, retarget j = { j with target } ∧ (j.target ≤ 12 → target ≤ 12) := by
  unfold retarget
  dsimp only
  split
  · exact ⟨j.target, rfl, id⟩
  refine ⟨_, rfl, fun _ => ?_⟩
  simp only [minMs, maxMs, frameMs]
  omega

theorem noteArrival_eq (j : Buffer) (frame : BitVec 32) (now : Int) : ∃ target delay nDelay iDelay,
      noteArrival j frame now = { j with target, delay, nDelay, iDelay } ∧ (j.target ≤ 12 → target ≤ 12) := by
  obtain ⟨target, changed, bound⟩ := retarget_eq { j with
      delay := j.delay.set j.iDelay (now - frame.toNat * frameMs)
      iDelay := (j.iDelay + 1) % hist
      nDelay := if j.nDelay < hist then j.nDelay + 1 else j.nDelay }
  exact ⟨target, _, _, _, changed, bound⟩

inductive PutEnd (base : BitVec 32) (j : Buffer) (P N o : Nat) (data : List UInt8) :
    Answer × Buffer → Prop where
  | refused {answer : Answer} {after : Buffer} (unkept : answer = .duplicate ∨ answer = .late)
      (holds : Holds base after P N) (same : ∀ g, stored after g = stored j g)
      (waits : after.grow ≤ j.grow + if answer = .late then 1 else 0) :
      PutEnd base j P N o data (answer, after)
  | added {after : Buffer} (inTurn : P ≤ o) (empty : stored j (place base o) = none)
      (holds : Holds base after P (max N o))
      (added : ∀ g, stored after g = if g = place base o then some data else stored j g)
      (waits : after.grow = j.grow) :
      PutEnd base j P N o data (.kept, after)
  | restarted {after : Buffer} (short : data.length ≤ maxPacket) (newer : N < o)
      (why : (∀ g, stored j g = none) ∨ P + 64 ≤ o)
      (holds : Holds base after o o)
      (only : ∀ g, stored after g = if g = place base o then some data else none) :
      PutEnd base j P N o data (.kept, after)

theorem Holds.empty_of_idle (holds : Holds base j P N) (idle : j.idle = true) (i : Fin slots) :
    (j.slot i).used = false := by
  have silent := holds.idle idle
  by_contra used
  obtain ⟨o, -, -, low, high, -⟩ := holds.filled i (by simpa using used)
  omega

theorem stored_of_unused (unused : ∀ i, (j.slot i).used = false) (frame : BitVec 32) : stored j frame = none := by
  apply if_neg
  intro found
  rw [unused] at found
  cases found.1

theorem store_first (started : j.started = true) (unused : ∀ i, (j.slot i).used = false)
    (play : j.play = place base o) (newest : j.newest = place base N) (older : N ≤ o)
    (busy : j.idle = false) (calm : j.concealed ≤ plcMax) (small : o < 2 ^ 31) :
    ∃ kept, store j (place base o) data = (.kept, kept) ∧ Holds base kept o o ∧
      ∀ g, stored kept g = if g = place base o then some data else none := by
  have rings : Rings base j o N := ⟨started, play, newest, older.trans_lt (by omega), by simp [unused]⟩
  have empty := stored_of_unused unused
  obtain ⟨kept, same, after, only, -⟩ :=
    rings.store ⟨le_refl o, by omega⟩ small (by omega) (empty (place base o)) busy calm
  rw [max_eq_right older] at after
  refine ⟨kept, same, after, fun g => ?_⟩
  rw [only, empty]

theorem put_end (holds : Holds base j P N) (timely : P < o + 2 ^ 31) (heard : N < 2 ^ 31) (small : o < 2 ^ 31)
    (now : Int) : PutEnd base j P N o data (put j (place base o) data now) := by
  by_cases long : maxPacket < data.length
  · rw [put, if_pos long]
    exact .refused (.inr rfl) holds (fun _ => rfl) (Nat.le_add_right _ _)
  obtain ⟨target, delay, nDelay, iDelay, noted, -⟩ := noteArrival_eq j (place base o) now
  rw [put, if_neg long, noted]
  set heardOf : Buffer := { j with target, delay, nDelay, iDelay } with arrived
  have noteHolds : Holds base heardOf P N := ⟨holds.congr rfl rfl rfl rfl, holds.idle, holds.busy, holds.calm⟩
  have noteStored : ∀ g, stored heardOf g = stored j g := stored_congr rfl
  have distance : ahead (place base o) heardOf.newest = (o : Int) - N := by
    rw [noteHolds.newest, ahead_place (by omega) (by omega)]
  by_cases spurt : heardOf.idle = true ∧ N < o
  · -- silence before it: the packet sets the clock
    have unused := noteHolds.empty_of_idle spurt.1
    have clock : setClock heardOf (place base o) =
        { heardOf with play := place base o, grow := heardOf.target, idle := false } := by
      rw [setClock, if_neg (by simp [noteHolds.started]), if_pos ⟨spurt.1, by omega⟩]
    obtain ⟨kept, same, after, only⟩ := @store_first base
      { heardOf with play := place base o, grow := heardOf.target, idle := false } N o data
      noteHolds.started unused rfl noteHolds.newest spurt.2.le rfl noteHolds.calm small
    have here : ahead (place base o) (place base o) = 0 := by
      rw [ahead_place (by omega) (by omega)]
      omega
    dsimp only
    rw [clock, here, if_neg (by decide), same]
    refine .restarted (Nat.not_lt.mp long) spurt.2 (.inl fun g => ?_) after only
    exact stored_of_unused unused g
  · have clock : setClock heardOf (place base o) = heardOf := by
      rw [setClock, if_neg (by simp [noteHolds.started]), if_neg]
      intro both
      exact spurt ⟨both.1, by omega⟩
    have gap : ahead (place base o) heardOf.play = (o : Int) - P := by
      rw [noteHolds.play, ahead_place (by omega) (by omega)]
    dsimp only
    rw [clock, gap]
    by_cases behind : (o : Int) - P < 0
    · rw [if_pos behind]
      refine .refused (.inr rfl) ⟨noteHolds.congr rfl rfl rfl rfl, noteHolds.idle, noteHolds.busy, noteHolds.calm⟩
        noteStored ?_
      dsimp only [heardOf]
      split <;> simp
    rw [if_neg behind]
    by_cases far : (slots : Int) ≤ (o : Int) - P
    · have turn := noteHolds.turn
      have space : (64 : Int) ≤ (o : Int) - P := far
      have newer : N < o := by omega
      have busy : heardOf.idle = false := by
        cases idle : heardOf.idle with
        | false => rfl
        | true => exact absurd ⟨idle, newer⟩ spurt
      obtain ⟨kept, same, after, only⟩ := @store_first base (jump heardOf (place base o)) o o data
        noteHolds.started (fun _ => rfl) rfl rfl (le_refl o) busy noteHolds.calm small
      rw [if_pos far, same]
      exact .restarted (Nat.not_lt.mp long) newer (.inr (by omega)) after only
    have near : ¬ (64 : Int) ≤ (o : Int) - P := far
    rw [if_neg far]
    by_cases empty : stored heardOf (place base o) = none
    · have busy : heardOf.idle = false := by
        cases idle : heardOf.idle with
        | false => rfl
        | true =>
          have silent := noteHolds.idle idle
          exact absurd ⟨idle, by omega⟩ spurt
      obtain ⟨kept, same, after, added, waits⟩ := @Rings.store base heardOf P N o data
        noteHolds.toRings ⟨by omega, by omega⟩ small heard empty busy noteHolds.calm
      rw [same]
      refine .added (by omega) (by rw [← noteStored, empty]) after (fun g => ?_) waits
      rw [added, noteStored]
    · rw [store_duplicate empty]
      exact .refused (.inl rfl) noteHolds noteStored (Nat.le_add_right _ _)

structure Passed (base : BitVec 32) (j : Buffer) (P N : Nat) (result : Answer × Buffer) : Prop where
  holds : Holds base result.2 (P + 1) N
  same : ∀ g, stored result.2 g = stored (pass j) g
  packet : ∀ f d, result.1 = .packet f d ↔ f = j.play ∧ stored j f = some d
  waits : result.2.grow = j.grow

theorem Passed.missing {answer : Answer} (holds : Holds base j P N) (missing : stored j j.play = none)
    (other : ∀ f d, answer ≠ .packet f d) (idle : Bool) (concealed : Nat) (silent : idle = true → N ≤ P)
    (busy : idle = false → P ≤ N + concealed) (calm : concealed ≤ plcMax) :
    Passed base j P N (answer, { pass j with idle, concealed }) where
  holds := by
    refine ⟨holds.pass.congr rfl rfl rfl rfl, fun isIdle => Nat.lt_succ_of_le (silent isIdle), fun isBusy => ?_, calm⟩
    have := busy isBusy
    dsimp only
    omega
  same := stored_congr rfl
  packet := by
    intro f d
    constructor
    · intro same
      exact absurd same (other f d)
    · intro both
      rw [both.1, missing] at both
      cases both.2
  waits := rfl

theorem conceal_passed (holds : Holds base j P N) (timely : P < N + 2 ^ 31) (heard : N < 2 ^ 31)
    (missing : stored j j.play = none) : Passed base j P N (conceal j) := by
  have silent (isIdle : j.idle = true) : N ≤ P := (holds.idle isIdle).le
  have busy := holds.busy
  have distance : ahead j.play j.newest = (P : Int) - N := by
    rw [holds.play, holds.newest, ahead_place (by omega) (by omega)]
  dsimp only [conceal]
  split
  · split
    · next more =>
      refine .missing holds missing (by simp) _ _ (fun _ => by omega) (fun isBusy => ?_) more.1
      have := busy (by simpa using more.2)
      omega
    · exact .missing holds missing (by simp) _ _ (fun _ => by omega) (by simp) (Nat.zero_le _)
  · split
    · next more =>
      exact .missing holds missing (by simp) j.idle _ silent (fun _ => by omega) more
    · exact .missing holds missing (by simp) j.idle j.concealed silent (fun _ => by omega)
        holds.calm

theorem playFrame_passed (holds : Holds base j P N) (timely : P < N + 2 ^ 31) (heard : N < 2 ^ 31) :
    Passed base j P N (playFrame j) := by
  have concealed := conceal_passed holds timely heard
  dsimp only [playFrame]
  cases here : stored j j.play with
  | some data =>
    obtain ⟨o, at_, low, high, -⟩ := holds.of_stored here
    refine ⟨⟨holds.pass.congr rfl rfl rfl rfl, fun impossible => ?_, fun _ => ?_, Nat.zero_le _⟩,
      stored_congr rfl, ?_, rfl⟩
    · cases impossible
    · omega
    · intro f d
      constructor
      · intro packet
        cases packet
        exact ⟨rfl, here⟩
      · intro both
        obtain ⟨atClock, found⟩ := both
        rw [atClock, here] at found
        rw [atClock, Option.some.inj found]
  | none =>
    cases next_ : stored j (j.play + 1) with
    | none => exact concealed here
    | some copy =>
      cases copy with
      | nil => exact concealed here
      | cons byte rest =>
        obtain ⟨o, at_, low, high, -⟩ := holds.of_stored next_
        exact .missing holds here (by simp) j.idle 0 (fun isIdle => (holds.idle isIdle).le)
          (fun _ => by omega) (Nat.zero_le _)

/-- What a tick does to a buffer that has started: it waits, or it plays the frame the clock is
at, or the one after it when that one is given up. -/
inductive GetEnd (base : BitVec 32) (j : Buffer) (P N : Nat) (quiet : Bool) :
    Answer × Buffer → Prop where
  | waited {answer : Answer} {after : Buffer} (silent : ∀ f d, answer ≠ .packet f d)
      (holds : Holds base after P N) (same : ∀ g, stored after g = stored j g)
      (waits : after.grow + 1 = j.grow) :
      GetEnd base j P N quiet (answer, after)
  | played {answer : Answer} {after : Buffer} (Q : Nat)
      (skip : Q = P ∨ Q = P + 1 ∧ Q ≤ N ∧ Skips j (.get quiet) (place base P))
      (holds : Holds base after (Q + 1) N)
      (left : ∀ g, stored after g = if g = place base P ∨ g = place base Q then none else stored j g)
      (packet : ∀ f d, answer = .packet f d ↔ f = place base Q ∧ stored j f = some d)
      (waits : after.grow = 0) :
      GetEnd base j P N quiet (answer, after)

theorem get_end (holds : Holds base j P N) (timely : P < N + 2 ^ 31) (heard : N < 2 ^ 31)
    (quiet : Bool) : GetEnd base j P N quiet (get j quiet) := by
  rw [get, if_neg (by simp [holds.started])]
  by_cases growing : 0 < j.grow
  · rw [if_pos growing]
    split
    · next more =>
      refine .waited nofun
        ⟨holds.congr rfl rfl rfl rfl, holds.idle, fun isBusy => ?_, more.2⟩ (stored_congr rfl)
          (Nat.sub_add_cancel growing)
      have := holds.busy isBusy
      dsimp only
      omega
    · exact .waited nofun
        ⟨holds.congr rfl rfl rfl rfl, holds.idle, holds.busy, holds.calm⟩ (stored_congr rfl)
        (Nat.sub_add_cancel growing)
  have ready : j.grow = 0 := by omega
  rw [if_neg growing]
  by_cases give : gives j quiet = true
  · obtain ⟨isQuiet, deep⟩ := Bool.and_eq_true_iff.mp give
    have depth := of_decide_eq_true deep
    have distance : ahead j.newest j.play = (N : Int) - P := by
      rw [holds.newest, holds.play, ahead_place (by omega) (by omega)]
    have passed : Holds base (pass j) (P + 1) N := by
      refine ⟨holds.pass, fun isIdle => ?_, fun _ => by omega, holds.calm⟩
      have := holds.idle isIdle
      omega
    have spec := playFrame_passed passed (by omega) heard
    rw [if_pos give]
    generalize playFrame (pass j) = result at spec ⊢
    obtain ⟨kept, same, packet, waits⟩ := spec
    have clock : (pass j).play = place base (P + 1) := holds.pass.play
    have apart : place base (P + 1) ≠ place base P := by
      rw [Ne, place_inj (by omega) (by omega)]
      omega
    refine .played (P + 1) (.inr ⟨rfl, by omega, ?_, ready, depth, holds.play.symm⟩) kept ?_ ?_ (waits.trans ready)
    · rw [isQuiet]
    · intro g
      rw [same, stored_pass, stored_pass, clock, ← holds.play]
      by_cases second : g = place base (P + 1) <;> by_cases first : g = j.play <;>
        simp [first, second]
    · intro f d
      rw [packet, clock, stored_pass, holds.play]
      refine and_congr_right fun atNext => ?_
      rw [atNext, if_neg apart]
  · have spec := playFrame_passed holds timely heard
    rw [if_neg give]
    generalize playFrame j = result at spec ⊢
    obtain ⟨kept, same, packet, waits⟩ := spec
    refine .played P (.inl rfl) kept ?_ ?_ (waits.trans ready)
    · intro g
      simp only [same, stored_pass, holds.play, or_self]
    · intro f d
      rw [packet, holds.play]

structure Bounded (j : Buffer) : Prop where
  target : j.target ≤ 12
  grow : j.grow ≤ 12

variable (bounded : Bounded j)

include bounded

theorem Bounded.setClock (frame : BitVec 32) : Bounded (setClock j frame) := by
  unfold Jitter.setClock
  split
  · exact ⟨bounded.target, bounded.target⟩
  split
  · exact ⟨bounded.target, bounded.target⟩
  · exact bounded

theorem Bounded.store (frame : BitVec 32) (data : List UInt8) : Bounded (store j frame data).2 := by
  dsimp only [Jitter.store]
  split
  · exact bounded
  · exact { bounded with }

theorem Bounded.put (frame : BitVec 32) (data : List UInt8) (now : Int) : Bounded (put j frame data now).2 := by
  obtain ⟨target, delay, nDelay, iDelay, noted, bound⟩ := noteArrival_eq j frame now
  have arrived : Bounded (noteArrival j frame now) := by
    rw [noted]
    exact ⟨bound bounded.target, bounded.grow⟩
  have clock := arrived.setClock frame
  dsimp only [Jitter.put]
  split
  · exact bounded
  split
  · refine ⟨clock.target, ?_⟩
    dsimp only
    split
    · omega
    · exact clock.grow
  · split
    · have restarted : Bounded (jump (Jitter.setClock (noteArrival j frame now) frame) frame) :=
        ⟨clock.target, clock.target⟩
      exact restarted.store frame data
    · exact clock.store frame data

theorem Bounded.conceal : Bounded (conceal j).2 := by
  dsimp only [Jitter.conceal]
  split
  · split <;> exact { bounded with }
  · split <;> exact { bounded with }

theorem Bounded.playFrame : Bounded (playFrame j).2 := by
  dsimp only [Jitter.playFrame]
  split
  · exact { bounded with }
  · exact { bounded with }
  · exact bounded.conceal

theorem Bounded.get (quiet : Bool) : Bounded (get j quiet).2 := by
  have fewer : j.grow - 1 ≤ 12 := (Nat.sub_le _ _).trans bounded.grow
  unfold Jitter.get
  split
  · exact bounded
  split
  · split <;> exact ⟨bounded.target, fewer⟩
  split
  · exact Bounded.playFrame { bounded with }
  · exact bounded.playFrame

theorem Bounded.step (call : Call) : Bounded (step j call).2 := by
  cases call with
  | put frame data now => exact bounded.put frame data now
  | get quiet => exact bounded.get quiet

theorem Bounded.run (calls : List Call) : Bounded (run j calls) := by
  induction calls generalizing j with
  | nil => exact bounded
  | cons call calls ih => exact ih (bounded.step call)

omit bounded

theorem bounded_init : Bounded init := ⟨by decide, by decide⟩

end

theorem run_append (calls more : List Call) : run j (calls ++ more) = run (run j calls) more := foldl_append

theorem log_append (calls more : List Call) : log j (calls ++ more) = log j calls ++ log (run j calls) more := by
  induction calls generalizing j with
  | nil => rfl
  | cons call calls ih => exact congrArg ((call, (step j call).1) :: ·) (ih (step j call).2)

structure Fresh (j : Buffer) : Prop where
  started : j.started = false
  idle : j.idle = false
  calm : j.concealed ≤ plcMax
  unused : ∀ i, (j.slot i).used = false

structure Delivers (base : BitVec 32) (entries : List (Call × Answer)) (j : Buffer) (P N : Nat) : Prop where
  holds : Holds base j P N
  heard : N < 2 ^ 31
  clock : ∃ ticks, newestKept base entries = some (N, ticks) ∧ P ≤ N + ticks
  kept : ∀ p ∈ entries.filterMap keptOf, ∃ o ≤ N, p.1 = place base o ∧ (o < P ∨ stored j p.1 = some p.2)
  once : ((entries.filterMap keptOf).map Prod.fst).Nodup
  stored : ∀ frame data, stored j frame = some data → (frame, data) ∈ entries.filterMap keptOf
  played : ∀ p ∈ entries.filterMap playedOf, p ∈ entries.filterMap keptOf ∧ ∃ o, p.1 = place base o ∧ o < P ∧ o ≤ N
  ordered : ((entries.filterMap playedOf).map fun p => count base p.1).Pairwise (· < ·)

section

variable {base : BitVec 32} {entries : List (Call × Answer)}
  {j after : Buffer} {P N Q : Nat} {frame : BitVec 32} {data : List UInt8} {now : Int}
  {quiet : Bool} {call : Call} {answer : Answer} {ticks : Nat}

theorem kept_of_kept : (entries ++ [(Call.put frame data now, Answer.kept)]).filterMap keptOf =
    entries.filterMap keptOf ++ [(frame, data)] := by
  simp [keptOf]

theorem kept_of_other (other : answer ≠ .kept) :
    (entries ++ [(call, answer)]).filterMap keptOf = entries.filterMap keptOf := by
  cases call <;> cases answer <;> simp [keptOf] at other ⊢

theorem newestKept_kept (newest : newestKept base entries = some (N, ticks)) (reached : P ≤ count base frame) :
    ∃ ticks', newestKept base (entries ++ [(.put frame data now, .kept)]) =
      some (max N (count base frame), ticks') ∧ P ≤ max N (count base frame) + ticks' := by
  have noted : newestKept base (entries ++ [(.put frame data now, .kept)]) =
      some (if N < count base frame then (count base frame, 0) else (N, ticks)) := by
    rw [newestKept] at newest
    rw [newestKept, foldl_append, newest]
    rfl
  by_cases newer : N < count base frame
  · rw [noted, if_pos newer, max_eq_right newer.le]
    exact ⟨0, rfl, reached⟩
  · rw [noted, if_neg newer, max_eq_left (by omega)]
    exact ⟨ticks, rfl, by omega⟩

theorem newestKept_other (other : answer ≠ .kept) : newestKept base (entries ++ [(call, answer)]) =
    (newestKept base entries).map fun lead => (lead.1, lead.2 + if call.isGet then 1 else 0) := by
  rw [newestKept, foldl_append]
  cases call <;> cases answer <;> first | rfl | exact absurd rfl other

theorem newestKept_on (other : answer ≠ .kept) (newest : newestKept base entries = some (N, ticks)) :
    newestKept base (entries ++ [(call, answer)]) = some (N, ticks + if call.isGet then 1 else 0) := by
  rw [newestKept_other other, newest]
  rfl

theorem played_of_other (other : ∀ f d, answer ≠ .packet f d) :
    (entries ++ [(call, answer)]).filterMap playedOf = entries.filterMap playedOf := by
  cases answer with
  | packet f d => exact absurd rfl (other f d)
  | _ => simp [playedOf]

theorem answer_of_playedOf {p : BitVec 32 × List UInt8} (out : playedOf (call, answer) = some p) :
    answer = .packet p.1 p.2 := by
  cases answer with
  | packet f d =>
    cases out
    rfl
  | _ => cases out

def OfTick (answer : Answer) : Prop := answer ≠ .kept ∧ answer ≠ .late

theorem conceal_ofTick (j : Buffer) : OfTick (conceal j).1 := by
  dsimp only [conceal]
  split
  · split <;> simp [OfTick]
  · split <;> simp [OfTick]

theorem playFrame_ofTick (j : Buffer) : OfTick (playFrame j).1 := by
  dsimp only [playFrame]
  split
  · simp [OfTick]
  · simp [OfTick]
  · exact conceal_ofTick j

theorem get_ofTick (j : Buffer) (quiet : Bool) : OfTick (Jitter.get j quiet).1 := by
  unfold Jitter.get
  split
  · simp [OfTick]
  split
  · split <;> simp [OfTick]
  · exact playFrame_ofTick _

variable (delivers : Delivers base entries j P N)

include delivers

theorem Delivers.unchanged (holds : Holds base after P N) (same : ∀ g, Jitter.stored after g = Jitter.stored j g)
    (unkept : answer ≠ .kept) (silent : ∀ f d, answer ≠ .packet f d) :
    Delivers base (entries ++ [(call, answer)]) after P N where
  holds := holds
  heard := delivers.heard
  clock := by
    obtain ⟨ticks, newest, clock⟩ := delivers.clock
    exact ⟨_, newestKept_on unkept newest, clock.trans (by omega)⟩
  kept := by
    rw [kept_of_other unkept]
    intro p member
    rw [same]
    exact delivers.kept p member
  once := by
    rw [kept_of_other unkept]
    exact delivers.once
  stored := by
    rw [kept_of_other unkept]
    intro frame data found
    rw [same] at found
    exact delivers.stored frame data found
  played := by
    rw [kept_of_other unkept, played_of_other silent]
    exact delivers.played
  ordered := by
    rw [played_of_other silent]
    exact delivers.ordered

theorem Delivers.keep {P' : Nat} (holds : Holds base after P' (max N (count base frame)))
    (inside : count base frame < 2 ^ 31) (reached : P' ≤ count base frame)
    (fresh : ∀ p ∈ entries.filterMap keptOf, p.1 ≠ frame) (older : ∀ o' ≤ N, o' < P → o' < P')
    (left : ∀ o' ≤ N, ∀ d, Jitter.stored j (place base o') = some d →
      o' < P' ∨ Jitter.stored after (place base o') = some d)
    (found : Jitter.stored after frame = some data)
    (only : ∀ g d, Jitter.stored after g = some d → g = frame ∧ d = data ∨ Jitter.stored j g = some d) :
    Delivers base (entries ++ [(.put frame data now, .kept)]) after P' (max N (count base frame)) where
  holds := holds
  heard := max_lt delivers.heard inside
  clock := by
    obtain ⟨ticks, newest, -⟩ := delivers.clock
    exact newestKept_kept newest reached
  kept := by
    rw [kept_of_kept]
    intro p member
    rcases mem_append.mp member with earlier | added
    · obtain ⟨o', below, at_, state⟩ := delivers.kept p earlier
      refine ⟨o', le_max_of_le_left below, at_, ?_⟩
      cases state with
      | inl passed => exact .inl (older o' below passed)
      | inr waiting =>
        rw [at_] at waiting ⊢
        exact left o' below p.2 waiting
    · rw [mem_singleton.mp added]
      exact ⟨_, le_max_right _ _, (place_count base frame).symm, .inr found⟩
  once := by
    rw [kept_of_kept, map_append, nodup_append]
    refine ⟨delivers.once, by simp, ?_⟩
    intro first earlier second added same
    obtain ⟨p, member, name⟩ := mem_map.mp earlier
    have second_ : second = frame := by simpa using added
    exact fresh p member (by rw [name, same, second_])
  stored := by
    rw [kept_of_kept]
    intro g d present
    cases only g d present with
    | inl this =>
      rw [this.1, this.2]
      simp
    | inr earlier => exact mem_append_left _ (delivers.stored g d earlier)
  played := by
    rw [kept_of_kept, played_of_other (by simp)]
    intro p member
    obtain ⟨wasKept, o', at_, passed, below⟩ := delivers.played p member
    exact ⟨mem_append_left _ wasKept, o', at_, older o' below passed, le_max_of_le_left below⟩
  ordered := by
    rw [played_of_other (by simp)]
    exact delivers.ordered

theorem Delivers.put (inside : count base frame < 2 ^ 31)
    (timely : ∀ lead ∈ newestKept base entries, lead.1 + lead.2 < count base frame + 2 ^ 31) :
    ∃ P' N', Delivers base (entries ++ [(.put frame data now, (put j frame data now).1)])
      (put j frame data now).2 P' N' := by
  have heard := delivers.heard
  obtain ⟨ticks, newest, clock⟩ := delivers.clock
  have reach := timely _ newest
  have ended := @put_end base j P N (count base frame) data delivers.holds (by omega) heard inside now
  have named : frame = place base (count base frame) := (place_count base frame).symm
  rw [place_count] at ended
  set o := count base frame with place_
  generalize Jitter.put j frame data now = result at ended ⊢
  cases ended with
  | refused unkept holds same waits =>
    refine ⟨P, N, delivers.unchanged holds same ?_ ?_⟩
    · rcases unkept with rfl | rfl <;> simp
    · rcases unkept with rfl | rfl <;> simp
  | added inTurn empty holds added waits =>
    rw [place_count] at empty added
    refine ⟨P, max N o, delivers.keep holds inside inTurn ?_ (fun _ _ passed => passed) ?_
      (by rw [added, if_pos rfl]) ?_⟩
    · intro p member same
      obtain ⟨o', below, at_, state⟩ := delivers.kept p member
      have number : o' = o := (place_inj (by omega) (by omega)).mp (by rw [← at_, same, named])
      cases state with
      | inl passed => omega
      | inr waiting =>
        rw [same, empty] at waiting
        cases waiting
    · intro o' below d waiting
      refine .inr ?_
      rw [added]
      split
      · next here =>
        rw [here, empty] at waiting
        cases waiting
      · exact waiting
    · intro g d present
      rw [added] at present
      split at present
      · next here => exact .inl ⟨here, (Option.some.inj present).symm⟩
      · exact .inr present
  | restarted short newer why holds only =>
    rw [place_count] at only
    rw [← max_eq_right newer.le] at holds
    refine ⟨_, _, delivers.keep holds inside (max_le newer.le (le_refl o)) ?_ (fun o' below _ => by omega)
      (fun o' below _ _ => .inl (by omega))
      (by rw [only, if_pos rfl]) ?_⟩
    · intro p member same
      obtain ⟨o', below, at_, -⟩ := delivers.kept p member
      have number : o' = o := (place_inj (by omega) (by omega)).mp (by rw [← at_, same, named])
      omega
    · intro g d present
      rw [only] at present
      split at present
      · next here => exact .inl ⟨here, (Option.some.inj present).symm⟩
      · cases present

theorem Delivers.tick (heard : N < 2 ^ 31) (small : Q < 2 ^ 32) (reached : P ≤ Q) (near : Q = P ∨ Q ≤ N)
    (holds : Holds base after (Q + 1) N)
    (left : ∀ g, Jitter.stored after g = if g = place base P ∨ g = place base Q then none else Jitter.stored j g)
    (packet : ∀ f d, answer = .packet f d ↔ f = place base Q ∧ Jitter.stored j f = some d) (unkept : answer ≠ .kept) :
    Delivers base (entries ++ [(.get quiet, answer)]) after (Q + 1) N where
  holds := holds
  heard := delivers.heard
  clock := by
    obtain ⟨ticks, newest, clock⟩ := delivers.clock
    refine ⟨ticks + 1, newestKept_on unkept newest, ?_⟩
    omega
  kept := by
    rw [kept_of_other unkept]
    intro p member
    obtain ⟨o, below, at_, state⟩ := delivers.kept p member
    refine ⟨o, below, at_, ?_⟩
    cases state with
    | inl passed => exact .inl (by omega)
    | inr waiting =>
      by_cases done : o < Q + 1
      · exact .inl done
      have apart (n : Nat) (bound : n ≤ Q) : p.1 ≠ place base n := by
        rw [at_, Ne, place_inj (by omega) (by omega)]
        omega
      rw [left, if_neg (not_or.mpr ⟨apart P reached, apart Q (le_refl Q)⟩)]
      exact .inr waiting
  once := by
    rw [kept_of_other unkept]
    exact delivers.once
  stored := by
    rw [kept_of_other unkept]
    intro g d present
    rw [left] at present
    split at present
    · cases present
    · exact delivers.stored g d present
  played := by
    rw [kept_of_other unkept, filterMap_append]
    intro p member
    rcases mem_append.mp member with earlier | now_
    · obtain ⟨wasKept, o, at_, passed, below⟩ := delivers.played p earlier
      exact ⟨wasKept, o, at_, by omega, below⟩
    obtain ⟨entry, single, out⟩ := mem_filterMap.mp now_
    rw [mem_singleton.mp single] at out
    obtain ⟨atQ, found⟩ := (packet p.1 p.2).mp (answer_of_playedOf out)
    obtain ⟨o, at_, -, below, -⟩ := delivers.holds.of_stored found
    have number : o = Q := (place_inj (by omega) (by omega)).mp (by rw [← at_, atQ])
    exact ⟨delivers.stored _ _ found, Q, atQ, by omega, by omega⟩
  ordered := by
    rw [filterMap_append, map_append, pairwise_append]
    refine ⟨delivers.ordered, ?_, ?_⟩
    · cases out : playedOf (.get quiet, answer) <;> simp [out]
    · intro first earlier second now_
      obtain ⟨p, member, number⟩ := mem_map.mp earlier
      obtain ⟨q, member', number'⟩ := mem_map.mp now_
      obtain ⟨entry, single, out⟩ := mem_filterMap.mp member'
      rw [mem_singleton.mp single] at out
      obtain ⟨-, o, at_, passed, below⟩ := delivers.played p member
      have atQ := ((packet q.1 q.2).mp (answer_of_playedOf out)).1
      rw [at_, count_place (by omega)] at number
      rw [atQ, count_place (by omega)] at number'
      omega

theorem Delivers.get (timely : P < N + 2 ^ 31) :
    ∃ P', Delivers base (entries ++ [(.get quiet, (get j quiet).1)]) (get j quiet).2 P' N := by
  have heard := delivers.heard
  have unkept := (get_ofTick j quiet).1
  have ended := get_end delivers.holds timely heard quiet
  generalize Jitter.get j quiet = result at ended unkept ⊢
  cases ended with
  | waited silent holds same waits => exact ⟨P, delivers.unchanged holds same unkept silent⟩
  | played Q skip holds left packet waits =>
    have reached : P ≤ Q ∧ (Q = P ∨ Q ≤ N) := by
      rcases skip with atClock | ⟨atNext, below, -⟩ <;> omega
    exact ⟨Q + 1, delivers.tick heard (by omega) reached.1 reached.2 holds left packet unkept⟩

omit delivers

/-- Nothing is stored and nothing is expected: the clock only says how long it has been so. -/
structure Idles (base : BitVec 32) (j : Buffer) (N : Nat) : Prop where
  started : j.started = true
  idle : j.idle = true
  newest : j.newest = place base N
  calm : j.concealed ≤ plcMax
  unused : ∀ i, (j.slot i).used = false

theorem Idles.holds (idles : Idles base j N) : Holds base { j with play := place base (N + 1) } (N + 1) N where
  __ := idles
  play := rfl
  turn := by omega
  filled := by simp [idles.unused]
  idle := fun _ => N.lt_succ_self
  busy := by simp [idles.idle]

theorem Idles.pass (idles : Idles base j N) : Idles base (pass j) N where
  __ := idles
  unused := by
    intro i
    by_contra used
    have same := (pass_used (by simpa using used)).1
    rw [same, idles.unused] at used
    exact used rfl

theorem Idles.get (idles : Idles base j N) (quiet : Bool) :
    (∀ f d, (get j quiet).1 ≠ .packet f d) ∧ Idles base (get j quiet).2 N := by
  rw [Jitter.get, if_neg (by simp [idles.started])]
  split
  · split
    · next more => exact ⟨by simp, idles.started, idles.idle, idles.newest, more.2, idles.unused⟩
    · exact ⟨by simp, idles.started, idles.idle, idles.newest, idles.calm, idles.unused⟩
  have clock : Idles base (if gives j quiet then Jitter.pass j else j) N := by
    split
    · exact idles.pass
    · exact idles
  generalize (if gives j quiet then Jitter.pass j else j) = j at clock ⊢
  have missing := stored_of_unused clock.unused
  have passed := clock.pass
  rw [playFrame, missing, missing]
  dsimp only [conceal]
  split
  · split
    · next more => exact absurd more.2 (by simp [clock.idle])
    · exact ⟨by simp, passed.started, rfl, passed.newest, Nat.zero_le _, passed.unused⟩
  · split
    · next more => exact ⟨by simp, passed.started, passed.idle, passed.newest, more, passed.unused⟩
    · exact ⟨by simp, passed⟩

/-- The first of a talk spurt is taken wherever the clock is. -/
theorem Idles.put (idles : Idles base j N) (newer : ahead frame j.newest > 0) (play : BitVec 32)
    (short : ¬ maxPacket < data.length) : Jitter.put { j with play } frame data now = Jitter.put j frame data now := by
  have noted : noteArrival { j with play } frame now = { noteArrival j frame now with play } := by
    unfold noteArrival retarget
    dsimp only
    split <;> split <;> rfl
  obtain ⟨target, delay, nDelay, iDelay, arrived, -⟩ := noteArrival_eq j frame now
  have clock : setClock (noteArrival { j with play } frame now) frame = setClock (noteArrival j frame now) frame := by
    rw [noted, arrived]
    simp [setClock, idles.started, idles.idle, newer]
  rw [Jitter.put, if_neg short, clock, Jitter.put, if_neg short]

structure Waits (base : BitVec 32) (entries : List (Call × Answer)) (j : Buffer) : Prop where
  fresh : Fresh j
  kept : entries.filterMap keptOf = []
  played : entries.filterMap playedOf = []
  newest : newestKept base entries = none

/-- After half the ring of ticks the clock is no longer counted: the next packet sets it. -/
structure Dormant (base : BitVec 32) (entries : List (Call × Answer)) (j : Buffer) (N : Nat) : Prop where
  idles : Idles base j N
  delivers : Delivers base entries { j with play := place base (N + 1) } (N + 1) N
  long : ∃ ticks, newestKept base entries = some (N, ticks) ∧ 2 ^ 31 ≤ ticks

inductive Follows (base : BitVec 32) (entries : List (Call × Answer)) (j : Buffer) : Prop where
  | waits (waits : Waits base entries j)
  | delivers {P N : Nat} (timely : P < N + 2 ^ 31) (delivers : Delivers base entries j P N)
  | dormant {N : Nat} (dormant : Dormant base entries j N)

theorem Delivers.follows (delivers : Delivers base entries j P N) : Follows base entries j := by
  by_cases timely : P < N + 2 ^ 31
  · exact .delivers timely delivers
  have holds := delivers.holds
  have isIdle : j.idle = true := by
    by_contra busy
    have far := holds.busy (by simpa using busy)
    have calm : j.concealed ≤ 3 := holds.calm
    omega
  have idles : Idles base j N := ⟨holds.started, isIdle, holds.newest, holds.calm, holds.empty_of_idle isIdle⟩
  obtain ⟨ticks, newest, clock⟩ := delivers.clock
  refine .dormant ⟨idles, ⟨idles.holds, delivers.heard, ⟨ticks, newest, by omega⟩, ?_, delivers.once, ?_, ?_,
    delivers.ordered⟩, ⟨ticks, newest, by omega⟩⟩
  · intro p member
    obtain ⟨o, below, at_, -⟩ := delivers.kept p member
    exact ⟨o, below, at_, .inl (by omega)⟩
  · exact delivers.stored
  · intro p member
    obtain ⟨wasKept, o, at_, -, below⟩ := delivers.played p member
    exact ⟨wasKept, o, at_, by omega, below⟩

theorem Dormant.get (dormant : Dormant base entries j N) :
    Dormant base (entries ++ [(.get quiet, (get j quiet).1)]) (get j quiet).2 N := by
  obtain ⟨silent, idles⟩ := dormant.idles.get quiet
  have unkept := (get_ofTick j quiet).1
  obtain ⟨ticks, newest, long⟩ := dormant.long
  have same (g : BitVec 32) : stored (Jitter.get j quiet).2 g = stored j g := by
    rw [stored_of_unused idles.unused, stored_of_unused dormant.idles.unused]
  exact ⟨idles, dormant.delivers.unchanged idles.holds same unkept silent, _, newestKept_on unkept newest, by omega⟩

theorem Dormant.put (dormant : Dormant base entries j N) (inside : count base frame < 2 ^ 31)
    (timely : ∀ lead ∈ newestKept base entries, lead.1 + lead.2 < count base frame + 2 ^ 31) :
    Follows base (entries ++ [(.put frame data now, (put j frame data now).1)]) (put j frame data now).2 := by
  obtain ⟨ticks, newest, long⟩ := dormant.long
  by_cases tooLong : maxPacket < data.length
  · rw [Jitter.put, if_pos tooLong]
    exact .dormant ⟨dormant.idles, dormant.delivers.unchanged dormant.idles.holds (fun _ => rfl) (by simp) (by simp), _,
      newestKept_on (by simp) newest, by omega⟩
  have reach := timely _ newest
  have newer : ahead frame j.newest > 0 := by
    rw [dormant.idles.newest, ← place_count base frame, ahead_place (by omega) (by omega)]
    omega
  obtain ⟨P', N', next_⟩ := @Delivers.put base entries _ _ _ frame data now dormant.delivers inside timely
  rw [dormant.idles.put newer _ tooLong] at next_
  exact next_.follows

theorem Waits.put (waits : Waits base entries j) (inside : count base frame < 2 ^ 31) :
    Follows base (entries ++ [(.put frame data now, (put j frame data now).1)]) (put j frame data now).2 := by
  by_cases long : maxPacket < data.length
  · rw [Jitter.put, if_pos long]
    refine .waits ⟨waits.fresh, ?_, ?_, ?_⟩
    · rw [kept_of_other (by simp), waits.kept]
    · rw [played_of_other (by simp), waits.played]
    · rw [newestKept_other (by simp), waits.newest]
      rfl
  obtain ⟨target, delay, nDelay, iDelay, noted, -⟩ := noteArrival_eq j frame now
  set o := count base frame with place_
  have named : frame = place base o := (place_count base frame).symm
  have clock : setClock { j with target, delay, nDelay, iDelay } frame = { j with
        target, delay, nDelay, iDelay
        started := true, play := frame, newest := frame, grow := target } := by
    rw [setClock, if_pos (by simp [waits.fresh.started])]
  obtain ⟨kept, same, after_, only⟩ := @store_first base { j with
      target, delay, nDelay, iDelay
      started := true, play := frame, newest := frame, grow := target } o o data
    rfl waits.fresh.unused named named (le_refl o) waits.fresh.idle waits.fresh.calm inside
  have here : ahead frame frame = 0 := by
    rw [ahead, BitVec.sub_self]
    rfl
  have stores : Jitter.put j frame data now = (.kept, kept) := by
    rw [Jitter.put, if_neg long, noted]
    dsimp only
    rw [clock, here, if_neg (by decide), if_neg (by decide)]
    rwa [← named] at same
  rw [← named] at only
  rw [stores]
  refine Delivers.follows (P := o) (N := o) ⟨after_, inside, ⟨0, ?_, le_refl o⟩, ?_, ?_, ?_, ?_, ?_⟩
  · have noted := waits.newest
    rw [newestKept] at noted
    rw [newestKept, foldl_append, noted]
    rfl
  · rw [kept_of_kept, waits.kept, nil_append]
    intro p member
    rw [mem_singleton.mp member]
    exact ⟨o, le_refl o, named, .inr (by rw [only, if_pos rfl])⟩
  · rw [kept_of_kept, waits.kept]
    simp
  · rw [kept_of_kept, waits.kept]
    intro g d present
    rw [only] at present
    split at present
    · next atFrame =>
      rw [atFrame, ← Option.some.inj present]
      simp
    · cases present
  · rw [played_of_other (by simp), waits.played]
    simp
  · rw [played_of_other (by simp), waits.played]
    simp

theorem Waits.get (waits : Waits base entries j) :
    Waits base (entries ++ [(.get quiet, (get j quiet).1)]) (get j quiet).2 := by
  have nothing : Jitter.get j quiet = (.nothing, j) := by
    rw [Jitter.get, if_pos (by simp [waits.fresh.started])]
  rw [nothing]
  refine ⟨waits.fresh, ?_, ?_, ?_⟩
  · rw [kept_of_other (by simp), waits.kept]
  · rw [played_of_other (by simp), waits.played]
  · rw [newestKept_other (by simp), waits.newest]
    rfl

theorem Timely.start {calls more : List Call} (timely : Timely base (calls ++ more)) : Timely base calls := by
  intro before frame data now rest same
  exact timely before frame data now (rest ++ more) (by rw [same, append_assoc, cons_append])

theorem run_follows (calls : List Call) (timely : Timely base calls) :
    Follows base (log init calls) (run init calls) := by
  induction calls using reverseRecOn with
  | nil => exact .waits ⟨⟨rfl, rfl, Nat.zero_le _, fun _ => rfl⟩, rfl, rfl, rfl⟩
  | append_singleton calls call ih =>
    have earlier := ih timely.start
    rw [run_append, log_append]
    cases call with
    | put frame data now =>
      obtain ⟨inside, reach⟩ := timely calls frame data now [] rfl
      cases earlier with
      | waits waits => exact waits.put inside
      | delivers _ delivers =>
        obtain ⟨P', N', next_⟩ := @Delivers.put base _ _ _ _ frame data now delivers inside reach
        exact next_.follows
      | dormant dormant => exact dormant.put inside reach
    | get quiet =>
      cases earlier with
      | waits waits => exact .waits waits.get
      | delivers near delivers =>
        obtain ⟨P', next_⟩ := @Delivers.get base _ _ _ _ quiet delivers near
        exact next_.follows
      | dormant dormant => exact .dormant dormant.get

theorem lates_cons (j : Buffer) (call : Call) (rest : List Call) : lates j (call :: rest) =
      lates (step j call).2 rest + if (step j call).1 = .late then 1 else 0 := by
  simp [lates, log, countP_cons]

theorem gets_cons (call : Call) (rest : List Call) :
    gets (call :: rest) = gets rest + if call.isGet = true then 1 else 0 := by
  simp [gets, countP_cons]

theorem settles_or_waits {o : Nat} (rest : List Call) (holds : Holds base j P N) (heard : N < 2 ^ 31)
    (near : ∀ frame data now, .put frame data now ∈ rest → count base frame < 2 ^ 31)
    (waiting : stored j (place base o) = some data) (small : o < 2 ^ 31) :
    Settles (place base o) data j rest ∨ stored (run j rest) (place base o) = some data ∧
        gets rest + P ≤ o + j.grow + lates j rest := by
  -- on the calls; the clock's place and what is left to wait measure how far away the frame is
  induction rest generalizing j P N with
  | nil =>
    obtain ⟨o', at_, low, high, -⟩ := holds.of_stored waiting
    have number : o = o' := (place_inj (by omega) (by omega)).mp at_
    refine .inr ⟨waiting, ?_⟩
    have none_ : gets [] = 0 := rfl
    omega
  | cons call rest ih =>
    obtain ⟨o', at_, low, high, -⟩ := holds.of_stored waiting
    have later : ∀ frame data now, .put frame data now ∈ rest → count base frame < 2 ^ 31 :=
      fun frame data now member => near frame data now (mem_cons_of_mem _ member)
    have count_ := gets_cons call rest
    have lates_ := lates_cons j call rest
    -- what the rest of the run leaves, once the call has left the packet stored
    have onward {P' N' : Nat} (holds' : Holds base (step j call).2 P' N') (heard' : N' < 2 ^ 31)
        (waiting' : stored (step j call).2 (place base o) = some data)
        (spent : gets (call :: rest) + P + (step j call).2.grow + lates (step j call).2 rest ≤
          gets rest + P' + j.grow + lates j (call :: rest)) :
        Settles (place base o) data j (call :: rest) ∨ stored (run j (call :: rest)) (place base o) = some data ∧
            gets (call :: rest) + P ≤ o + j.grow + lates j (call :: rest) := by
      cases ih holds' heard' later waiting' with
      | inl settles => exact .inl (.inr settles)
      | inr stays => exact .inr ⟨stays.1, by omega⟩
    cases call with
    | put frame fresh now =>
      have inside := near frame fresh now mem_cons_self
      have same_ : gets (.put frame fresh now :: rest) = gets rest := by
        simpa [Call.isGet] using count_
      have ended := @put_end base j P N (count base frame) fresh holds (by omega) heard inside now
      rw [place_count] at ended
      have result : step j (.put frame fresh now) = put j frame fresh now := rfl
      rw [result] at lates_ onward
      generalize put j frame fresh now = done at ended lates_ onward
      cases ended with
      | refused unkept holds' same waits =>
        dsimp only at lates_ onward
        refine onward holds' heard (by rw [same, waiting]) ?_
        omega
      | added inTurn empty holds' added waits =>
        dsimp only at lates_ onward
        refine onward holds' (max_lt heard inside) ?_ ?_
        · rw [added, if_neg, waiting]
          intro here
          rw [← here, waiting] at empty
          cases empty
        · omega
      | restarted short newer why holds' only =>
        rcases why with none_ | far
        · simp [none_] at waiting
        refine .inl (.inl (.inr (.inr ⟨frame, fresh, now, rfl, short, ?_⟩)))
        rw [holds.play, ← place_count base frame, ahead_place (by omega) (by omega)]
        have turn : ((64 : Nat) : Int) ≤ (count base frame : Int) - P := by omega
        exact turn
    | get quiet =>
      have more : gets (.get quiet :: rest) = gets rest + 1 := by
        simpa [Call.isGet] using count_
      have ended := get_end holds (by omega) heard quiet
      have result : step j (.get quiet) = get j quiet := rfl
      rw [result] at lates_ onward
      have first : Settles (place base o) data j (.get quiet :: rest) ↔
          (((get j quiet).1 = .packet (place base o) data ∨ Skips j (.get quiet) (place base o) ∨
            Jumps j (.get quiet)) ∨ Settles (place base o) data (get j quiet).2 rest) := Iff.rfl
      rw [first] at onward ⊢
      generalize get j quiet = done at ended lates_ onward ⊢
      cases ended with
      | waited silent holds' same waits =>
        dsimp only at lates_ onward
        refine onward holds' heard (by rw [same, waiting]) ?_
        omega
      | played Q skip holds' left packet waits =>
        dsimp only at lates_ onward
        by_cases here : o = Q
        · exact .inl (.inl (.inl ((packet _ _).mpr ⟨by rw [here], waiting⟩)))
        by_cases atClock : o = P
        · rcases skip with same | ⟨-, -, gives_⟩
          · omega
          · rw [atClock]
            exact .inl (.inl (.inr (.inl gives_)))
        have apart (n : Nat) (bound : n < 2 ^ 32) (other : o ≠ n) : place base o ≠ place base n := by
          rwa [Ne, place_inj (by omega) bound]
        refine onward holds' heard ?_ ?_
        · rw [left, if_neg (not_or.mpr ⟨apart P (by omega) atClock, apart Q (by omega) here⟩), waiting]
        · omega

theorem stored_of_store (kept : (store j frame data).1 = .kept) : stored (store j frame data).2 frame = some data := by
  dsimp only [store] at kept ⊢
  split at kept
  · cases kept
  next free =>
  rw [if_neg free, stored_eq_some]
  simp

theorem stored_of_put (kept : (Jitter.put j frame data now).1 = .kept) :
    stored (Jitter.put j frame data now).2 frame = some data := by
  dsimp only [Jitter.put] at kept ⊢
  split at kept
  · cases kept
  next short =>
  rw [if_neg short]
  split at kept
  · cases kept
  next timely =>
  rw [if_neg timely]
  split at kept
  · next far =>
    rw [if_pos far]
    exact stored_of_store kept
  · next near =>
    rw [if_neg near]
    exact stored_of_store kept

end

theorem kept_settles {base : BitVec 32} {before rest : List Call} {frame : BitVec 32} {data : List UInt8} {now : Int}
    (timely : Timely base (before ++ .put frame data now :: rest))
    (kept : (put (run init before) frame data now).1 = .kept) :
    Settles frame data (run init (before ++ [.put frame data now])) rest ∨
      stored (run init (before ++ .put frame data now :: rest)) frame = some data ∧
        gets rest < 76 + lates (run init (before ++ [.put frame data now])) rest := by
  set calls := before ++ [.put frame data now] with through
  have whole : before ++ .put frame data now :: rest = calls ++ rest := by
    rw [append_assoc, singleton_append]
  clear_value calls
  rw [whole] at timely ⊢
  have here : run init calls = (put (run init before) frame data now).2 := by
    rw [through, run_append]
    rfl
  have waiting : stored (run init calls) frame = some data := by
    rw [here]
    exact stored_of_put kept
  have near : ∀ frame data now, .put frame data now ∈ rest → count base frame < 2 ^ 31 := by
    intro frame data now member
    obtain ⟨earlier, later, split_⟩ := append_of_mem member
    exact (timely (calls ++ earlier) frame data now later (by rw [split_, append_assoc])).1
  have bounded : Bounded (run init calls) := bounded_init.run calls
  have wait := bounded.grow
  cases run_follows calls timely.start with
  | waits waits =>
    simp [stored_of_unused waits.fresh.unused] at waiting
  | dormant dormant =>
    simp [stored_of_unused dormant.idles.unused] at waiting
  | delivers _ delivers =>
    obtain ⟨o, named, low, high, turn⟩ := delivers.holds.of_stored waiting
    have heard := delivers.heard
    rw [named] at waiting ⊢
    rw [run_append init calls rest]
    cases settles_or_waits rest delivers.holds heard near waiting (by omega) with
    | inl settles => exact .inl settles
    | inr stays => exact .inr ⟨stays.1, by omega⟩

theorem jitter_buffer_delivers_in_order (base : BitVec 32) (calls : List Call) (timely : Timely base calls) :
    (((log init calls).filterMap playedOf).map fun p => count base p.1).Pairwise (· < ·) ∧
      (∀ p ∈ (log init calls).filterMap playedOf, p ∈ (log init calls).filterMap keptOf) ∧
      (((log init calls).filterMap keptOf).map Prod.fst).Nodup ∧
      ∀ before frame data now rest, calls = before ++ .put frame data now :: rest →
        (put (run init before) frame data now).1 = .kept →
        Settles frame data (run init (before ++ [.put frame data now])) rest ∨
          stored (run init calls) frame = some data ∧
            gets rest < 76 + lates (run init (before ++ [.put frame data now])) rest := by
  refine and_assoc.mp (and_assoc.mp ⟨?_, ?_⟩)
  · cases run_follows calls timely with
    | waits waits =>
      rw [waits.kept, waits.played]
      simp
    | delivers _ delivers =>
      exact ⟨⟨delivers.ordered, fun p member => (delivers.played p member).1⟩, delivers.once⟩
    | dormant dormant =>
      have delivers := dormant.delivers
      exact ⟨⟨delivers.ordered, fun p member => (delivers.played p member).1⟩, delivers.once⟩
  · intro before frame data now rest same kept
    rw [same] at timely ⊢
    exact kept_settles timely kept

/-- Frames 2 ^ 31 - 1 and 0 are less than half the ring apart, but the clock has run on past the
newer one by the time the older one comes, which then looks far ahead. -/
theorem jitter_buffer_plays_backwards : ((log init
      ([.put 0x7fffffff [1] 0] ++ replicate 8 (.get false) ++ [.put 0 [2] 160] ++
        replicate 20 (.get false))).filterMap playedOf) =
      [(0x7fffffff, [1]), (0, [2])] := by
  decide

theorem jitter_buffer_delivers_in_order_reordered :
    ∃ calls, (log init calls).filterMap playedOf = [(7, [1]), (8, [2])] ∧
      (((log init calls).filterMap playedOf).map fun p => count 0 p.1).Pairwise (· < ·) := by
  refine ⟨[.put 7 [1] 0, .put 9 [3] 5, .put 8 [2] 6, .get false, .get false, .get false, .get false],
    by decide, ?_⟩
  apply (jitter_buffer_delivers_in_order 0 _ _).1
  intro before frame data now rest same
  simp only [cons_eq_append_iff, cons.injEq, Call.put.injEq, reduceCtorEq, false_and, and_false, exists_false, or_false,
    nil_eq, append_eq_nil_iff] at same
  obtain ⟨rfl, ⟨rfl, -, -⟩, -⟩ | ⟨_, rfl, ⟨rfl, ⟨rfl, -, -⟩, -⟩ | ⟨_, rfl, rfl, ⟨rfl, -, -⟩, -⟩⟩ := same <;> decide

end OpenChime.Client.Jitter
