import OpenChime.Daemon.Replay

/-! One connection's outgoing bytes in `daemon/netloop.c`: frames staged in `out`, the
replay of accepted backfills, and the frames held behind them in the deferred queue
`dq`, which is drained by room and not by frame. -/

set_option autoImplicit false

namespace OpenChime.Daemon

open Wire Framing

def maxOutBuffer : Nat := 1048576

def bfSlice : Nat := 64

def bfSoft : Nat := 262144

def bfQueue : Nat := 8

/-- The outgoing side of a `conn`. `flush_out` leaves `out_sent` and `out_len` zero and
nothing else moves `out_sent`, so `out` is all that is staged. -/
structure Conn where
  out : List UInt8
  (sentTotal writtenTotal : UInt64)
  /-- `bf[0..bf_n)`, the head standing at `pos` -/
  bf : List Replay
  pos : BfPos
  bfPumping : Bool
  dq : List UInt8
  /-- What has been given to `oc_ioloop_send`. -/
  handed : List UInt8

namespace Conn

def init : Conn :=
  { out := [], sentTotal := 0, writtenTotal := 0, bf := [], pos := .start, bfPumping := false
    dq := [], handed := [] }

def deferAppend (c : Conn) (buf : List UInt8) : Option Conn :=
  if c.dq.length + buf.length > maxOutBuffer then none else some { c with dq := c.dq ++ buf }

def pendingOut (c : Conn) : Nat := (UInt64.ofNat c.out.length + (c.sentTotal - c.writtenTotal)).toNat

def outAppend (c : Conn) (buf : List UInt8) : Option Conn :=
  if (c.bf ≠ [] ∨ c.dq ≠ []) ∧ c.bfPumping = false then c.deferAppend buf
  else if (UInt64.ofNat (c.out.length + buf.length) + (c.sentTotal - c.writtenTotal)).toNat > maxOutBuffer then none
  else some { c with out := c.out ++ buf }

def flushOut (c : Conn) : Conn :=
  { c with
    handed := c.handed ++ c.out, sentTotal := c.sentTotal + UInt64.ofNat c.out.length, out := [] }

/-- The loop of `backfill_pump` with `left` frames of the slice to go; whether it ran to
its end, rather than to the `goto` for a full output. -/
def pumpFrames (left : Nat) (c : Conn) : Option (Conn × Bool) :=
  match _head : c.bf, left with
  | [], _ => some (c, true)
  | _ :: _, 0 => some (c, true)
  | r :: waiting, left + 1 =>
    if c.pendingOut ≥ bfSoft then some (c, false)
    else
      let (pos, frame) := backfillNext r c.pos
      if frame = [] then pumpFrames (left + 1) { c with bf := waiting, pos := .start }
      else do
        let c ← outAppend { c with pos } frame
        pumpFrames left c
termination_by (left, c.bf.length)
decreasing_by
  · exact .right _ (by rw [_head]; exact Nat.lt_succ_self _)
  · exact .left _ _ (Nat.lt_succ_self _)

/-- `backfill_pump` once every queued replay is out. -/
def drainDeferred (c : Conn) : Option Conn :=
  if c.bf = [] ∧ c.dq ≠ [] then
    let room := if c.pendingOut < bfSoft then bfSoft - c.pendingOut else 0
    let n := if c.dq.length < room then c.dq.length else room
    if n = 0 then some c
    else do
      let c' ← c.outAppend (c.dq.take n)
      some { c' with dq := c'.dq.drop n }
  else some c

def backfillPump (c : Conn) : Option Conn :=
  if c.bf = [] ∧ c.dq = [] then some c
  else do
    let (c, ended) ← pumpFrames bfSlice { c with bfPumping := true }
    let c ← if ended then c.drainDeferred else some c
    some { c with bfPumping := false }

def backfillAccept (c : Conn) (r : Replay) : Option Conn :=
  if c.bf.length = bfQueue then none
  else do
    let c ← backfillPump { c with bf := c.bf ++ [r] }
    some c.flushOut

def written (c : Conn) (count : UInt64) : Option Conn :=
  backfillPump (if count > c.writtenTotal then { c with writtenTotal := count } else c)

end Conn

inductive OutEvent where
  | append (frame : List UInt8)
  | accept (r : Replay)
  | written (count : UInt64)
  | flush

def Conn.step (c : Conn) : OutEvent → Option Conn
  | .append frame => c.outAppend frame
  | .accept r => c.backfillAccept r
  | .written count => c.written count
  | .flush => some c.flushOut

/-- What the callers give: whole frames, results whose frames all encode, and byte counts
that never go down. -/
def OutEvent.Given (c : Conn) : OutEvent → Prop
  | .append frame => WholeFrame frame
  | .accept r => ∀ call ∈ r.calls, Encodes call
  | .written count => c.writtenTotal ≤ count
  | .flush => True

end OpenChime.Daemon
