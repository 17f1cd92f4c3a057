import OpenChime.Lib.Slots
import OpenChime.Lib.SwapRemove
import OpenChime.Lib.Run
import OpenChime.Shared.Calls

/-! Calls on the daemon's net loop (`daemon/netloop.c`). What the random generator, the
reader and the clock answer comes with the events. Rate limits and a demo's daily limits,
which refuse a frame before any of this, and the push notices of invitations are left out. -/

set_option autoImplicit false

namespace OpenChime.Daemon

open Shared

def maxCalls : Nat := 64

def demoCallMaxMs : Nat := 20 * 60 * 1000

/-- The configured `call_max`, within the bounds the configuration has for it. -/
structure CallMax where
  value : Nat
  least : 2 ≤ value
  most : value ≤ maxCallParticipants

/-- `call_part`; a seat whose connection went has no `conn` and is held since `detachedMs`. -/
structure Seat (Key Token : Type) where
  (user conn slot : Nat)
  token : Token
  deviceKey : Key
  (codecs detachedMs : Nat)

/-- `call_t`; its epochs are counted without the wrap of their 32 bits. -/
structure Call (Key Token : Type) where
  (channel callId starter startedAt epoch : Nat)
  (othersJoined invitedAny : Bool)
  parts : List (Seat Key Token)
  (invited members : List Nat)
  sharerConn : Nat

/-- The fields of a signed-in `conn` that calls use. -/
structure CallConn where
  (id user callGen callJoinCh : Nat)

inductive CallJob (Key : Type) where
  | join (conn channel gen : Nat) (deviceKey : Key) (codecs : Nat)
  | invite (conn channel : Nat)

/-- What the loop does about calls, beside changing its state. -/
inductive CallOut (Key Token : Type) where
  | frame (conn : Nat) (frame : CallDown Key Token)
  /-- to the relay -/
  | authorize (call user conn : Nat) (token : Token)
  | revoke (token : Token)
  /-- the missed-call line -/
  | missed (channel starter : Nat)

/-- The loop's call state, and all it has sent, oldest first. -/
structure CallLoop (Key Token : Type) where
  callMax : CallMax
  /-- a media endpoint is there -/
  relay : Bool
  /-- a demo workspace -/
  demo : Bool
  advertisedPort : Nat
  (nextCallId nextConnId : Nat)
  conns : List CallConn
  jobs : List (CallJob Key)
  calls : Slots.Table (Call Key Token) maxCalls
  sent : List (CallOut Key Token)

namespace Call

variable {Key Token : Type} (c : Call Key Token)

def partOfUser (user : Nat) : Option Nat := c.parts.findIdx? (·.user = user)

def partOfConn (conn : Nat) : Option Nat := c.parts.findIdx? (·.conn = conn)

def removePart (idx : Nat) : Call Key Token :=
  { c with
    sharerConn := if c.parts[idx]?.any (·.conn = c.sharerConn) then 0 else c.sharerConn
    parts := c.parts.swapRemove idx }

def sharer : Nat := ((c.parts.find? (·.conn = c.sharerConn)).map (·.user)).getD 0

def uninvite (user : Nat) : Call Key Token :=
  match c.invited.findIdx? (· = user) with
  | some k => { c with invited := c.invited.swapRemove k }
  | none => c

def freeSlot : Nat := ((List.range 256).find? fun s => c.parts.all (·.slot ≠ s)).getD 0

def audience (user : Nat) : Bool := user ∈ c.members ∨ user ∈ c.invited ∨ (c.partOfUser user).isSome

/-- `call_fill_parts` -/
def wireParts : List (CallPart Key) :=
  c.parts.map fun seat =>
    { user := seat.user, slot := seat.slot, deviceKey := seat.deviceKey, codecs := seat.codecs
      away := seat.detachedMs ≠ 0 }

def roster : CallRoster Key := ⟨c.channel, c.callId, c.epoch, c.wireParts⟩

def state (ended : Bool) : CallState :=
  { channel := c.channel, call := c.callId, starter := c.starter, startedAt := c.startedAt, ended
    parts := c.parts.map (·.user), invited := c.invited
    sharer := if ended ∨ c.sharerConn = 0 then 0 else c.sharer }

/-- The users `call_add_invites` would add. -/
def newInvites (users : List Nat) : List Nat :=
  (users.filter fun user => (c.partOfUser user).isNone ∧ user ∉ c.invited).eraseDups.take maxCallInvites

def addInvites (callMax : Nat) (users : List Nat) : Option (Call Key Token × List Nat) :=
  let added := c.newInvites users
  if c.parts.length + c.invited.length + added.length > callMax then none
  else some ({ c with
    invited := c.invited ++ added, invitedAny := c.invitedAny || !added.isEmpty }, added)

end Call

namespace CallLoop

variable {Key Token : Type} (d : CallLoop Key Token)

def findById (id : Nat) : Option CallConn := d.conns.find? (·.id = id)

/-- `call_send` to those of these connections that are there. -/
def tell (ids : List Nat) (frame : CallDown Key Token) : CallLoop Key Token :=
  { d with sent := d.sent ++ (ids.filter fun id => (d.findById id).isSome).map (.frame · frame) }

def audioRevoke (token : Token) : CallLoop Key Token := { d with sent := d.sent ++ [.revoke token] }

def callFind (channel : Nat) : Option (Call Key Token) :=
  if channel = 0 then none else d.calls.find (·.channel = channel)

def callOfConn (conn : Nat) : Option (Call Key Token × Nat) :=
  d.calls.entries.findSome? fun c => (c.partOfConn conn).map (c, ·)

variable (c : Call Key Token)

def setCall : CallLoop Key Token := { d with calls := d.calls.modify (·.channel = c.channel) fun _ => c }

def callNew (channel starter now : Nat) : Option (CallLoop Key Token × Call Key Token) :=
  let id := if d.nextCallId = 0 then now else d.nextCallId
  let c : Call Key Token :=
    { channel, callId := id, starter, startedAt := now, epoch := 0, othersJoined := false
      invitedAny := false, parts := [], invited := [], members := [], sharerConn := 0 }
  (d.calls.put c).map fun calls => ({ d with calls, nextCallId := id + 1 }, c)

def connsOf (users : List Nat) : List Nat :=
  users.eraseDups.flatMap fun user => (d.conns.filter (·.user = user)).map (·.id)

def sendState (ended : Bool) : CallLoop Key Token :=
  d.tell (d.connsOf (c.members ++ c.invited ++ c.parts.map (·.user))) (.state (c.state ended))

def sendRoster (exceptConn alsoConn : Nat) : CallLoop Key Token :=
  d.tell ((c.parts.map (·.conn)).filter (· ≠ exceptConn) ++ if alsoConn ≠ 0 then [alsoConn] else []) (.roster c.roster)

def sendCallError (conn : Nat) (code : CallError) : CallLoop Key Token := d.tell [conn] (.error code)

def callFinish : CallLoop Key Token :=
  let d := { d with calls := d.calls.clear (·.channel = c.channel) }
  let d := c.parts.foldl (fun d seat => d.audioRevoke seat.token) d
  let d := d.sendState c true
  if !c.othersJoined ∧ c.invitedAny then { d with sent := d.sent ++ [.missed c.channel c.starter] }
  else d

def callDropTell (idx tellConn : Nat) : CallLoop Key Token :=
  let d := match c.parts[idx]? with
    | some seat => d.audioRevoke seat.token
    | none => d
  let c := c.removePart idx
  if c.parts = [] then (d.setCall c).callFinish c
  else
    let c := { c with epoch := c.epoch + 1 }
    ((d.setCall c).sendRoster c 0 tellConn).sendState c false

def callDrop (idx : Nat) : CallLoop Key Token := d.callDropTell c idx 0

def callConnClosed (conn now : Nat) : CallLoop Key Token :=
  match d.callOfConn conn with
  | none => d
  | some (c, idx) =>
    match c.parts[idx]? with
    | none => d
    | some seat =>
      let d := d.audioRevoke seat.token
      let wasSharer : Bool := c.sharerConn = conn
      let held := { seat with conn := 0, detachedMs := if now = 0 then 1 else now }
      let c := { c with
        sharerConn := if wasSharer then 0 else c.sharerConn
        parts := c.parts.set idx held
        epoch := c.epoch + 1 }
      let d := (d.setCall c).sendRoster c 0 0
      if wasSharer then d.sendState c false else d

/-- Milliseconds since, on a `uint64_t` clock. -/
def since (now earlier : Nat) : Nat := (now + 2 ^ 64 - earlier) % 2 ^ 64

/-- The seats below `k` of the call in a channel, from the last down. -/
def expireSeats (now grace channel : Nat) : Nat → CallLoop Key Token → CallLoop Key Token
  | 0, d => d
  | k + 1, d =>
    expireSeats now grace channel k (match d.callFind channel with
      | none => d
      | some c =>
        if c.parts[k]?.any fun seat => seat.detachedMs ≠ 0 ∧ since now seat.detachedMs ≥ grace then
          d.callDrop c k
        else d)

def callExpireDetached (now grace : Nat) : CallLoop Key Token :=
  d.calls.entries.foldl (fun d c =>
    if d.demo ∧ c.startedAt ≠ 0 ∧ since now c.startedAt ≥ demoCallMaxMs then d.callFinish c
    else d.expireSeats now grace c.channel c.parts.length) d

def callDropToken [DecidableEq Token] (token : Token) : CallLoop Key Token :=
  let found := d.calls.entries.findSome? fun c =>
    (c.parts.findIdx? (·.token = token)).bind fun k => c.parts[k]?.map (c, k, ·)
  match found with
  | some (c, k, seat) => d.callDropTell c k seat.conn
  | none => d

/-- The seat the connection has: in another call it is dropped, in this one it is taken out
and the join puts it back. -/
def leaveOwn (conn channel : Nat) : CallLoop Key Token :=
  match d.callOfConn conn with
  | none => d
  | some (prev, idx) =>
    if prev.channel = channel then
      let d := match prev.parts[idx]? with
        | some seat => d.audioRevoke seat.token
        | none => d
      d.setCall (prev.removePart idx)
    else d.callDrop prev idx

/-- The seat the user has in the call on another device, taken out; with the connection of
that device, 0 for a held seat or none. -/
def leaveOther (user : Nat) : CallLoop Key Token × Call Key Token × Nat :=
  match (c.partOfUser user).bind fun k => c.parts[k]?.map (k, ·) with
  | some (k, seat) =>
    let c := c.removePart k
    ((d.audioRevoke seat.token).setCall c, c, seat.conn)
  | none => (d, c, 0)

def seatedCall (jc : CallConn) (deviceKey : Key) (codecs : Nat) (token : Token)
    (starting : Bool) (invites : List Nat) : Call Key Token :=
  let seat : Seat Key Token :=
    { user := jc.user, conn := jc.id, slot := c.freeSlot, token, deviceKey, codecs, detachedMs := 0 }
  let c := { c with parts := c.parts ++ [seat], epoch := c.epoch + 1 }
  let c := c.uninvite jc.user
  let c := { c with othersJoined := c.othersJoined || jc.user ≠ c.starter }
  let cap := d.callMax.value
  if starting then
    -- those that fit, in the order given
    match c.addInvites cap invites with
    | some (c, _) => c
    | none => ((c.addInvites cap (invites.take (cap - c.parts.length))).map (·.1)).getD c
  else c

def joinedFrame (slot : Nat) (token : Token) : CallJoined Key Token :=
  { channel := c.channel, call := c.callId, udpPort := d.advertisedPort, token, slot, epoch := c.epoch
    starter := c.starter, startedAt := c.startedAt, parts := c.wireParts }

def takeSeat (jc : CallConn) (deviceKey : Key) (codecs : Nat) (token : Token)
    (starting : Bool) (invites : List Nat) (movedFrom : Nat) : CallLoop Key Token :=
  let slot := c.freeSlot
  let c := d.seatedCall c jc deviceKey codecs token starting invites
  let d := d.setCall c
  let d := { d with sent := d.sent ++ [CallOut.authorize c.callId jc.user jc.id token] }
  let d := d.tell [jc.id] (.joined (d.joinedFrame c slot token))
  (d.sendRoster c jc.id movedFrom).sendState c false

/-- The call to join, or a new one: with the connection the user moved from. `none` when the
join is refused, and what was done then. -/
def callToJoin (jc : CallConn) (channel now : Nat) :
    Except (CallLoop Key Token) (CallLoop Key Token × Call Key Token × Bool × Nat) :=
  match d.callFind channel with
  | some c =>
    let (d, c, movedFrom) := d.leaveOther c jc.user
    if c.parts.length ≥ d.callMax.value then
      let d := d.sendCallError jc.id .callFull
      if movedFrom ≠ 0 then
        let c := { c with epoch := c.epoch + 1 }
        .error (((d.setCall c).sendRoster c 0 movedFrom).sendState c false)
      else .error d
    else .ok (d, c, false, movedFrom)
  | none =>
    match d.callNew channel jc.user now with
    | none => .error (d.sendCallError jc.id .callUnavailable)
    | some (d, c) => .ok (d, c, true, 0)

/-- The joiner's seat in the call found; `random` is what `oc_rand_bytes` gave. -/
def seatJoiner (jc : CallConn) (deviceKey : Key) (codecs : Nat) (members invites : List Nat) (random : Option Token)
    (c : Call Key Token) (starting : Bool) (movedFrom : Nat) : CallLoop Key Token :=
  let c := { c with members }
  let d := d.setCall c
  match random with
  | some token => d.takeSeat c jc deviceKey codecs token starting invites movedFrom
  | none =>
    let d := if starting then { d with calls := d.calls.clear (·.channel = c.channel) }
      else if c.parts = [] then d.callFinish c
      else d
    d.sendCallError jc.id .internal

/-- The join of a CALL_AUTH result. -/
def joinGranted (jc : CallConn) (channel : Nat) (deviceKey : Key) (codecs : Nat)
    (members invites : List Nat) (random : Option Token) (now : Nat) : CallLoop Key Token :=
  if !d.relay then d.sendCallError jc.id .callUnavailable
  else
    match (d.leaveOwn jc.id channel).callToJoin jc channel now with
    | .error d => d
    | .ok (d, c, starting, movedFrom) => d.seatJoiner jc deviceKey codecs members invites random c starting movedFrom

def inviteGranted (jc : CallConn) (channel : Nat) (members users : List Nat) : CallLoop Key Token :=
  match d.callOfConn jc.id with
  | none => d.sendCallError jc.id .notInCall
  | some (c, _) =>
    if c.channel ≠ channel then d.sendCallError jc.id .notInCall
    else
      let c := { c with members }
      match c.addInvites d.callMax.value users with
      | none => (d.setCall c).sendCallError jc.id .callFull
      | some (c, added) => if added = [] then d.setCall c else (d.setCall c).sendState c false

def setConn (jc : CallConn) : CallLoop Key Token :=
  { d with conns := d.conns.map fun other => if other.id = jc.id then jc else other }

def callFrame (jc : CallConn) : CallUp Key → CallLoop Key Token
  | .join channel deviceKey _ codecs =>
    let jc := { jc with callGen := jc.callGen + 1, callJoinCh := channel }
    { d.setConn jc with jobs := d.jobs ++ [.join jc.id channel jc.callGen deviceKey codecs] }
  | .invite channel _ => { d with jobs := d.jobs ++ [.invite jc.id channel] }
  | .leave channel =>
    -- a join still out is void
    let d := if jc.callJoinCh = channel then
      d.setConn { jc with callGen := jc.callGen + 1, callJoinCh := 0 } else d
    match d.callOfConn jc.id with
    | some (c, idx) => if c.channel = channel then d.callDrop c idx else d
    | none => d
  | .decline channel =>
    match d.callFind channel with
    | some c =>
      if jc.user ∈ c.invited then
        let c := c.uninvite jc.user
        (d.setCall c).sendState c false
      else d
    | none => d
  | .end_ channel =>
    match d.callFind channel with
    | none => d.sendCallError jc.id .notInCall
    | some c => if c.starter ≠ jc.user then d.sendCallError jc.id .notCallStarter else d.callFinish c
  | .share channel on =>
    match d.callOfConn jc.id with
    | none => d.sendCallError jc.id .notInCall
    | some (c, _) =>
      if c.channel ≠ channel then d.sendCallError jc.id .notInCall
      else
        let now := if on then jc.id else if c.sharerConn = jc.id then 0 else c.sharerConn
        let after := { c with sharerConn := now }
        if now ≠ c.sharerConn then (d.setCall after).sendState after false else d
  | .key channel call epoch entries =>
    match d.callOfConn jc.id with
    | none => d.sendCallError jc.id .notInCall
    | some (c, _) =>
      if c.channel ≠ channel then d.sendCallError jc.id .notInCall
      else if call ≠ c.callId ∨ epoch ≠ c.epoch then d
      else
        entries.foldl (fun d entry =>
          match (c.partOfUser entry.1).bind (c.parts[·]?) with
          | none => d
          | some seat =>
            if entry.1 = jc.user ∨ entry.2.length ≠ callSealedLen then d
            else d.tell [seat.conn] (.keyFor ⟨c.channel, c.callId, c.epoch, jc.user, entry.2⟩)) d

inductive CallAnswer where
  /-- the conversation's members, and which of the users named may read it -/
  | granted (members users : List Nat)
  | denied (code : Nat)

/-- `OC_RES_CALL_AUTH` and `OC_RES_CALL_ERR` -/
def callResult (job : CallJob Key) (answer : CallAnswer) (random : Option Token) (now : Nat) : CallLoop Key Token :=
  match answer, job with
  | .granted members users, .join conn channel gen deviceKey codecs =>
    match d.findById conn with
    | none => d
    | some jc =>
      if gen ≠ jc.callGen then d
      else d.joinGranted jc channel deviceKey codecs members users random now
  | .granted members users, .invite conn channel =>
    match d.findById conn with
    | none => d
    | some jc => d.inviteGranted jc channel members users
  | .denied code, .join conn _ _ _ _ => d.sendCallError conn (.denied code)
  | .denied code, .invite conn _ => d.sendCallError conn (.denied code)

end CallLoop

inductive CallEvent (Key Token : Type) where
  /-- a connection, with an id no other has had, signed in -/
  | signIn (user : Nat)
  | closed (conn now : Nat)
  | frame (conn : Nat) (frame : CallUp Key)
  /-- the answer to the job at this place of the queue -/
  | result (job : Nat) (answer : CallLoop.CallAnswer) (random : Option Token) (now : Nat)
  /-- the relay dropped a silent participant -/
  | swept (token : Token)
  | expire (now grace : Nat)
  | configure (callMax : CallMax)

namespace CallLoop

variable {Key Token : Type} [DecidableEq Token]

def start (callMax : CallMax) (relay demo : Bool) (advertisedPort : Nat) : CallLoop Key Token :=
  { callMax, relay, demo, advertisedPort, nextCallId := 0, nextConnId := 1, conns := [], jobs := []
    calls := .empty _ _, sent := [] }

variable (d : CallLoop Key Token)

def greet (conn user : Nat) : CallLoop Key Token :=
  (d.calls.entries.filter (·.audience user)).foldl (fun d c => d.tell [conn] (.state (c.state false))) d

def step : CallEvent Key Token → CallLoop Key Token
  | .signIn user =>
    let id := d.nextConnId
    let d := { d with conns := d.conns ++ [CallConn.mk id user 0 0], nextConnId := id + 1 }
    d.greet id user
  | .closed conn now =>
    let d := { d with conns := d.conns.filter (·.id ≠ conn) }
    d.callConnClosed conn now
  | .frame conn frame =>
    match d.findById conn with
    | some jc => d.callFrame jc frame
    | none => d
  | .result i answer random now =>
    match d.jobs[i]? with
    | some job => { d with jobs := d.jobs.eraseIdx i }.callResult job answer random now
    | none => d
  | .swept token => d.callDropToken token
  | .expire now grace => d.callExpireDetached now grace
  | .configure callMax => { d with callMax }

end CallLoop

end OpenChime.Daemon
