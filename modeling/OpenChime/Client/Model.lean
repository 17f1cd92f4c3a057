import Mathlib.Algebra.Group.Prod
import Mathlib.Algebra.GroupWithZero.Nat
import OpenChime.Lib.Ordered
import OpenChime.Shared.Mention

/-! The client's conversations (`client/core/model.c`): what OC_EV_MESSAGE does to the
transcript and the badge, and the recount of `oc_model_set_read_marker`. Ids and times
are naturals; the sidebar preview and what other events keep with a message are left
out. -/

set_option autoImplicit false

namespace OpenChime.Client

open Shared Ordered

theorem authorNameSize_pos : 0 < 64 := by decide

/-- `oc_msg_action`; the cleared one has `present` 0. -/
structure Action where
  present : Bool
  (start len : Nat)
  actorName : CharBuf 64
  deriving DecidableEq

def Action.cleared : Action := ⟨false, 0, 0, .empty authorNameSize_pos⟩

structure Msg where
  body : Option Text
  authorName : CharBuf 64
  (authorId messageId serverTime : Nat)
  deleted : Bool
  kind : UInt8
  broadcastStored : Bool
  action : Action
  deriving DecidableEq

/-- The `oc_ev` of an OC_EV_MESSAGE. -/
structure MessageEv where
  (channelId authorId messageId serverTime : Nat)
  msgKind : UInt8
  broadcastStored : Bool
  authorName : CharBuf 64
  body : Option Text
  (action actionKnown : Bool)
  (actionStart actionLen : Nat)
  actorName : CharBuf 64

def MessageEv.actionFits (e : MessageEv) (body : Option Text) : Bool :=
  e.action ∧ ∃ b ∈ body, e.actionLen ≠ 0 ∧ e.actionStart ≤ b.length ∧ e.actionLen ≤ b.length - e.actionStart

def Msg.setAction (msg : Msg) (e : MessageEv) : Msg :=
  if e.actionKnown then
    { msg with
      action := if msg.deleted = false ∧ e.actionFits msg.body then
          ⟨true, e.actionStart, e.actionLen, .print authorNameSize_pos e.actorName.chars⟩
        else .cleared }
  else msg

/-- `oc_channel`, as far as messages and the badge use it. -/
structure Channel where
  channelId : Nat
  msgs : List Msg
  highWater : Nat
  readMarker : Nat
  (unread priorityUnread srvUnread : Nat)
  notifyLevel : NotifyLevel
  muted : Bool

/-- The entry `channel_append` fills in. -/
def MessageEv.msg (e : MessageEv) : Msg :=
  { body := e.body, authorName := .print authorNameSize_pos e.authorName.chars, authorId := e.authorId
    messageId := e.messageId, serverTime := e.serverTime, deleted := false, kind := e.msgKind
    broadcastStored := e.broadcastStored, action := .cleared }

namespace Channel

def empty (channelId : Nat) (notifyLevel : NotifyLevel) : Channel :=
  { channelId, msgs := [], highWater := 0, readMarker := 0, unread := 0, priorityUnread := 0
    srvUnread := 0, notifyLevel, muted := false }

def ids (c : Channel) : List Nat := c.msgs.map Msg.messageId

/-- `channel_append`: the channel, and whether a message was appended. -/
def append (c : Channel) (e : MessageEv) : Channel × Bool :=
  let older : Bool := e.messageId ≠ 0 ∧ e.messageId ≤ c.highWater
  if older ∧ e.messageId ∈ c.ids then (c, false)
  else
    ({ c with
        msgs := if older then
            before Msg.messageId e.messageId c.msgs ++ e.msg :: behind Msg.messageId e.messageId c.msgs
          else c.msgs ++ [e.msg]
        highWater := if e.messageId > c.highWater then e.messageId else c.highWater },
      true)

/-- `&c->msgs[c->n_msgs - 1]` -/
def modifyLast (c : Channel) (f : Msg → Msg) : Channel := { c with msgs := c.msgs.modify (c.msgs.length - 1) f }

end Channel

structure Member where
  userId : Nat
  label : CharBuf 80

/-- `oc_group_view` -/
structure Group where
  handle : Text
  members : List Nat

/-- `oc_model`, as far as the message events and the badge use it. -/
structure Model where
  (userId wsSender : Nat)
  users : List Member
  groups : List Group
  kwTerms : List Text
  priPeople : List Nat
  notifyDefault : NotifyLevel
  channels : List Channel
  listenChannel : Nat
  listenQueue : List Nat
  listenSkipped : Nat

def listenQueueMax : Nat := 64

def msgKindMessage : UInt8 := 0

namespace Model

variable (m : Model)

def channel (channelId : Nat) : Option Channel := m.channels.find? (·.channelId = channelId)

def channelEnsure (channelId : Nat) : Model :=
  if (m.channel channelId).isSome then m
  else { m with channels := m.channels ++ [.empty channelId m.notifyDefault] }

/-- A change through the pointer `oc_model_channel` returns. -/
def withChannel (channelId : Nat) (f : Channel → Channel) : Model :=
  { m with channels := m.channels.modify (m.channels.findIdx (·.channelId = channelId)) f }

def isWorkspaceSender (userId : Nat) : Bool := userId ≠ 0 ∧ userId = m.wsSender

def isPriority (userId : Nat) : Bool := userId ≠ 0 ∧ userId ∈ m.priPeople

def userName (userId : Nat) : Text :=
  if m.isWorkspaceSender userId then text "Workspace"
  else match m.users.find? (·.userId = userId) with
    | some user => user.label.chars
    | none => []

def mentionsMeIn (broadcastStored : Bool) (body : Text) : Bool :=
  let found := (mentionScan body).take mentionMax
  let me := m.userName m.userId
  let named (mention : Mention) : Bool := mention.kind = .user ∧ ((me ≠ [] ∧ ieq mention.name me) ∨
        ∃ group ∈ m.groups, m.userId ∈ group.members ∧ ieq mention.name group.handle)
  found.any named || (found.any (·.kind ≠ .user) && broadcastStored)

def keywordHit (body : Text) : Bool := body ≠ [] ∧ ∃ term ∈ m.kwTerms, (keywordMatch body term).isSome

/-- What `oc_notify_decide` says of a text by an author, and whether it is about the user:
what it adds to `unread` and to `priority_unread`. -/
def verdict (c : Channel) (authorId : Nat) (broadcastStored : Bool) (body : Option Text) : Nat × Nat :=
  let men := body.any (m.mentionsMeIn broadcastStored)
  let kw := body.any m.keywordHit
  let vip := m.isPriority authorId
  if notifyDecide (authorId = m.userId ∨ m.isWorkspaceSender authorId) c.muted vip c.notifyLevel
      men kw false false false
  then (1, if men ∨ kw ∨ vip then 1 else 0)
  else (0, 0)

def counted (c : Channel) (marker : Nat) (msg : Msg) : Nat × Nat :=
  if msg.messageId ≤ marker ∨ msg.deleted then (0, 0)
  else m.verdict c msg.authorId msg.broadcastStored msg.body

/-- What `oc_model_set_read_marker` counts past a marker. -/
def recount (c : Channel) (marker : Nat) : Nat × Nat := (c.msgs.map (m.counted c marker)).sum

def setReadMarker (channelId messageId : Nat) : Model :=
  m.withChannel channelId fun c =>
    let (unread, priorityUnread) := m.recount c messageId
    { c with readMarker := messageId, unread, priorityUnread, srvUnread := unread }

/-- The badge of a message just appended: it asks about the last entry's text. -/
def count (c : Channel) (e : MessageEv) : Channel :=
  match c.msgs.getLast? with
  | none => c
  | some msg =>
    if e.messageId > c.readMarker then
      let (one, priority) := m.verdict c e.authorId msg.broadcastStored msg.body
      { c with unread := c.unread + one, priorityUnread := c.priorityUnread + priority }
    else c

/-- Talking mode: the queue drops its oldest when full. -/
def listen (e : MessageEv) : Model :=
  if m.listenChannel = e.channelId ∧ e.authorId ≠ m.userId ∧ e.msgKind = msgKindMessage then
    if m.listenQueue.length = listenQueueMax then
      { m with
        listenQueue := m.listenQueue.tail ++ [e.messageId], listenSkipped := m.listenSkipped + 1 }
    else { m with listenQueue := m.listenQueue ++ [e.messageId] }
  else m

def settle (e : MessageEv) (c : Channel) : Channel := m.count (c.modifyLast (·.setAction e)) e

/-- The OC_EV_MESSAGE arm of `oc_model_apply`. -/
def onMessage (e : MessageEv) : Model :=
  let m := m.channelEnsure e.channelId
  match m.channel e.channelId with
  | none => m
  | some c =>
    if (c.append e).2 then
      (m.withChannel e.channelId fun c => m.settle e (c.append e).1).listen e
    else m

end Model

end OpenChime.Client
