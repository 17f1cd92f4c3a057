import Mathlib.Data.List.Sort
import OpenChime.Lib.Rows
import OpenChime.Shared.Text

/-! Who is in which channel: the writer's jobs over the tables `users`, `channels`,
`channel_members`, `user_groups`, `user_group_members` and `channel_groups`. -/

set_option autoImplicit false

namespace OpenChime.Daemon.Members

open OpenChime.Shared

inductive Role where
  | member
  | admin
  | owner
deriving DecidableEq

def Role.canManageMembers : Role → Bool
  | .member => false
  | .admin => true
  | .owner => true

/-- `dm_key`: whose conversation it is. An encrypted one is made anew each time. -/
inductive DmKey where
  | people (ids : List Nat)
  | encrypted (low high now seq : Nat)
deriving DecidableEq

inductive ChannelKind where
  | channel (name : Text)
  | dm (key : DmKey)
deriving DecidableEq

structure UserRow where
  id : Nat
  displayName : Text
  role : Role
  disabled : Bool
  isSystem : Bool

structure ChannelRow where
  id : Nat
  kind : ChannelKind
  isPublic : Bool
  archived : Bool

structure MemberRow where
  channel : Nat
  user : Nat
  direct : Bool

def MemberRow.key (row : MemberRow) : Nat × Nat := (row.channel, row.user)

def MemberRow.setDirect (row : MemberRow) (direct : Bool) : MemberRow := { row with direct }

structure GroupRow where
  id : Nat
  handle : Text

/-- `groupMembers` holds (group, user), `channelGroups` (channel, group). -/
structure MemberDb where
  users : List UserRow
  channels : List ChannelRow
  members : List MemberRow
  groups : List GroupRow
  groupMembers : List (Nat × Nat)
  channelGroups : List (Nat × Nat)

inductive MemberError where
  | forbidden
  | lastOwner
  | unknownChannel
  | invalidChannel
  | channelExists
  | channelArchived
  | notAMember
  | memberViaGroup
  | malformedFrame
  | unknownGroup
  | invalidGroup
  | groupHandleTaken
deriving DecidableEq

structure MembChange where
  channel : Nat
  user : Nat
  joined : Bool
deriving DecidableEq

/-- A notice posted in the DM `channel` of the workspace's own sender and a person. -/
structure Notice where
  channel : Nat
  sender : Nat
  person : Nat
deriving DecidableEq

/-- What a job answers: an error, or the channel, group or user it is about; `changes` is
`mchg`, `members` the people of a group DM, `notices` what was queued beside the answer. -/
structure Reply where
  answer : Except MemberError Nat
  changes : List MembChange
  members : List Nat
  notices : List Notice

def Reply.error (e : MemberError) : Reply := ⟨.error e, [], [], []⟩

def Reply.ok (id : Nat) : Reply := ⟨.ok id, [], [], []⟩

def nextId (ids : List Nat) : Nat := ids.foldl max 0 + 1

def maxChannelName : Nat := 64
def maxGroupDm : Nat := 8
def groupHandleMax : Nat := 48
def groupNameMax : Nat := 80
def groupDescMax : Nat := 500
def maxGroupMembers : Nat := 1024
def maxGroups : Nat := 256
def maxChannelGroups : Nat := 32

namespace MemberDb

variable (db : MemberDb)

/-- The workspace's own sender has no role: nothing done to a person reaches it. -/
def userRole (user : Nat) : Option Role := (db.users.find? fun row => row.id == user && !row.isSystem).map (·.role)

def userDisabled (user : Nat) : Bool := (db.users.find? (·.id == user)).any (·.disabled)

def getRole (user : Nat) : Role := (db.userRole user).getD .member

def countActiveOwners : Nat := db.users.countP fun row => decide (row.role = .owner) && !row.disabled

def mayManageGroups (actor : Nat) : Bool := (db.getRole actor).canManageMembers && !db.userDisabled actor

def isMember (channel user : Nat) : Bool := db.members.any (·.key == (channel, user))

def channelExists (channel : Nat) : Option ChannelRow := db.channels.find? (·.id == channel)

def ChannelRow.isNamed (row : ChannelRow) : Bool :=
  match row.kind with
  | .channel _ => true
  | .dm _ => false

def namedChannelExists (channel : Nat) : Option ChannelRow :=
  db.channels.find? fun row => row.id == channel && ChannelRow.isNamed row

def groupExists (group : Nat) : Bool := db.groups.any (·.id == group)

/-- The `direct` column of the row of (channel, user), when there is one. -/
def directOf (channel user : Nat) : Option Bool := (db.members.find? (·.key == (channel, user))).map (·.direct)

def memberViaGroup (channel user : Nat) : Bool :=
  db.channelGroups.any fun cg =>
    cg.1 == channel && db.groupMembers.any fun gm => gm.1 == cg.2 && gm.2 == user

def memberOnlyViaGroup (channel user : Nat) : Bool :=
  db.directOf channel user == some false && db.memberViaGroup channel user

/-- `direct` is the direct half to set, or `none` (−1 in the source) to leave it as it is. -/
def membershipSync (channel user : Nat) (direct : Option Bool) : MemberDb × Int :=
  let current := db.directOf channel user
  let wantDirect := direct.getD (current == some true)
  let want := wantDirect || db.memberViaGroup channel user
  if want && current.isNone then
    ({ db with members := db.members ++ [⟨channel, user, wantDirect⟩] }, 1)
  else if want && current.getD false != wantDirect then
    ({ db with
        members := Rows.update (·.key == (channel, user)) (·.setDirect wantDirect) db.members }, 0)
  else if !want && current.isSome then
    ({ db with members := Rows.delete (·.key == (channel, user)) db.members }, -1)
  else (db, 0)

def addMembership (channel user : Nat) : MemberDb := (db.membershipSync channel user (some true)).1

def channelsOfGroup (group : Nat) : List Nat := (db.channelGroups.filter (·.2 == group)).map (·.1)

def usersOfGroup (group : Nat) : List Nat := (db.groupMembers.filter (·.1 == group)).map (·.2)

def insertChannel (kind : ChannelKind) (isPublic : Bool) : MemberDb × Nat :=
  let id := nextId (db.channels.map (·.id))
  ({ db with channels := db.channels ++ [⟨id, kind, isPublic, false⟩] }, id)

def findDm (key : DmKey) : Option ChannelRow := db.channels.find? fun row => decide (row.kind = .dm key)

def workspaceSender : MemberDb × Nat :=
  match ((db.users.filter (·.isSystem)).map (·.id)).min? with
  | some id => (db, id)
  | none =>
    let id := nextId (db.users.map (·.id))
    ({ db with users := db.users ++ [⟨id, text "Workspace", .member, false, true⟩] }, id)

def pairKey (a b : Nat) : DmKey := .people [min a b, max a b]

def workspaceDmWith (user : Nat) : MemberDb × List Notice :=
  let (db, sys) := db.workspaceSender
  if user == 0 || sys == user then (db, [])
  else
    -- INSERT OR IGNORE, under the unique index of dm_key
    let db := if (db.findDm (pairKey sys user)).isSome then db
      else (db.insertChannel (.dm (pairKey sys user)) false).1
    match db.findDm (pairKey sys user) with
    | none => (db, [])
    | some row => ((db.addMembership row.id sys).addMembership row.id user, [⟨row.id, sys, user⟩])

/-- The public channel a setting names, its leading blanks and `#` passed over. -/
def noticeTarget (name : Text) : Option ChannelRow :=
  let name := name.dropWhile fun c => c == ascii ' ' || c == ascii '#'
  if name.isEmpty then none
  else db.channels.find? fun row =>
    decide (row.kind = .channel name) && row.isPublic && !row.archived

/-- `notice_named`: of these tables it changes only `users`, where the sender may be new. -/
def noticeNamed (setting : Text) : MemberDb :=
  if (db.noticeTarget setting).isSome then db.workspaceSender.1 else db

def nameIs (name : Text) (row : ChannelRow) : Bool :=
  match row.kind with
  | .channel other => other.map lower == name.map lower
  | .dm _ => false

/-- `setting` is OPENCHIME_NOTICE_CHANNEL_CREATED. -/
def createChannel (setting : Text) (db : MemberDb) (actor : Nat) (name : Text) (isPublic : Bool) : MemberDb × Reply :=
  if name.length == 0 || maxChannelName < name.length then (db, .error .invalidChannel)
  else if db.channels.any (nameIs name) then (db, .error .channelExists)
  else
    let (db, channel) := db.insertChannel (.channel name) isPublic
    let db := db.addMembership channel actor
    (if isPublic then db.noticeNamed setting else db, .ok channel)

def addPair (channel self other : Nat) : MemberDb :=
  let db := db.addMembership channel self
  if other == self then db else db.addMembership channel other

def openDm (self other : Nat) : MemberDb × Reply :=
  let key := if other == self then .people [self] else pairKey self other
  if other == 0 then (db, .error .forbidden)
  else if other != self && (db.userRole other).isNone then (db, .error .forbidden)
  else match db.findDm key with
  | some row => (db.addPair row.id self other, .ok row.id)
  | none =>
    if other != self && db.userDisabled other then (db, .error .forbidden)
    else
      let (db, channel) := db.insertChannel (.dm key) false
      (db.addPair channel self other, .ok channel)

def openE2eDm (self other now seq : Nat) : MemberDb × Reply :=
  let key := .encrypted (min self other) (max self other) now seq
  if other == 0 || other == self || (db.userRole other).isNone || db.userDisabled other then
    (db, .ok 0)
  else if (db.findDm key).isSome then (db, .ok 0)
  else
    let (db, channel) := db.insertChannel (.dm key) false
    ((db.addMembership channel self).addMembership channel other, .ok channel)

/-- The participants read so far and the others still to read. -/
def groupDmPeople (db : MemberDb) : List Nat → List Nat → Option (List Nat)
  | ids, [] => some ids
  | ids, user :: others =>
    if maxGroupDm < ids.length then some ids
    else if user == 0 || ids.contains user then db.groupDmPeople ids others
    else if (db.userRole user).isNone || db.userDisabled user then none
    else db.groupDmPeople (ids ++ [user]) others

def openGroupDm (actor : Nat) (others : List Nat) : MemberDb × Reply :=
  match db.groupDmPeople [actor] others with
  | none => (db, .error .forbidden)
  | some ids =>
    if ids.length < 3 then (db, .error .malformedFrame)
    else
      let ids := ids.insertionSort (· ≤ ·)
      let (db, channel) := match db.findDm (.people ids) with
        | some row => (db, row.id)
        | none => db.insertChannel (.dm (.people ids)) false
      (ids.foldl (fun db user => db.addMembership channel user) db, ⟨.ok channel, [], ids, []⟩)

def joinChannel (actor channel : Nat) : MemberDb × Reply :=
  match db.namedChannelExists channel with
  | none => (db, .error .unknownChannel)
  | some row =>
    if !row.isPublic && !db.isMember channel actor then (db, .error .forbidden)
    else (db.addMembership channel actor, .ok channel)

def leaveChannel (actor channel : Nat) : MemberDb × Reply :=
  if (db.namedChannelExists channel).isNone then (db, .error .unknownChannel)
  else if db.memberOnlyViaGroup channel actor then (db, .error .memberViaGroup)
  else ((db.membershipSync channel actor (some false)).1, .ok channel)

def inviteChannel (actor channel target : Nat) : MemberDb × Reply :=
  if (db.namedChannelExists channel).isNone then (db, .error .unknownChannel)
  else if !db.isMember channel actor then (db, .error .notAMember)
  else if (db.userRole target).isNone || db.userDisabled target then (db, .error .forbidden)
  else
    let wasIn := db.isMember channel target
    let db := db.addMembership channel target
    if !wasIn && target != actor then
      let told := db.workspaceDmWith target
      (told.1, ⟨.ok channel, [], [], told.2⟩)
    else (db, .ok channel)

/-- A change of nobody's membership (user 0) is not listed. -/
def noteChange (changes : List MembChange) (channel user : Nat) (joined : Bool) : List MembChange :=
  if user == 0 then changes else changes ++ [⟨channel, user, joined⟩]

def removeChannel (actor channel target : Nat) : MemberDb × Reply :=
  if (db.namedChannelExists channel).isNone then (db, .error .unknownChannel)
  else if !db.isMember channel actor then (db, .error .notAMember)
  else if db.memberOnlyViaGroup channel target then (db, .error .memberViaGroup)
  else
    let synced := db.membershipSync channel target (some false)
    (synced.1, ⟨.ok channel, if synced.2 < 0 then noteChange [] channel target false else [], [], []⟩)

/-- `channel_post_access`: a post to a public channel joins it. -/
def postAccess (actor channel : Nat) : MemberDb × Reply :=
  match db.channelExists channel with
  | none => (db, .error .unknownChannel)
  | some row =>
    if row.archived then (db, .error .channelArchived)
    else if db.isMember channel actor then (db, .ok channel)
    else if row.isPublic then (db.addMembership channel actor, .ok channel)
    else (db, .error .forbidden)

def groupHandleValid (handle : Text) : Bool :=
  !handle.isEmpty && handle.length ≤ groupHandleMax &&
    !handle.head?.any (fun c => isDigit c || [ascii '.', ascii '-', ascii '_'].contains c) &&
    handle.all fun c =>
      isLower c || isUpper c || isDigit c || [ascii '.', ascii '_', ascii '-'].contains c

def sameName (a b : Text) : Bool := a.map lower == b.map lower

/-- `name_taken` with `people`, for a group that is new. -/
def nameTaken (name : Text) : Bool :=
  [text "here", text "channel", text "everyone"].any (sameName name) ||
    db.groups.any (sameName name ·.handle) || db.users.any (sameName name ·.displayName)

def groupTextCheck (handle name description : Text) : Option MemberError :=
  if !groupHandleValid handle || name.length == 0 || groupNameMax < name.length ||
      groupDescMax < description.length then some .invalidGroup
  else if db.nameTaken handle then some .groupHandleTaken
  else none

def createGroup (actor : Nat) (handle name description : Text) : MemberDb × Reply :=
  if !db.mayManageGroups actor then (db, .error .forbidden)
  else match db.groupTextCheck handle name description with
  | some bad => (db, .error bad)
  | none =>
    if maxGroups ≤ db.groups.length then (db, .error .invalidGroup)
    else
      let id := nextId (db.groups.map (·.id))
      ({ db with groups := db.groups ++ [⟨id, handle⟩] }, .ok id)

structure GroupWork where
  db : MemberDb
  changes : List MembChange
  notices : List Notice

/-- One membership brought in line, and noted when it changed. -/
def GroupWork.sync (work : GroupWork) (channel user : Nat) : GroupWork :=
  let synced := work.db.membershipSync channel user none
  { work with
    db := synced.1
    changes := if synced.2 = 0 then work.changes
      else noteChange work.changes channel user (decide (0 < synced.2)) }

/-- The same where a deleted group's people are gone over: only a loss is noted. -/
def GroupWork.syncLost (work : GroupWork) (channel user : Nat) : GroupWork :=
  let synced := work.db.membershipSync channel user none
  { work with
    db := synced.1
    changes := if synced.2 < 0 then noteChange work.changes channel user false else work.changes }

def GroupWork.lostBy (users : List Nat) (work : GroupWork) (channel : Nat) : GroupWork :=
  users.foldl (fun work user => work.syncLost channel user) work

def GroupWork.noticePerson (work : GroupWork) (user : Nat) : GroupWork :=
  let told := work.db.workspaceDmWith user
  { work with db := told.1, notices := work.notices ++ told.2 }

def GroupWork.reply (work : GroupWork) (id : Nat) : MemberDb × Reply :=
  (work.db, ⟨.ok id, work.changes, [], work.notices⟩)

def deleteGroup (actor group : Nat) : MemberDb × Reply :=
  if !db.mayManageGroups actor then (db, .error .forbidden)
  else if !db.groupExists group then (db, .error .unknownGroup)
  else
    let channels := db.channelsOfGroup group
    let users := db.usersOfGroup group
    let db := { db with
      channelGroups := Rows.delete (·.2 == group) db.channelGroups
      groupMembers := Rows.delete (·.1 == group) db.groupMembers
      groups := Rows.delete (·.id == group) db.groups }
    (channels.foldl (GroupWork.lostBy users) ⟨db, [], []⟩).reply group

/-- The statement for one person, and whether it changed a row. -/
def editGroupMembers (add : Bool) (group user : Nat) : MemberDb × Bool :=
  let there := db.groupMembers.contains (group, user)
  if add then
    if db.userDisabled user || (db.userRole user).isNone then (db, false)
    else if there then (db, false)
    else ({ db with groupMembers := db.groupMembers ++ [(group, user)] }, true)
  else ({ db with groupMembers := Rows.delete (· == (group, user)) db.groupMembers }, there)

def GroupWork.groupMember (add : Bool) (actor group : Nat) (channels : List Nat) (work : GroupWork)
    (user : Nat) : GroupWork :=
  let edited := work.db.editGroupMembers add group user
  let work := { work with db := edited.1 }
  if !edited.2 then work
  else
    let work := if add && user != actor then work.noticePerson user else work
    channels.foldl (fun work channel => work.sync channel user) work

def processGroupMembers (add : Bool) (actor group : Nat) (users : List Nat) : MemberDb × Reply :=
  if !db.mayManageGroups actor then (db, .error .forbidden)
  else if !db.groupExists group then (db, .error .unknownGroup)
  else if add && maxGroupMembers < (db.usersOfGroup group).length + users.length then
    (db, .error .invalidGroup)
  else
    let channels := db.channelsOfGroup group
    (users.foldl (GroupWork.groupMember add actor group channels) ⟨db, [], []⟩).reply group

def editChannelGroups (add : Bool) (channel group : Nat) : MemberDb × Bool :=
  let there := db.channelGroups.contains (channel, group)
  if add then
    if there then (db, false)
    else ({ db with channelGroups := db.channelGroups ++ [(channel, group)] }, true)
  else ({ db with channelGroups := Rows.delete (· == (channel, group)) db.channelGroups }, there)

/-- One of the group's people; who gains the channel by it is told. -/
def GroupWork.channelMember (actor channel : Nat) (work : GroupWork) (user : Nat) : GroupWork :=
  let gained := (work.db.membershipSync channel user none).2
  let work := work.sync channel user
  if decide (0 < gained) && user != actor then work.noticePerson user else work

def processChannelGroup (add : Bool) (actor channel group : Nat) : MemberDb × Reply :=
  if (db.namedChannelExists channel).isNone then (db, .error .unknownChannel)
  else if !db.isMember channel actor then (db, .error .notAMember)
  else if !db.groupExists group then (db, .error .unknownGroup)
  else
    let attached := ((db.channelGroups.filter (·.1 == channel)).map (·.2)).take maxChannelGroups
    if add && !attached.contains group && maxChannelGroups ≤ attached.length then
      (db, .error .invalidGroup)
    else
      let users := db.usersOfGroup group
      let edited := db.editChannelGroups add channel group
      let work : GroupWork := ⟨edited.1, [], []⟩
      (if edited.2 then users.foldl (GroupWork.channelMember actor channel) work else work).reply channel

/-- Out of every group first, then out of every channel but the DMs. -/
def deactivateUser (user : Nat) : MemberDb :=
  let db := { db with
    users := Rows.update (·.id == user) ({ · with disabled := true }) db.users
    groupMembers := Rows.delete (·.2 == user) db.groupMembers }
  let channels := (db.members.filter fun row =>
    row.user == user && (db.namedChannelExists row.channel).isSome).map (·.channel)
  channels.foldl (fun db channel => (db.membershipSync channel user (some false)).1) db

def removeUser (actor target : Nat) : MemberDb × Reply :=
  match db.userRole actor, db.userRole target with
  | some actorRole, some targetRole =>
    if !actorRole.canManageMembers then (db, .error .forbidden)
    else if targetRole ≠ .member ∧ actorRole ≠ .owner then (db, .error .forbidden)
    else if targetRole = .owner ∧ db.countActiveOwners ≤ 1 then (db, .error .lastOwner)
    else (db.deactivateUser target, .ok target)
  | _, _ => (db, .error .forbidden)

def deactivateSelf (actor : Nat) : MemberDb × Reply :=
  match db.userRole actor with
  | none => (db, .error .forbidden)
  | some role =>
    if db.userDisabled actor then (db, .error .forbidden)
    else if role = .owner ∧ db.countActiveOwners ≤ 1 then (db, .error .lastOwner)
    else (db.deactivateUser actor, .ok actor)

end MemberDb

inductive MemberJob where
  | createChannel (actor : Nat) (name : Text) (isPublic : Bool)
  | openDm (actor target : Nat)
  | openE2eDm (actor target now seq : Nat)
  | openGroupDm (actor : Nat) (others : List Nat)
  | join (actor channel : Nat)
  | leave (actor channel : Nat)
  | invite (actor channel target : Nat)
  | remove (actor channel target : Nat)
  | post (actor channel : Nat)
  | createGroup (actor : Nat) (handle name description : Text)
  | deleteGroup (actor group : Nat)
  | groupMembers (add : Bool) (actor group : Nat) (users : List Nat)
  | channelGroup (add : Bool) (actor channel group : Nat)
  | removeUser (actor target : Nat)
  | deactivateSelf (actor : Nat)

def MemberDb.process (setting : Text) (db : MemberDb) : MemberJob → MemberDb × Reply
  | .createChannel actor name isPublic => db.createChannel setting actor name isPublic
  | .openDm actor target => db.openDm actor target
  | .openE2eDm actor target now seq => db.openE2eDm actor target now seq
  | .openGroupDm actor others => db.openGroupDm actor others
  | .join actor channel => db.joinChannel actor channel
  | .leave actor channel => db.leaveChannel actor channel
  | .invite actor channel target => db.inviteChannel actor channel target
  | .remove actor channel target => db.removeChannel actor channel target
  | .post actor channel => db.postAccess actor channel
  | .createGroup actor handle name description => db.createGroup actor handle name description
  | .deleteGroup actor group => db.deleteGroup actor group
  | .groupMembers add actor group users => db.processGroupMembers add actor group users
  | .channelGroup add actor channel group => db.processChannelGroup add actor channel group
  | .removeUser actor target => db.removeUser actor target
  | .deactivateSelf actor => db.deactivateSelf actor

end OpenChime.Daemon.Members
