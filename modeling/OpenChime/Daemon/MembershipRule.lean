import Mathlib.Order.MinMax
import OpenChime.Daemon.Membership
import OpenChime.Lib.Run

/-! The rule of channel membership: a row of (channel, user) stands exactly when the user was
added directly and not since removed, or is in a group the channel has. -/

set_option autoImplicit false

namespace OpenChime.Daemon.Members

open OpenChime.Shared List Rows

namespace MemberDb

variable {db : MemberDb} {channel user : Nat} {direct : Option Bool}

/-- What the row of a pair should be: its `direct` flag, or no row. -/
def wanted (current direct : Option Bool) (via : Bool) : Option Bool :=
  if direct.getD (current == some true) then some true else if via then some false else none

/-- How a membership changed, as `membership_sync` says it. -/
def turn : Option Bool → Option Bool → Int
  | none, some _ => 1
  | some _, none => -1
  | _, _ => 0

theorem isMember_eq (db : MemberDb) (channel user : Nat) :
    db.isMember channel user = (db.directOf channel user).isSome := by
  unfold isMember directOf
  rw [Option.isSome_map, Bool.eq_iff_iff, find?_isSome, any_eq_true]

theorem directOf_insert (absent : db.directOf channel user = none) (flag : Bool) (c u : Nat) :
    directOf { db with members := db.members ++ [⟨channel, user, flag⟩] } c u =
      if (c, u) = (channel, user) then some flag else db.directOf c u := by
  unfold directOf at absent ⊢
  rw [find?_append]
  split
  · next same =>
    rw [same, Option.map_eq_none_iff.mp absent, find?_singleton]
    simp [MemberRow.key]
  next other =>
  have skipped : ((⟨channel, user, flag⟩ : MemberRow).key == (c, u)) = false :=
    beq_eq_false_iff_ne.mpr fun same => other same.symm
  rw [find?_singleton, skipped]
  simp

theorem directOf_update (flag : Bool) (c u : Nat) : directOf { db with
        members := update (·.key == (channel, user)) (·.setDirect flag) db.members } c u =
      if (c, u) = (channel, user) then (db.directOf channel user).map fun _ => flag
      else db.directOf c u := by
  have kept : ∀ row : MemberRow, (row.setDirect flag).key = row.key := fun _ => rfl
  unfold directOf
  split
  · next same =>
    rw [same, find?_update_self kept, Option.map_map, Option.map_map]
    rfl
  · next other =>
    rw [find?_update_of_ne kept (Ne.symm other)]

theorem directOf_delete (c u : Nat) : directOf { db with members := delete (·.key == (channel, user)) db.members } c u =
      if (c, u) = (channel, user) then none else db.directOf c u := by
  unfold directOf
  split
  · next same => rw [same, find?_delete_self, Option.map_none]
  · next other => rw [find?_delete_of_ne (Ne.symm other)]

/-- `membership_sync` writes the row of its pair as the rule has it, touches nothing else, and
answers how that row changed. -/
structure Synced (db : MemberDb) (channel user : Nat) (direct : Option Bool) (after : MemberDb)
    (answer : Int) : Prop where
  tables : after = { db with members := after.members }
  row : ∀ c u, after.directOf c u = if (c, u) = (channel, user) then
      wanted (db.directOf channel user) direct (db.memberViaGroup channel user)
    else db.directOf c u
  told : answer = turn (db.directOf channel user) (after.directOf channel user)
  unique : Rows.Unique MemberRow.key db.members → Rows.Unique MemberRow.key after.members

theorem membershipSync_synced (db : MemberDb) (channel user : Nat) (direct : Option Bool) :
    Synced db channel user direct (db.membershipSync channel user direct).1
      (db.membershipSync channel user direct).2 := by
  have absentKey : db.directOf channel user = none → ∀ row ∈ db.members, row.key ≠ (channel, user) := by
    intro absent row mem same
    have notKey := find?_eq_none.mp (Option.map_eq_none_iff.mp absent) row mem
    exact notKey (beq_iff_eq.mpr same)
  have rule (current : Option Bool) (via : Bool) : wanted current direct via =
        if direct.getD (current == some true) || via then some (direct.getD (current == some true))
        else none := by
    unfold wanted
    cases direct.getD (current == some true) <;> cases via <;> rfl
  have unchanged (same : wanted (db.directOf channel user) direct (db.memberViaGroup channel user) =
      db.directOf channel user) : Synced db channel user direct db 0 := by
    refine ⟨rfl, ?_, ?_, id⟩
    · intro c u
      rw [same]
      split
      · next pair =>
        cases pair
        rfl
      · rfl
    · cases db.directOf channel user <;> rfl
  have written {after : MemberDb} {answer : Int} {new : Option Bool}
      (isNew : wanted (db.directOf channel user) direct (db.memberViaGroup channel user) = new)
      (tables : after = { db with members := after.members })
      (row : ∀ c u, after.directOf c u = if (c, u) = (channel, user) then new else db.directOf c u)
      (told : answer = turn (db.directOf channel user) new)
      (unique : Rows.Unique MemberRow.key db.members → Rows.Unique MemberRow.key after.members) :
      Synced db channel user direct after answer := by
    refine ⟨tables, ?_, ?_, unique⟩
    · rw [isNew]
      exact row
    · rw [row, if_pos rfl]
      exact told
  unfold membershipSync
  dsimp only
  have rule := rule (db.directOf channel user) (db.memberViaGroup channel user)
  generalize direct.getD (db.directOf channel user == some true) = isDirect at rule ⊢
  cases want : isDirect || db.memberViaGroup channel user with
  | true =>
    rw [want] at rule
    cases current : db.directOf channel user with
    | none =>
      exact written rule rfl (directOf_insert current isDirect) (by rw [current]; rfl)
        fun unique => unique.insert (absentKey current)
    | some flag =>
      by_cases same : flag = isDirect
      · subst same
        simp only [Option.isNone_some, Bool.and_false, Bool.false_eq_true, if_false,
          Option.getD_some, bne_self_eq_false, Bool.not_true, Bool.false_and]
        exact unchanged (rule.trans current.symm)
      have row := @directOf_update db channel user isDirect
      have differs : (flag != isDirect) = true := bne_iff_ne.mpr same
      simp only [Option.isNone_some, Bool.and_false, Bool.false_eq_true, if_false,
        Option.getD_some, differs, Bool.and_self, if_true]
      rw [current] at row
      exact written rule rfl row (by rw [current]; rfl) fun unique => unique.update fun _ => rfl
  | false =>
    rw [want] at rule
    cases current : db.directOf channel user with
    | none =>
      exact unchanged (rule.trans current.symm)
    | some flag =>
      exact written rule rfl directOf_delete (by rw [current]; rfl) fun unique => unique.delete

theorem namedChannelExists_isSome : (db.namedChannelExists channel).isSome = true ↔
      ∃ row ∈ db.channels, row.id = channel ∧ ChannelRow.isNamed row = true := by
  unfold namedChannelExists
  simp [find?_isSome]

def Named (db : MemberDb) (channel : Nat) : Prop := (db.namedChannelExists channel).isSome = true

/-- A pair whose row is not as the rule has it: it is missing (`joined`), or it is left over. -/
def Off (joined : Bool) (db : MemberDb) (channel user : Nat) : Prop :=
  db.memberViaGroup channel user = joined ∧ db.directOf channel user = if joined then none else some false

/-- What holds also in the middle of a group job: `added` are those directly in. -/
structure Kept (db : MemberDb) (added : Set (Nat × Nat)) : Prop where
  flagged : ∀ c u, db.directOf c u = some true ↔ (c, u) ∈ added
  unique : Rows.Unique MemberRow.key db.members
  channelIds : Rows.Unique ChannelRow.id db.channels
  groupsNamed : ∀ cg ∈ db.channelGroups, db.Named cg.1
  groupPeople : ∀ gm ∈ db.groupMembers, gm.2 ≠ 0
  userIds : ∀ row ∈ db.users, row.id ≠ 0

structure Follows (db : MemberDb) (added : Set (Nat × Nat)) : Prop extends Kept db added where
  settled : ∀ joined c u, ¬db.Off joined c u

variable {added added' : Set (Nat × Nat)} {after : MemberDb} {answer : Int} {joined : Bool} {c u : Nat}

theorem memberViaGroup_iff : db.memberViaGroup c u = true ↔
      ∃ group, (c, group) ∈ db.channelGroups ∧ (group, u) ∈ db.groupMembers := by
  unfold memberViaGroup
  rw [any_eq_true]
  constructor
  · rintro ⟨⟨channel, group⟩, attached, both⟩
    rw [Bool.and_eq_true, beq_iff_eq, any_eq_true] at both
    obtain ⟨rfl, ⟨g, user⟩, inGroup, same⟩ := both
    rw [Bool.and_eq_true, beq_iff_eq, beq_iff_eq] at same
    obtain ⟨rfl, rfl⟩ := same
    exact ⟨g, attached, inGroup⟩
  · rintro ⟨group, attached, inGroup⟩
    refine ⟨(c, group), attached, ?_⟩
    rw [Bool.and_eq_true, any_eq_true]
    exact ⟨beq_self_eq_true c, (group, u), inGroup, by simp⟩

variable (synced : Synced db channel user direct after answer)

include synced

theorem Synced.via (c u : Nat) : after.memberViaGroup c u = db.memberViaGroup c u := by
  rw [synced.tables]
  rfl

theorem Synced.named (c : Nat) : after.Named c ↔ db.Named c := by
  rw [synced.tables]
  rfl

/-- Whatever half was set, the pair is in line afterwards, and no other pair is touched. -/
theorem Synced.off : after.Off joined c u ↔ db.Off joined c u ∧ (c, u) ≠ (channel, user) := by
  unfold Off
  rw [synced.via, synced.row]
  by_cases same : (c, u) = (channel, user)
  · cases same
    unfold wanted
    cases db.memberViaGroup channel user <;> cases joined <;>
      cases direct.getD (db.directOf channel user == some true) <;> simp
  · simp [same]

theorem Synced.kept (kept : Kept db added)
    (own : (channel, user) ∈ added' ↔ direct.getD (db.directOf channel user == some true) = true)
    (others : ∀ pair, pair ≠ (channel, user) → (pair ∈ added' ↔ pair ∈ added)) : Kept after added' := by
  have tables := synced.tables
  refine ⟨?_, synced.unique kept.unique, ?_, ?_, ?_, ?_⟩
  · intro c u
    rw [synced.row]
    split
    · next same =>
      rw [same, own]
      unfold wanted
      cases direct.getD (db.directOf channel user == some true) <;>
        cases db.memberViaGroup channel user <;> simp
    · next other => rw [kept.flagged, others _ other]
  · rw [tables]
    exact kept.channelIds
  · intro cg mem
    rw [tables] at mem
    exact (synced.named cg.1).mpr (kept.groupsNamed cg mem)
  · rw [tables]
    exact kept.groupPeople
  · rw [tables]
    exact kept.userIds

omit synced

theorem Kept.add (kept : Kept db added) (channel user : Nat) :
    Kept (db.addMembership channel user) (insert (channel, user) added) :=
  (membershipSync_synced db channel user (some true)).kept kept (by simp) fun pair other => by simp [other]

theorem Kept.drop (kept : Kept db added) (channel user : Nat) :
    Kept (db.membershipSync channel user (some false)).1 (added \ {(channel, user)}) :=
  (membershipSync_synced db channel user (some false)).kept kept (by simp) fun pair other => by simp [other]

theorem Kept.resync (kept : Kept db added) (channel user : Nat) :
    Kept (db.membershipSync channel user none).1 added := by
  refine (membershipSync_synced db channel user none).kept kept ?_ fun _ _ => Iff.rfl
  rw [← kept.flagged, Option.getD_none, beq_iff_eq]

theorem Follows.inLine (follows : Follows db added) (kept : Kept (db.membershipSync channel user direct).1 added') :
    Follows (db.membershipSync channel user direct).1 added' :=
  ⟨kept, fun joined c u isOff =>
    follows.settled joined c u ((membershipSync_synced db channel user direct).off.mp isOff).1⟩

theorem Follows.add (follows : Follows db added) (channel user : Nat) :
    Follows (db.addMembership channel user) (insert (channel, user) added) :=
  follows.inLine (follows.toKept.add channel user)

theorem Follows.drop (follows : Follows db added) (channel user : Nat) :
    Follows (db.membershipSync channel user (some false)).1 (added \ {(channel, user)}) :=
  follows.inLine (follows.toKept.drop channel user)

theorem Synced.row_of_not_off (synced : Synced db channel user none after answer)
    (inLine : ∀ joined, ¬db.Off joined channel user) : answer = 0 ∧ ∀ c u, after.directOf c u = db.directOf c u := by
  have notMissing := inLine true
  have notLeft := inLine false
  have same : wanted (db.directOf channel user) none (db.memberViaGroup channel user) = db.directOf channel user := by
    unfold Off at notMissing notLeft
    unfold wanted
    revert notMissing notLeft
    rcases db.directOf channel user with _ | _ | _ <;>
      cases db.memberViaGroup channel user <;> simp
  have rows : ∀ c u, after.directOf c u = db.directOf c u := by
    intro c u
    rw [synced.row]
    split
    · next pair =>
      cases pair
      exact same
    · rfl
  refine ⟨?_, rows⟩
  rw [synced.told, rows]
  rcases db.directOf channel user with _ | _ <;> rfl

theorem Synced.row_of_off (synced : Synced db channel user none after answer) (isOff : db.Off joined channel user) :
    answer = (if joined then 1 else -1) ∧ db.isMember channel user = !joined ∧ ∀ c u, after.isMember c u =
        if (c, u) = (channel, user) then joined else db.isMember c u := by
  have row := synced.row channel user
  rw [if_pos rfl] at row
  obtain ⟨via, current⟩ := isOff
  rw [via, current] at row
  refine ⟨?_, ?_, ?_⟩
  · rw [synced.told, row, current]
    cases joined <;> rfl
  · rw [isMember_eq, current]
    cases joined <;> rfl
  · intro c u
    rw [isMember_eq, isMember_eq]
    split
    · next same =>
      cases same
      rw [row]
      cases joined <;> rfl
    · next other => rw [synced.row, if_neg other]

/-- The rows of the named channels that came (`joined`), or went, between two states are the
ones `changes` lists. -/
structure Moved (joined : Bool) (before after : MemberDb) (changes : List MembChange) : Prop where
  rows : ∀ c u, before.Named c → ((if joined then after else before).isMember c u = true ↔
      (if joined then before else after).isMember c u = true ∨ ⟨c, u, joined⟩ ∈ changes)
  listed : ∀ change ∈ changes, change.joined = joined ∧ before.Named change.channel ∧
    (if joined then before else after).isMember change.channel change.user = false

variable {before : MemberDb} {row : ChannelRow}

theorem Moved.refl (same : ∀ c u, after.isMember c u = before.isMember c u) : Moved joined before after [] := by
  refine ⟨?_, by simp⟩
  intro c u _
  cases joined <;> simp [same]

variable {changes : List MembChange} {next : MemberDb} (moved : Moved joined before after changes)

include moved

theorem Moved.same (same : ∀ c u, before.Named c → next.isMember c u = after.isMember c u) :
    Moved joined before next changes := by
  refine ⟨?_, ?_⟩
  · intro c u named
    have rows := moved.rows c u named
    cases joined with
    | true => simpa [same c u named] using rows
    | false => simpa [same c u named] using rows
  · intro change mem
    obtain ⟨flag, named, absent⟩ := moved.listed change mem
    refine ⟨flag, named, ?_⟩
    cases joined with
    | true => exact absent
    | false => exact (same _ _ named).trans absent

theorem Moved.step (named : before.Named channel) (was : after.isMember channel user = !joined)
    (turned : ∀ c u, next.isMember c u = if (c, u) = (channel, user) then joined else after.isMember c u) :
    Moved joined before next (changes ++ [⟨channel, user, joined⟩]) := by
  have atPair := moved.rows channel user named
  refine ⟨?_, forall_mem_append.mpr ⟨?_, forall_mem_singleton.mpr ⟨rfl, named, ?_⟩⟩⟩
  · intro c u isNamed
    have rows := moved.rows c u isNamed
    by_cases same : (c, u) = (channel, user)
    · cases same
      cases joined <;> simp_all
    have differs : (⟨c, u, joined⟩ : MembChange) ≠ ⟨channel, user, joined⟩ := by
      rintro ⟨⟩
      exact same rfl
    have still : next.isMember c u = after.isMember c u := by rw [turned, if_neg same]
    cases joined <;> simpa [still, differs] using rows
  · intro change old
    obtain ⟨flag, isNamed, absent⟩ := moved.listed change old
    refine ⟨flag, isNamed, ?_⟩
    cases joined with
    | true => exact absent
    | false =>
      rw [if_neg Bool.false_ne_true] at absent ⊢
      rw [turned, absent, ite_self]
  · cases joined <;> simp_all

theorem Moved.mem_iff (named : before.Named c) {which : Bool} :
    ⟨c, u, which⟩ ∈ changes ↔ before.isMember c u = !which ∧ after.isMember c u = which := by
  have rows := moved.rows c u named
  constructor
  · intro mem
    obtain ⟨rfl, -, absent⟩ := moved.listed _ mem
    cases which <;> simp_all
  · rintro ⟨was, isNow⟩
    cases joined <;> cases which <;> simp_all

omit moved

theorem lt_nextId (ids : List Nat) : ∀ id ∈ ids, id < nextId ids := by
  intro id mem
  rw [nextId, foldl_max]
  exact Nat.lt_succ_of_le (le_max_of_le_right (le_max?_getD_of_mem mem))

theorem Kept.insertChannel (kept : Kept db added) (kind : ChannelKind) (isPublic : Bool) :
    Kept (db.insertChannel kind isPublic).1 added := by
  refine { kept with channelIds := ?_, groupsNamed := ?_ }
  · apply kept.channelIds.insert
    intro row mem same
    have below := lt_nextId (db.channels.map (·.id)) row.id (mem_map_of_mem mem)
    exact absurd same (below.ne)
  · intro cg mem
    obtain ⟨row, isRow, rest⟩ := namedChannelExists_isSome.mp (kept.groupsNamed cg mem)
    exact namedChannelExists_isSome.mpr ⟨row, mem_append_left _ isRow, rest⟩

theorem Follows.insertChannel (follows : Follows db added) (kind : ChannelKind)
    (isPublic : Bool) : Follows (db.insertChannel kind isPublic).1 added :=
  ⟨follows.toKept.insertChannel kind isPublic, follows.settled⟩

theorem named_insertDm (key : DmKey) (c : Nat) : (db.insertChannel (.dm key) false).1.Named c ↔ db.Named c := by
  unfold Named
  rw [namedChannelExists_isSome, namedChannelExists_isSome]
  constructor
  · rintro ⟨row, mem, same, named⟩
    rcases mem_insert.mp mem with old | rfl
    · exact ⟨row, old, same, named⟩
    · cases named
  · rintro ⟨row, mem, rest⟩
    exact ⟨row, mem_append_left _ mem, rest⟩

theorem findDm_some {key : DmKey} (found : db.findDm key = some row) : row ∈ db.channels ∧ row.kind = .dm key := by
  have chosen := find?_some found
  exact ⟨mem_of_find?_eq_some found, of_decide_eq_true chosen⟩

theorem Kept.not_named (kept : Kept db added) {key : DmKey} (found : db.findDm key = some row) : ¬db.Named row.id := by
  intro named
  obtain ⟨other, isOther, sameId, isNamed⟩ := namedChannelExists_isSome.mp named
  obtain ⟨isRow, isDm⟩ := findDm_some found
  cases kept.channelIds.eq isOther isRow sameId
  unfold ChannelRow.isNamed at isNamed
  simp [isDm] at isNamed

/-- A notice went to the person's DM with the workspace's own sender. -/
def WorkspaceDm (db : MemberDb) (notice : Notice) : Prop :=
  (∃ row ∈ db.users, row.id = notice.sender ∧ row.isSystem = true) ∧ ∃ row ∈ db.channels, row.id = notice.channel ∧
      row.kind = .dm (pairKey notice.sender notice.person)

def noticed (notices : List Notice) : Set (Nat × Nat) :=
  {pair | ∃ notice ∈ notices, notice.channel = pair.1 ∧ (pair.2 = notice.sender ∨ pair.2 = notice.person)}

theorem workspaceSender_system (db : MemberDb) :
    ∃ row ∈ db.workspaceSender.1.users, row.id = db.workspaceSender.2 ∧ row.isSystem = true := by
  unfold workspaceSender
  cases found : ((db.users.filter (·.isSystem)).map (·.id)).min? with
  | some id =>
    obtain ⟨row, mem, same⟩ := mem_map.mp (min?_mem found)
    obtain ⟨isRow, system⟩ := mem_filter.mp mem
    exact ⟨row, isRow, same, system⟩
  | none => exact ⟨_, mem_concat_self, rfl, rfl⟩

theorem workspaceSender_tables (db : MemberDb) :
    db.workspaceSender.1 = { db with users := db.workspaceSender.1.users } := by
  unfold workspaceSender
  split <;> rfl

theorem Kept.workspaceSender (kept : Kept db added) : Kept db.workspaceSender.1 added := by
  have users : ∀ row ∈ db.workspaceSender.1.users, row.id ≠ 0 := by
    unfold MemberDb.workspaceSender
    split
    · exact kept.userIds
    intro row mem
    rcases mem_insert.mp mem with old | rfl
    · exact kept.userIds row old
    · exact Nat.succ_ne_zero _
  rw [workspaceSender_tables]
  exact { kept with userIds := users }

structure Quiet (db after : MemberDb) : Prop where
  off : ∀ joined c u, after.Off joined c u → db.Off joined c u
  named : ∀ c, after.Named c ↔ db.Named c
  rows : ∀ c u, db.Named c → after.isMember c u = db.isMember c u
  attached : after.channelGroups = db.channelGroups
  earlier : ∀ notice, db.WorkspaceDm notice → after.WorkspaceDm notice

theorem Quiet.refl (db : MemberDb) : Quiet db db :=
  ⟨fun _ _ _ => id, fun _ => Iff.rfl, fun _ _ _ => rfl, rfl, fun _ => id⟩

theorem Quiet.trans (first : Quiet db after) (second : Quiet after next) : Quiet db next where
  off joined c u isOff := first.off joined c u (second.off joined c u isOff)
  named c := (second.named c).trans (first.named c)
  rows c u named := (second.rows c u ((first.named c).mpr named)).trans (first.rows c u named)
  attached := second.attached.trans first.attached
  earlier notice was := second.earlier notice (first.earlier notice was)

theorem workspaceSender_quiet (db : MemberDb) : Quiet db db.workspaceSender.1 := by
  have grown : ∀ row ∈ db.users, row ∈ db.workspaceSender.1.users := by
    intro row mem
    unfold workspaceSender
    split
    · exact mem
    · exact mem_append_left _ mem
  rw [workspaceSender_tables]
  refine ⟨fun _ _ _ => id, fun _ => Iff.rfl, fun _ _ _ => rfl, rfl, ?_⟩
  rintro notice ⟨⟨row, isRow, rest⟩, dm⟩
  exact ⟨⟨row, grown row isRow, rest⟩, dm⟩

theorem insertDm_quiet (db : MemberDb) (key : DmKey) : Quiet db (db.insertChannel (.dm key) false).1 := by
  refine ⟨fun _ _ _ => id, named_insertDm key, fun _ _ _ => rfl, rfl, ?_⟩
  rintro notice ⟨sender, row, isRow, rest⟩
  exact ⟨sender, row, mem_append_left _ isRow, rest⟩

structure Told (db : MemberDb) (added : Set (Nat × Nat)) (after : MemberDb)
    (notices : List Notice) : Prop extends Quiet db after where
  kept : Kept after (added ∪ noticed notices)
  dms : ∀ notice ∈ notices, after.WorkspaceDm notice ∧ ¬db.Named notice.channel

theorem noticed_nil : noticed [] = ∅ := by
  simp [noticed]

theorem noticed_append (a b : List Notice) : noticed (a ++ b) = noticed a ∪ noticed b := by
  ext pair
  simp only [noticed, mem_append, Set.mem_union, Set.mem_ofPred_eq, or_and_right, exists_or]

theorem noticed_singleton (notice : Notice) : noticed [notice] =
      {(notice.channel, notice.sender), (notice.channel, notice.person)} := by
  ext ⟨c, u⟩
  simp only [noticed, mem_singleton, exists_eq_left, Set.mem_ofPred_eq, Set.mem_insert_iff,
    Set.mem_singleton_iff, Prod.mk.injEq]
  rw [← and_or_left, @eq_comm _ c]

theorem isMember_addMembership (other : c ≠ channel) :
    (db.addMembership channel user).isMember c u = db.isMember c u := by
  have differs : (c, u) ≠ (channel, user) := by
    rintro ⟨⟩
    exact other rfl
  rw [isMember_eq, isMember_eq]
  unfold addMembership
  rw [(membershipSync_synced db channel user _).row, if_neg differs]

theorem addMembership_tables (db : MemberDb) (channel user : Nat) : db.addMembership channel user =
      { db with members := (db.addMembership channel user).members } :=
  (membershipSync_synced db channel user (some true)).tables

theorem off_addMembership (isOff : (db.addMembership channel user).Off joined c u) : db.Off joined c u :=
  ((membershipSync_synced db channel user (some true)).off.mp isOff).1

theorem Kept.toldIn (kept : Kept db added) {sys user : Nat} (found : db.findDm (pairKey sys user) = some row)
    (system : ∃ row ∈ db.users, row.id = sys ∧ row.isSystem = true) :
    Told db added ((db.addMembership row.id sys).addMembership row.id user) [⟨row.id, sys, user⟩] := by
  have notNamed := kept.not_named found
  have tables : (db.addMembership row.id sys).addMembership row.id user =
      { db with members := ((db.addMembership row.id sys).addMembership row.id user).members } := by
    rw [addMembership_tables, addMembership_tables db]
  refine ⟨⟨?_, ?_, ?_, ?_, ?_⟩, ?_, ?_⟩
  · intro joined c u isOff
    exact off_addMembership (off_addMembership isOff)
  · intro c
    rw [tables]
    rfl
  · intro c u named
    have other : c ≠ row.id := by
      rintro rfl
      exact notNamed named
    rw [isMember_addMembership other, isMember_addMembership other]
  · rw [tables]
  · intro notice
    rw [tables]
    exact id
  · have both := (kept.add row.id sys).add row.id user
    have pairs : added ∪ noticed [⟨row.id, sys, user⟩] = insert (row.id, user) (insert (row.id, sys) added) := by
      rw [noticed_singleton]
      ext pair
      simp only [Set.mem_union, Set.mem_insert_iff, Set.mem_singleton_iff]
      tauto
    rw [pairs]
    exact both
  · intro notice mem
    cases mem_singleton.mp mem
    refine ⟨?_, notNamed⟩
    obtain ⟨isRow, isDm⟩ := findDm_some found
    rw [tables]
    exact ⟨system, row, isRow, rfl, isDm⟩

theorem Quiet.untold (quiet : Quiet db after) (kept : Kept after added) : Told db added after [] := by
  refine ⟨quiet, ?_, by simp⟩
  rw [noticed_nil, Set.union_empty]
  exact kept

theorem Kept.told (kept : Kept db added) (user : Nat) :
    Told db added (db.workspaceDmWith user).1 (db.workspaceDmWith user).2 := by
  have keptSender := kept.workspaceSender
  have system := workspaceSender_system db
  have quiet := workspaceSender_quiet db
  unfold workspaceDmWith
  generalize db.workspaceSender = sender at keptSender system quiet ⊢
  obtain ⟨made, sys⟩ := sender
  dsimp only at keptSender system quiet ⊢
  split
  · exact quiet.untold keptSender
  -- the DM, found or new: the same but for its row in `channels`
  have opened : ∃ dm : MemberDb, dm = (if (made.findDm (pairKey sys user)).isSome then made
        else (made.insertChannel (.dm (pairKey sys user)) false).1) ∧ Kept dm added ∧
      Quiet made dm ∧ dm.users = made.users := by
    refine ⟨_, rfl, ?_⟩
    split
    · exact ⟨keptSender, .refl made, rfl⟩
    · exact ⟨keptSender.insertChannel _ _, insertDm_quiet _ _, rfl⟩
  obtain ⟨dm, isDm, keptDm, quietDm, usersDm⟩ := opened
  rw [← isDm]
  have both := quiet.trans quietDm
  cases found : dm.findDm (pairKey sys user) with
  | none => exact both.untold keptDm
  | some row =>
    rw [← usersDm] at system
    have told := keptDm.toldIn found system
    refine ⟨both.trans told.toQuiet, told.kept, ?_⟩
    intro notice mem
    obtain ⟨isDm, notNamed⟩ := told.dms notice mem
    exact ⟨isDm, fun named => notNamed ((both.named _).mpr named)⟩

/-- A group job under way since `start`: its rows are in line but for `todo`, and every row of
a named channel that came, or went, is listed. -/
structure Progress (joined : Bool) (start : MemberDb) (added : Set (Nat × Nat))
    (attached : List (Nat × Nat)) (todo : Nat → Nat → Prop) (work : GroupWork) : Prop where
  kept : Kept work.db (added ∪ noticed work.notices)
  other : ∀ c u, ¬work.db.Off (!joined) c u
  rest : ∀ c u, work.db.Off joined c u → todo c u
  moved : Moved joined start work.db work.changes
  names : ∀ c, work.db.Named c ↔ start.Named c
  groups : work.db.channelGroups = attached
  dms : ∀ notice ∈ work.notices, work.db.WorkspaceDm notice

section Progress

variable {start : MemberDb} {attached : List (Nat × Nat)} {todo todo' : Nat → Nat → Prop} {work : GroupWork}
  (progress : Progress joined start added attached todo work)

include progress

theorem Progress.mono (weaker : ∀ c u, todo c u → todo' c u) : Progress joined start added attached todo' work :=
  { progress with rest := fun c u isOff => weaker c u (progress.rest c u isOff) }

theorem Progress.sync (named : start.Named c) (person : u ≠ 0) :
    Progress joined start added attached (fun c' u' => todo c' u' ∧ (c', u') ≠ (c, u)) (work.sync c u) := by
  have synced := membershipSync_synced work.db c u none
  have kept := progress.kept.resync c u
  refine ⟨kept, ?_, ?_, ?_, ?_, ?_, ?_⟩
  · intro c' u' isOff
    exact progress.other c' u' (synced.off.mp isOff).1
  · intro c' u' isOff
    obtain ⟨was, differs⟩ := synced.off.mp isOff
    exact ⟨progress.rest c' u' was, differs⟩
  · unfold GroupWork.sync
    dsimp only
    by_cases isOff : work.db.Off joined c u
    · obtain ⟨told, was, turned⟩ := synced.row_of_off isOff
      have listed : (if (work.db.membershipSync c u none).2 = 0 then work.changes
          else noteChange work.changes c u (decide (0 < (work.db.membershipSync c u none).2))) =
          work.changes ++ [⟨c, u, joined⟩] := by
        have isPerson : (u == 0) = false := beq_eq_false_iff_ne.mpr person
        unfold noteChange
        rw [told, isPerson]
        cases joined <;> rfl
      rw [listed]
      exact progress.moved.step named was turned
    have inLine : ∀ joined, ¬work.db.Off joined c u := by
      intro which
      by_cases same : which = joined
      · rw [same]
        exact isOff
      · rw [Bool.eq_not_of_ne same]
        exact progress.other c u
    obtain ⟨told, rows⟩ := synced.row_of_not_off inLine
    rw [told]
    refine progress.moved.same ?_
    intro c' u' _
    rw [isMember_eq, isMember_eq, rows]
  · intro c'
    exact (synced.named c').trans (progress.names c')
  · unfold GroupWork.sync
    dsimp only
    rw [synced.tables]
    exact progress.groups
  · unfold GroupWork.sync
    dsimp only
    rw [synced.tables]
    exact progress.dms

omit progress

theorem syncLost_eq (notMissing : ¬work.db.Off true c u) : work.syncLost c u = work.sync c u := by
  have synced := membershipSync_synced work.db c u none
  unfold GroupWork.syncLost GroupWork.sync
  dsimp only
  by_cases left : work.db.Off false c u
  · obtain ⟨told, -, -⟩ := synced.row_of_off left
    rw [told]
    rfl
  · obtain ⟨told, -⟩ := synced.row_of_not_off (by intro which; cases which <;> assumption)
    rw [told]
    rfl

variable (progress : Progress joined start added attached todo work)

include progress

theorem Progress.notice (user : Nat) : Progress joined start added attached todo (work.noticePerson user) := by
  have told := progress.kept.told user
  refine ⟨?_, ?_, ?_, ?_, ?_, ?_, ?_⟩
  · unfold GroupWork.noticePerson
    rw [noticed_append, ← Set.union_assoc]
    exact told.kept
  · intro c u isOff
    exact progress.other c u (told.off _ c u isOff)
  · intro c u isOff
    exact progress.rest c u (told.off _ c u isOff)
  · refine progress.moved.same ?_
    intro c u named
    exact told.rows c u ((progress.names c).mpr named)
  · intro c
    exact (told.named c).trans (progress.names c)
  · exact told.attached.trans progress.groups
  · intro notice mem
    rcases mem_append.mp mem with old | isNew
    · exact told.earlier notice (progress.dms notice old)
    · exact (told.dms notice isNew).1

/-- A job that works through a list leaves open what each of its turns leaves open. -/
theorem Progress.foldl {α : Type} {turn : GroupWork → α → GroupWork} {left : α → Nat → Nat → Prop} (items : List α)
    (each : ∀ item ∈ items, ∀ {todo work}, Progress joined start added attached todo work →
      Progress joined start added attached (fun c u => todo c u ∧ left item c u) (turn work item)) :
    Progress joined start added attached (fun c u => todo c u ∧ ∀ item ∈ items, left item c u)
      (items.foldl turn work) := by
  induction items generalizing work todo with
  | nil => exact progress.mono fun c u open_ => ⟨open_, forall_mem_nil _⟩
  | cons item items ih =>
    obtain ⟨first, others⟩ := forall_mem_cons.mp each
    refine (ih (first progress) others).mono ?_
    rintro c u ⟨⟨isTodo, now⟩, later⟩
    exact ⟨isTodo, forall_mem_cons.mpr ⟨now, later⟩⟩

theorem Progress.syncAll (channels : List Nat) (named : ∀ c ∈ channels, start.Named c) (person : u ≠ 0) :
    Progress joined start added attached (fun c' u' => todo c' u' ∧ ∀ channel ∈ channels, (c', u') ≠ (channel, u))
      (channels.foldl (fun work channel => work.sync channel u) work) :=
  progress.foldl channels fun channel mem _ _ progress => progress.sync (named channel mem) person

omit progress

theorem Progress.lostBy (progress : Progress false start added attached todo work)
    (users : List Nat) (named : start.Named c) (people : ∀ u ∈ users, u ≠ 0) :
    Progress false start added attached
      (fun c' u' => todo c' u' ∧ ∀ user ∈ users, (c', u') ≠ (c, user)) (work.lostBy users c) := by
  apply progress.foldl users
  intro user mem todo work progress
  rw [syncLost_eq (progress.other c user)]
  exact progress.sync named (people user mem)

theorem Progress.lostAll (progress : Progress false start added attached todo work) (users channels : List Nat)
    (named : ∀ c ∈ channels, start.Named c) (people : ∀ u ∈ users, u ≠ 0) :
    Progress false start added attached
      (fun c' u' => todo c' u' ∧ ∀ channel ∈ channels, ∀ user ∈ users, (c', u') ≠ (channel, user))
      (channels.foldl (GroupWork.lostBy users) work) :=
  progress.foldl channels fun channel mem _ _ progress =>
    progress.lostBy users (named channel mem) people

theorem Progress.channelMembers (progress : Progress joined start added attached todo work)
    (actor : Nat) (users : List Nat) (named : start.Named c) (people : ∀ u ∈ users, u ≠ 0) :
    Progress joined start added attached (fun c' u' => todo c' u' ∧ ∀ user ∈ users, (c', u') ≠ (c, user))
      (users.foldl (GroupWork.channelMember actor c) work) := by
  apply progress.foldl users
  intro user mem todo work progress
  have synced := progress.sync named (people user mem)
  unfold GroupWork.channelMember
  dsimp only
  split
  · exact synced.notice user
  · exact synced

theorem Progress.follows (progress : Progress joined start added attached todo work)
    (none : ∀ c u, ¬todo c u) : Follows work.db (added ∪ noticed work.notices) := by
  refine ⟨progress.kept, ?_⟩
  intro which c u isOff
  by_cases same : which = joined
  · rw [same] at isOff
    exact none c u (progress.rest c u isOff)
  · rw [Bool.eq_not_of_ne same] at isOff
    exact progress.other c u isOff

/-- Who is in a channel through a group in one state is so in the other, which has `entry` more. -/
structure ViaMore (small big : MemberDb) (entry : Nat → Nat → Prop) : Prop where
  more : ∀ c u, small.memberViaGroup c u = true → big.memberViaGroup c u = true
  own : ∀ c u, big.memberViaGroup c u = true → small.memberViaGroup c u = true ∨ entry c u

variable {small big : MemberDb} {entry : Nat → Nat → Prop}

theorem viaMore_of_tables (groups : ∀ cg ∈ small.channelGroups, cg ∈ big.channelGroups)
    (people : ∀ gm ∈ small.groupMembers, gm ∈ big.groupMembers)
    (own : ∀ c g u, (c, g) ∈ big.channelGroups → (g, u) ∈ big.groupMembers →
      (c, g) ∈ small.channelGroups ∧ (g, u) ∈ small.groupMembers ∨ entry c u) :
    ViaMore small big entry := by
  refine ⟨?_, ?_⟩
  · intro c u via
    obtain ⟨g, isAttached, inGroup⟩ := memberViaGroup_iff.mp via
    exact memberViaGroup_iff.mpr ⟨g, groups _ isAttached, people _ inGroup⟩
  · intro c u via
    obtain ⟨g, isAttached, inGroup⟩ := memberViaGroup_iff.mp via
    rw [memberViaGroup_iff]
    exact (own c g u isAttached inGroup).imp_left fun both => ⟨g, both⟩

/-- A change of the group tables towards more (`joined`) or fewer memberships through groups
leaves to do only what it changed. -/
theorem Follows.edited (follows : Follows db added)
    (edit : if joined then ViaMore db after entry else ViaMore after db entry) (members : after.members = db.members) :
    (∀ c u, ¬after.Off (!joined) c u) ∧ ∀ c u, after.Off joined c u → entry c u := by
  have rows : ∀ c u, after.directOf c u = db.directOf c u := by
    intro c u
    unfold directOf
    rw [members]
  -- the rows are the ones they were, and were in line with the tables before
  have turned (which : Bool) (c u : Nat) (isOff : after.Off which c u) : db.memberViaGroup c u = !which := by
    apply Bool.eq_not_of_ne
    intro same
    exact follows.settled which c u ⟨same, (rows c u).symm.trans isOff.2⟩
  cases joined with
  | true =>
    refine ⟨?_, ?_⟩
    · intro c u isOff
      have still := edit.more c u (turned false c u isOff)
      rw [isOff.1] at still
      cases still
    · intro c u isOff
      refine (edit.own c u isOff.1).resolve_left ?_
      rw [turned true c u isOff]
      exact Bool.false_ne_true
  | false =>
    refine ⟨?_, ?_⟩
    · intro c u isOff
      have was := edit.more c u isOff.1
      rw [turned true c u isOff] at was
      cases was
    · intro c u isOff
      refine (edit.own c u (turned false c u isOff)).resolve_left ?_
      rw [isOff.1]
      exact Bool.false_ne_true

theorem Progress.regroup {groups : List GroupRow} {people channels : List (Nat × Nat)}
    (progress : Progress joined start added attached (fun _ _ => False) work)
    (edit : let after : MemberDb := { work.db with groups, groupMembers := people, channelGroups := channels }
      if joined then ViaMore work.db after entry else ViaMore after work.db entry)
    (named : ∀ cg ∈ channels, work.db.Named cg.1) (persons : ∀ gm ∈ people, gm.2 ≠ 0) :
    Progress joined start added channels entry { work with
      db := { work.db with groups, groupMembers := people, channelGroups := channels } } := by
  have kept := progress.kept
  obtain ⟨others, offs⟩ := (progress.follows fun _ _ => id).edited edit rfl
  exact ⟨{ kept with groupsNamed := named, groupPeople := persons }, others, offs,
    progress.moved.same fun _ _ _ => rfl, progress.names, rfl, progress.dms⟩

theorem Follows.begin (follows : Follows db added) (joined : Bool) :
    Progress joined db added db.channelGroups (fun _ _ => False) ⟨db, [], []⟩ := by
  refine ⟨?_, follows.settled _, follows.settled _, Moved.refl fun _ _ => rfl, fun _ => Iff.rfl, rfl,
    by simp⟩
  rw [noticed_nil, Set.union_empty]
  exact follows.toKept

end Progress

structure GroupDone (db : MemberDb) (added : Set (Nat × Nat)) (done : MemberDb × Reply) : Prop where
  follows : Follows done.1 (added ∪ noticed done.2.notices)
  moved : ∃ joined, Moved joined db done.1 done.2.changes
  names : ∀ c, done.1.Named c ↔ db.Named c
  dms : ∀ notice ∈ done.2.notices, done.1.WorkspaceDm notice

theorem Follows.idle (follows : Follows db added) (answer : Except MemberError Nat) :
    GroupDone db added (db, ⟨answer, [], [], []⟩) := by
  refine ⟨?_, ⟨true, Moved.refl fun _ _ => rfl⟩, fun _ => Iff.rfl, by simp⟩
  rw [noticed_nil, Set.union_empty]
  exact follows

variable {attached : List (Nat × Nat)}

theorem Progress.done {start : MemberDb} {todo : Nat → Nat → Prop}
    {work : GroupWork} (progress : Progress joined start added attached todo work)
    (none : ∀ c u, ¬todo c u) (id : Nat) : GroupDone start added (work.reply id) :=
  ⟨progress.follows none, ⟨joined, progress.moved⟩, progress.names, progress.dms⟩

theorem mem_channelsOfGroup {group : Nat} : c ∈ db.channelsOfGroup group ↔ (c, group) ∈ db.channelGroups := by
  simp [channelsOfGroup]

theorem mem_usersOfGroup {group : Nat} : u ∈ db.usersOfGroup group ↔ (group, u) ∈ db.groupMembers := by
  simp [usersOfGroup]

theorem Follows.deleteGroup (follows : Follows db added) (actor group : Nat) :
    GroupDone db added (db.deleteGroup actor group) := by
  unfold MemberDb.deleteGroup
  split
  · exact follows.idle _
  split
  · exact follows.idle _
  have edit : ViaMore { db with
      channelGroups := delete (·.2 == group) db.channelGroups
      groupMembers := delete (·.1 == group) db.groupMembers
      groups := delete (·.id == group) db.groups } db
      (fun c u => c ∈ db.channelsOfGroup group ∧ u ∈ db.usersOfGroup group) := by
    refine viaMore_of_tables (fun cg mem => (mem_delete.mp mem).1) (fun gm mem => (mem_delete.mp mem).1) ?_
    intro c g u isAttached inGroup
    by_cases same : g = group
    · subst same
      exact .inr ⟨mem_channelsOfGroup.mpr isAttached, mem_usersOfGroup.mpr inGroup⟩
    · have other : (g == group) = false := beq_eq_false_iff_ne.mpr same
      exact .inl ⟨mem_delete.mpr ⟨isAttached, other⟩, mem_delete.mpr ⟨inGroup, other⟩⟩
  have begun := (follows.begin false).regroup edit (fun cg mem => follows.groupsNamed cg (mem_delete.mp mem).1)
    (fun gm mem => follows.groupPeople gm (mem_delete.mp mem).1)
  have ended := begun.lostAll (db.usersOfGroup group) (db.channelsOfGroup group)
    (fun c mem => follows.groupsNamed _ (mem_channelsOfGroup.mp mem))
    (fun u mem => follows.groupPeople _ (mem_usersOfGroup.mp mem))
  exact ended.done (fun c u open_ => open_.2 c open_.1.1 u open_.1.2 rfl) group

theorem userRole_ne_zero (kept : Kept db added) (known : (db.userRole u).isNone = false) : u ≠ 0 := by
  unfold userRole at known
  cases found : db.users.find? (fun row => row.id == u && !row.isSystem) with
  | none =>
    simp [found] at known
  | some row =>
    have chosen := find?_some found
    rw [Bool.and_eq_true, beq_iff_eq] at chosen
    rw [← chosen.1]
    exact kept.userIds row (mem_of_find?_eq_some found)

theorem Kept.editGroupMembers (kept : Kept db added) (add : Bool) (group user : Nat) :
    (db.editGroupMembers add group user).1 = db ∧ (db.editGroupMembers add group user).2 = false ∨
      user ≠ 0 ∧ ∃ table, (db.editGroupMembers add group user).1 = { db with groupMembers := table } ∧
        (db.editGroupMembers add group user).2 = true ∧
        if add then Rows.Grown (group, user) db.groupMembers table
        else Rows.Grown (group, user) table db.groupMembers := by
  unfold MemberDb.editGroupMembers
  cases add with
  | true =>
    rw [if_pos rfl]
    split
    · exact .inl ⟨rfl, rfl⟩
    next known =>
    rw [Bool.or_eq_true, not_or, Bool.not_eq_true, Bool.not_eq_true] at known
    split
    · exact .inl ⟨rfl, rfl⟩
    · exact .inr ⟨userRole_ne_zero kept known.2, _, rfl, rfl, grown_insert _ _⟩
  | false =>
    simp only [Bool.false_eq_true, if_false]
    by_cases there : (group, user) ∈ db.groupMembers
    · exact .inr ⟨kept.groupPeople _ there, _, rfl, contains_iff_mem.mpr there, grown_delete there⟩
    refine .inl ⟨?_, ?_⟩
    · rw [delete_of_absent there]
    · rw [Bool.eq_false_iff, ne_eq, contains_iff_mem]
      exact there

theorem forall_mem_of_grown {add : Bool} {entry : Nat × Nat} {old new : List (Nat × Nat)} {P : Nat × Nat → Prop}
    (grown : if add then Rows.Grown entry old new else Rows.Grown entry new old) (all : ∀ e ∈ old, P e)
    (own : P entry) : ∀ e ∈ new, P e := by
  intro e mem
  cases add with
  | false => exact all e ((grown e).mpr (.inl mem))
  | true =>
    cases (grown e).mp mem with
    | inl was => exact all e was
    | inr isNew => exact isNew ▸ own

theorem Progress.groupMember {start : MemberDb} {work : GroupWork} {add : Bool}
    (progress : Progress add start added attached (fun _ _ => False) work) (actor group user : Nat)
    (channels : List Nat) (isChannels : ∀ c, c ∈ channels ↔ (c, group) ∈ attached) :
    Progress add start added attached (fun _ _ => False) (work.groupMember add actor group channels user) := by
  unfold GroupWork.groupMember
  dsimp only
  rcases progress.kept.editGroupMembers add group user with
    ⟨sameDb, unchanged⟩ | ⟨person, table, sameRest, changed, entries⟩
  · rw [unchanged, sameDb]
    exact progress
  rw [sameRest, changed]
  have edit {small big : List (Nat × Nat)} (grown : Rows.Grown (group, user) small big) :
      ViaMore { work.db with groupMembers := small } { work.db with groupMembers := big }
        (fun c u => c ∈ channels ∧ u = user) := by
    refine viaMore_of_tables (fun _ => id) (fun gm mem => (grown gm).mpr (.inl mem)) ?_
    intro c g u isAttached inGroup
    cases (grown _).mp inGroup with
    | inl old => exact .inl ⟨isAttached, old⟩
    | inr isNew =>
      cases isNew
      rw [isChannels, ← progress.groups]
      exact .inr ⟨isAttached, rfl⟩
  have begun : Progress add start added work.db.channelGroups (fun c u => c ∈ channels ∧ u = user)
      { work with db := { work.db with groupMembers := table } } := by
    apply progress.regroup
    · cases add with
      | true => exact edit entries
      | false => exact edit entries
    · exact progress.kept.groupsNamed
    · exact forall_mem_of_grown entries progress.kept.groupPeople person
  rw [progress.groups] at begun
  have told : Progress add start added attached (fun c u => c ∈ channels ∧ u = user)
      (if add && user != actor then GroupWork.noticePerson
          { work with db := { work.db with groupMembers := table } } user
        else { work with db := { work.db with groupMembers := table } }) := by
    split
    · exact begun.notice user
    · exact begun
  refine (told.syncAll channels ?_ person).mono ?_
  · intro c mem
    have isAttached := (isChannels c).mp mem
    rw [← progress.groups] at isAttached
    exact (progress.names c).mp (progress.kept.groupsNamed _ isAttached)
  · rintro c u ⟨⟨mem, rfl⟩, open_⟩
    exact open_ c mem rfl

theorem Follows.groupMembers (follows : Follows db added) (add : Bool) (actor group : Nat)
    (users : List Nat) : GroupDone db added (db.processGroupMembers add actor group users) := by
  unfold processGroupMembers
  split
  · exact follows.idle _
  split
  · exact follows.idle _
  split
  · exact follows.idle _
  have ended : ∀ (users : List Nat) (work : GroupWork), Progress add db added db.channelGroups (fun _ _ => False) work →
      Progress add db added db.channelGroups (fun _ _ => False)
        (users.foldl (GroupWork.groupMember add actor group (db.channelsOfGroup group)) work) := by
    intro users
    induction users with
    | nil => exact fun _ progress => progress
    | cons user users ih =>
      intro work progress
      exact ih _ (progress.groupMember actor group user _ fun c => mem_channelsOfGroup)
  exact (ended users _ (follows.begin add)).done (fun _ _ => id) group

theorem editChannelGroups_cases (db : MemberDb) (add : Bool) (channel group : Nat) :
    (db.editChannelGroups add channel group).1 = db ∧ (db.editChannelGroups add channel group).2 = false ∨
      ∃ table, (db.editChannelGroups add channel group).1 = { db with channelGroups := table } ∧
        (db.editChannelGroups add channel group).2 = true ∧
        if add then Rows.Grown (channel, group) db.channelGroups table
        else Rows.Grown (channel, group) table db.channelGroups := by
  unfold editChannelGroups
  by_cases there : (channel, group) ∈ db.channelGroups
  · rw [contains_iff_mem.mpr there]
    cases add with
    | true => exact .inl ⟨rfl, rfl⟩
    | false => exact .inr ⟨_, rfl, rfl, grown_delete there⟩
  have absent : db.channelGroups.contains (channel, group) = false := by
    rw [Bool.eq_false_iff, ne_eq, contains_iff_mem]
    exact there
  rw [absent]
  cases add with
  | true => exact .inr ⟨_, rfl, rfl, grown_insert _ _⟩
  | false =>
    simp only [Bool.false_eq_true, if_false]
    rw [delete_of_absent there]
    exact .inl ⟨rfl, trivial⟩

theorem Follows.channelGroup (follows : Follows db added) (add : Bool) (actor channel group : Nat) :
    GroupDone db added (db.processChannelGroup add actor channel group) := by
  unfold processChannelGroup
  split
  · exact follows.idle _
  next known =>
  split
  · exact follows.idle _
  split
  · exact follows.idle _
  dsimp only
  split
  · exact follows.idle _
  have named : db.Named channel := by
    rwa [Option.isNone_iff_eq_none, ← ne_eq, Option.ne_none_iff_isSome] at known
  rcases db.editChannelGroups_cases add channel group with
    ⟨sameDb, unchanged⟩ | ⟨table, sameRest, changed, entries⟩
  · rw [unchanged, sameDb]
    exact (follows.begin add).done (fun _ _ => id) channel
  rw [sameRest, changed]
  have edit {small big : List (Nat × Nat)} (grown : Rows.Grown (channel, group) small big) :
      ViaMore { db with channelGroups := small } { db with channelGroups := big }
        (fun c u => c = channel ∧ u ∈ db.usersOfGroup group) := by
    refine viaMore_of_tables (fun cg mem => (grown cg).mpr (.inl mem)) (fun _ => id) ?_
    intro c g u isAttached inGroup
    cases (grown _).mp isAttached with
    | inl old => exact .inl ⟨old, inGroup⟩
    | inr isNew =>
      cases isNew
      exact .inr ⟨rfl, mem_usersOfGroup.mpr inGroup⟩
  have begun : Progress add db added table (fun c u => c = channel ∧ u ∈ db.usersOfGroup group)
      ⟨{ db with channelGroups := table }, [], []⟩ := by
    apply (follows.begin add).regroup
    · cases add with
      | true => exact edit entries
      | false => exact edit entries
    · exact forall_mem_of_grown entries follows.groupsNamed named
    · exact follows.groupPeople
  have ended := begun.channelMembers actor (db.usersOfGroup group) named
    fun u mem => follows.groupPeople _ (mem_usersOfGroup.mp mem)
  refine ended.done ?_ channel
  rintro c u ⟨⟨rfl, mem⟩, open_⟩
  exact open_ u mem rfl

theorem Kept.dropAll (kept : Kept db added) (user : Nat) (channels : List Nat) :
    Kept (channels.foldl (fun db channel => (db.membershipSync channel user (some false)).1) db)
        (added \ {pair | pair.1 ∈ channels ∧ pair.2 = user}) ∧
      ∀ joined c u, (channels.foldl (fun db channel => (db.membershipSync channel user (some false)).1) db).Off
          joined c u → db.Off joined c u ∧ ¬(c ∈ channels ∧ u = user) := by
  induction channels generalizing db added with
  | nil =>
    refine ⟨?_, fun joined c u isOff => ⟨isOff, by simp⟩⟩
    simpa using kept
  | cons channel channels ih =>
    obtain ⟨keptAll, offs⟩ := ih (kept.drop channel user)
    refine ⟨?_, ?_⟩
    · have same : (added \ {(channel, user)}) \ {pair | pair.1 ∈ channels ∧ pair.2 = user} =
          added \ {pair | pair.1 ∈ channel :: channels ∧ pair.2 = user} := by
        ext ⟨c, u⟩
        simp only [Set.mem_sdiff, Set.mem_singleton_iff, Prod.mk.injEq, Set.mem_ofPred_eq, mem_cons]
        tauto
      rw [← same]
      exact keptAll
    · intro joined c u isOff
      obtain ⟨offFirst, notLater⟩ := offs joined c u isOff
      obtain ⟨was, notFirst⟩ := (membershipSync_synced db channel user _).off.mp offFirst
      refine ⟨was, ?_⟩
      rintro ⟨mem, rfl⟩
      cases mem with
      | head => exact notFirst rfl
      | tail _ later => exact notLater ⟨later, rfl⟩

variable (follows : Follows db added)

include follows

theorem Follows.deactivateUser (user : Nat) :
    Follows (db.deactivateUser user) (added \ {pair | db.Named pair.1 ∧ pair.2 = user}) := by
  unfold MemberDb.deactivateUser
  dsimp only
  generalize isEdited : ({ db with
      users := update (·.id == user) ({ · with disabled := true }) db.users
      groupMembers := delete (·.2 == user) db.groupMembers } : MemberDb) = edited
  have edit : ViaMore edited db (fun c u => u = user ∧ db.Named c) := by
    subst isEdited
    refine viaMore_of_tables (fun _ => id) (fun gm mem => (mem_delete.mp mem).1) ?_
    intro c g u isAttached inGroup
    by_cases same : u = user
    · exact .inr ⟨same, follows.groupsNamed _ isAttached⟩
    · exact .inl ⟨isAttached, mem_delete.mpr ⟨inGroup, beq_eq_false_iff_ne.mpr same⟩⟩
  have keptEdited : Kept edited added := by
    subst isEdited
    refine { follows with groupPeople := ?_, userIds := ?_ }
    · intro gm mem
      exact follows.groupPeople gm (mem_delete.mp mem).1
    · intro row mem
      rcases mem_update.mp mem with ⟨old, isOld, -, rfl⟩ | ⟨isRow, -⟩
      · exact follows.userIds old isOld
      · exact follows.userIds row isRow
  have namedEdited : ∀ c, edited.namedChannelExists c = db.namedChannelExists c := by
    subst isEdited
    exact fun _ => rfl
  have rows : edited.members = db.members := by rw [← isEdited]
  obtain ⟨others, offs⟩ := @Follows.edited db added edited false _ follows edit rows
  generalize isChannels : (db.members.filter fun row =>
    row.user == user && (edited.namedChannelExists row.channel).isSome).map (·.channel) = channels
  have memChannels : ∀ c flag, db.Named c → edited.directOf c user = some flag → c ∈ channels := by
    intro c flag named hasRow
    unfold directOf at hasRow
    rw [rows] at hasRow
    obtain ⟨row, found, -⟩ := Option.map_eq_some_iff.mp hasRow
    have isKey : row.key = (c, user) := by simpa using find?_some found
    obtain ⟨isChannel, isUser⟩ := Prod.mk.inj isKey
    rw [← isChannels]
    refine mem_map.mpr ⟨row, mem_filter.mpr ⟨mem_of_find?_eq_some found, ?_⟩, isChannel⟩
    rw [Bool.and_eq_true, beq_iff_eq, namedEdited, isChannel]
    exact ⟨isUser, named⟩
  have channelsNamed : ∀ c ∈ channels, db.Named c := by
    intro c mem
    rw [← isChannels] at mem
    obtain ⟨row, isRow, rfl⟩ := mem_map.mp mem
    have chosen := (mem_filter.mp isRow).2
    rw [Bool.and_eq_true, namedEdited] at chosen
    exact chosen.2
  obtain ⟨keptAll, dropped⟩ := keptEdited.dropAll user channels
  have sameAdded : added \ {pair | pair.1 ∈ channels ∧ pair.2 = user} =
      added \ {pair | db.Named pair.1 ∧ pair.2 = user} := by
    ext ⟨c, u⟩
    constructor
    · rintro ⟨isAdded, notDropped⟩
      refine ⟨isAdded, ?_⟩
      rintro ⟨named, rfl⟩
      exact notDropped ⟨memChannels c true named ((keptEdited.flagged c u).mpr isAdded), rfl⟩
    · rintro ⟨isAdded, notNamed⟩
      exact ⟨isAdded, fun dropped => notNamed ⟨channelsNamed c dropped.1, dropped.2⟩⟩
  rw [← sameAdded]
  refine ⟨keptAll, ?_⟩
  intro joined c u isOff
  obtain ⟨was, notDropped⟩ := dropped joined c u isOff
  cases joined with
  | true => exact others c u was
  | false =>
    obtain ⟨rfl, named⟩ := offs c u was
    exact notDropped ⟨memChannels c false named was.2, rfl⟩

theorem Follows.addPair (channel self other : Nat) :
    Follows (db.addPair channel self other) (insert (channel, other) (insert (channel, self) added)) := by
  unfold MemberDb.addPair
  split
  · next same =>
    rw [beq_iff_eq] at same
    rw [same, Set.insert_eq_of_mem (Set.mem_insert _ _)]
    exact follows.add channel self
  · exact (follows.add channel self).add channel other

theorem Follows.addAll (channel : Nat) (users : List Nat) :
    Follows (users.foldl (fun db user => db.addMembership channel user) db)
      (added ∪ {pair | pair.1 = channel ∧ pair.2 ∈ users}) := by
  induction users generalizing db added with
  | nil => simpa using follows
  | cons user users ih =>
    have rest := ih (follows.add channel user)
    have same : insert (channel, user) added ∪ {pair | pair.1 = channel ∧ pair.2 ∈ users} =
        added ∪ {pair | pair.1 = channel ∧ pair.2 ∈ user :: users} := by
      ext ⟨c, u⟩
      simp only [Set.mem_union, Set.mem_insert_iff, Prod.mk.injEq, Set.mem_ofPred_eq, mem_cons]
      tauto
    rw [← same]
    exact rest

theorem Follows.noticeNamed (setting : Text) : Follows (db.noticeNamed setting) added := by
  unfold MemberDb.noticeNamed
  split
  · refine ⟨follows.toKept.workspaceSender, ?_⟩
    intro joined c u isOff
    rw [workspaceSender_tables] at isOff
    exact follows.settled joined c u isOff
  · exact follows

end MemberDb

/-- Those directly in a channel after a job: what its answer says it added or removed. -/
def directly (db : MemberDb) (reply : Reply) (added : Set (Nat × Nat)) : MemberJob → Set (Nat × Nat)
  | .createChannel actor _ _ =>
    match reply.answer with
    | .ok channel => insert (channel, actor) added
    | .error _ => added
  | .openDm actor target =>
    match reply.answer with
    | .ok channel => insert (channel, target) (insert (channel, actor) added)
    | .error _ => added
  | .openE2eDm actor target _ _ =>
    match reply.answer with
    | .ok 0 => added
    | .ok channel => insert (channel, target) (insert (channel, actor) added)
    | .error _ => added
  | .openGroupDm _ _ =>
    match reply.answer with
    | .ok channel => added ∪ {pair | pair.1 = channel ∧ pair.2 ∈ reply.members}
    | .error _ => added
  | .join actor channel =>
    match reply.answer with
    | .ok _ => insert (channel, actor) added
    | .error _ => added
  | .leave actor channel =>
    match reply.answer with
    | .ok _ => added \ {(channel, actor)}
    | .error _ => added
  | .invite _ channel target =>
    match reply.answer with
    | .ok _ => insert (channel, target) added
    | .error _ => added
  | .remove _ channel target =>
    match reply.answer with
    | .ok _ => added \ {(channel, target)}
    | .error _ => added
  | .post actor channel =>
    -- a post by one who is already in, were it through a group, joins nobody
    match reply.answer with
    | .ok _ => if db.isMember channel actor then added else insert (channel, actor) added
    | .error _ => added
  | .removeUser _ target =>
    match reply.answer with
    | .ok _ => added \ {pair | db.Named pair.1 ∧ pair.2 = target}
    | .error _ => added
  | .deactivateSelf actor =>
    match reply.answer with
    | .ok _ => added \ {pair | db.Named pair.1 ∧ pair.2 = actor}
    | .error _ => added
  | .createGroup .. => added
  | .deleteGroup .. => added
  | .groupMembers .. => added
  | .channelGroup .. => added

/-- The tables, and who was added directly to which channel and not since removed. -/
structure Ledger where
  db : MemberDb
  added : Set (Nat × Nat)

def Ledger.step (setting : Text) (ledger : Ledger) (job : MemberJob) : Option Ledger :=
  let done := ledger.db.process setting job
  some ⟨done.1, directly ledger.db done.2 ledger.added job ∪ MemberDb.noticed done.2.notices⟩

namespace MemberDb

variable {db : MemberDb} {added : Set (Nat × Nat)}

theorem Follows.createGroup (follows : Follows db added) (actor : Nat) (handle name description : Text) :
    GroupDone db added (db.createGroup actor handle name description) := by
  unfold MemberDb.createGroup
  split
  · exact follows.idle _
  split
  · exact follows.idle _
  split
  · exact follows.idle _
  have quiet := follows.idle (.ok 0)
  refine ⟨?_, ⟨true, .refl fun _ _ => rfl⟩, fun _ => Iff.rfl, by simp [Reply.ok]⟩
  have same := quiet.follows
  exact { same with }

theorem Follows.quiet {after : MemberDb} {reply : Reply} {job : MemberJob}
    (follows : Follows after (directly db reply added job)) (quiet : reply.notices = [] := by rfl) :
    Follows after (directly db reply added job ∪ noticed reply.notices) := by
  rw [quiet, noticed_nil, Set.union_empty]
  exact follows

theorem Follows.process (follows : Follows db added) (setting : Text) (job : MemberJob) :
    Follows (db.process setting job).1 (directly db (db.process setting job).2 added job ∪
        noticed (db.process setting job).2.notices) := by
  cases job with
  | createChannel actor name isPublic =>
    dsimp only [MemberDb.process, MemberDb.createChannel]
    split
    · exact follows.quiet
    split
    · exact follows.quiet
    refine Follows.quiet ?_
    have made := (follows.insertChannel (.channel name) isPublic).add
      (db.insertChannel (.channel name) isPublic).2 actor
    split
    · exact made.noticeNamed setting
    · exact made
  | openDm actor target =>
    dsimp only [MemberDb.process, MemberDb.openDm]
    split
    · exact follows.quiet
    split
    · exact follows.quiet
    split
    · exact (follows.addPair _ _ _).quiet
    split
    · exact follows.quiet
    · exact ((follows.insertChannel _ _).addPair _ _ _).quiet
  | openE2eDm actor target now seq =>
    dsimp only [MemberDb.process, MemberDb.openE2eDm]
    split
    · exact follows.quiet
    split
    · exact follows.quiet
    · exact (((follows.insertChannel _ _).add _ _).add _ _).quiet
  | openGroupDm actor others =>
    dsimp only [MemberDb.process, MemberDb.openGroupDm]
    split
    · exact follows.quiet
    split
    · exact follows.quiet
    split
    · exact (follows.addAll _ _).quiet
    · exact ((follows.insertChannel _ _).addAll _ _).quiet
  | join actor channel =>
    dsimp only [MemberDb.process, MemberDb.joinChannel]
    split
    · exact follows.quiet
    split
    · exact follows.quiet
    · exact (follows.add _ _).quiet
  | leave actor channel =>
    dsimp only [MemberDb.process, MemberDb.leaveChannel]
    split
    · exact follows.quiet
    split
    · exact follows.quiet
    · exact (follows.drop _ _).quiet
  | invite actor channel target =>
    dsimp only [MemberDb.process, MemberDb.inviteChannel]
    split
    · exact follows.quiet
    split
    · exact follows.quiet
    split
    · exact follows.quiet
    split
    · have invited := follows.add channel target
      have told := invited.toKept.told target
      refine ⟨told.kept, ?_⟩
      intro joined c u isOff
      exact invited.settled joined c u (told.off joined c u isOff)
    · exact (follows.add _ _).quiet
  | remove actor channel target =>
    dsimp only [MemberDb.process, MemberDb.removeChannel]
    split
    · exact follows.quiet
    split
    · exact follows.quiet
    split
    · exact follows.quiet
    · exact (follows.drop _ _).quiet
  | post actor channel =>
    dsimp only [MemberDb.process, MemberDb.postAccess]
    split
    · exact follows.quiet
    split
    · exact follows.quiet
    split
    · next isIn =>
      refine Follows.quiet ?_
      dsimp only [directly, Reply.ok]
      rw [if_pos isIn]
      exact follows
    next notIn =>
    split
    · refine Follows.quiet ?_
      dsimp only [directly, Reply.ok]
      rw [if_neg notIn]
      exact follows.add _ _
    · exact follows.quiet
  | createGroup actor handle name description =>
    exact (follows.createGroup actor handle name description).follows
  | deleteGroup actor group => exact (follows.deleteGroup actor group).follows
  | groupMembers add actor group users => exact (follows.groupMembers add actor group users).follows
  | channelGroup add actor channel group =>
    exact (follows.channelGroup add actor channel group).follows
  | removeUser actor target =>
    dsimp only [MemberDb.process, MemberDb.removeUser]
    split
    · split
      · exact follows.quiet
      split
      · exact follows.quiet
      split
      · exact follows.quiet
      · exact (follows.deactivateUser target).quiet
    · exact follows.quiet
  | deactivateSelf actor =>
    dsimp only [MemberDb.process, MemberDb.deactivateSelf]
    split
    · exact follows.quiet
    split
    · exact follows.quiet
    split
    · exact follows.quiet
    · exact (follows.deactivateUser actor).quiet

theorem Follows.isMember_iff (follows : Follows db added) (c u : Nat) :
    db.isMember c u = true ↔ (c, u) ∈ added ∨ db.memberViaGroup c u = true := by
  rw [isMember_eq, ← follows.flagged]
  have notMissing := follows.settled true c u
  have notLeft := follows.settled false c u
  unfold Off at notMissing notLeft
  revert notMissing notLeft
  rcases db.directOf c u with _ | _ | _ <;> cases db.memberViaGroup c u <;> simp

theorem Follows.direct_iff (follows : Follows db added) : ∀ row ∈ db.members, row.direct = true ↔ row.key ∈ added := by
  intro row mem
  have found := follows.unique.find? mem
  have flagged := follows.flagged row.channel row.user
  have flag : db.directOf row.channel row.user = some row.direct := by
    exact congrArg (Option.map (·.direct)) found
  rwa [flag, Option.some_inj] at flagged

/-- What the answer of a group job says of the rows that came and went: a named channel's are
listed, and besides them only the DMs in which people were told of it may have gained some. -/
structure Reported (before : MemberDb) (done : MemberDb × Reply) : Prop where
  gained : ∀ c u, ⟨c, u, true⟩ ∈ done.2.changes ↔
    before.Named c ∧ before.isMember c u = false ∧ done.1.isMember c u = true
  lost : ∀ c u, ⟨c, u, false⟩ ∈ done.2.changes ↔ before.isMember c u = true ∧ done.1.isMember c u = false
  others : ∀ c u, ¬before.Named c →
    (done.1.isMember c u = true ↔ before.isMember c u = true ∨ (c, u) ∈ noticed done.2.notices)
  dms : ∀ notice ∈ done.2.notices, done.1.WorkspaceDm notice

theorem Kept.via_named (kept : Kept db added) {c u : Nat} (notNamed : ¬db.Named c) : db.memberViaGroup c u = false := by
  rw [Bool.eq_false_iff]
  intro via
  obtain ⟨g, attached, -⟩ := memberViaGroup_iff.mp via
  exact notNamed (kept.groupsNamed _ attached)

theorem GroupDone.reported {done : MemberDb × Reply} (groupDone : GroupDone db added done)
    (follows : Follows db added) : Reported db done := by
  have others : ∀ c u, ¬db.Named c → (done.1.isMember c u = true ↔
        db.isMember c u = true ∨ (c, u) ∈ noticed done.2.notices) := by
    intro c u notNamed
    have notNamedAfter : ¬done.1.Named c := fun named => notNamed ((groupDone.names c).mp named)
    rw [groupDone.follows.isMember_iff, follows.isMember_iff, follows.via_named notNamed,
      groupDone.follows.via_named notNamedAfter, Set.mem_union]
    simp
  obtain ⟨joined, moved⟩ := groupDone.moved
  refine ⟨?_, ?_, others, groupDone.dms⟩
  · intro c u
    constructor
    · intro mem
      have named := (moved.listed _ mem).2.1
      exact ⟨named, (moved.mem_iff named).mp mem⟩
    · rintro ⟨named, both⟩
      exact (moved.mem_iff named).mpr both
  · intro c u
    constructor
    · intro mem
      exact (moved.mem_iff (moved.listed _ mem).2.1).mp mem
    · rintro ⟨was, isNotNow⟩
      by_cases named : db.Named c
      · exact (moved.mem_iff named).mpr ⟨was, isNotNow⟩
      · have still := (others c u named).mpr (.inl was)
        simp [isNotNow] at still

def fresh (users : List UserRow) : MemberDb := ⟨users, [], [], [], [], []⟩

theorem fresh_follows {users : List UserRow} (ids : ∀ row ∈ users, row.id ≠ 0) : Follows (fresh users) ∅ := by
  refine ⟨⟨?_, nodup_nil, nodup_nil, by simp [fresh], by simp [fresh], ids⟩, ?_⟩
  · intro c u
    simp [fresh, directOf]
  · rintro joined c u ⟨via, row⟩
    subst via
    cases row

end MemberDb

def MemberJob.OfGroups : MemberJob → Prop
  | .createGroup .. => True
  | .deleteGroup .. => True
  | .groupMembers .. => True
  | .channelGroup .. => True
  | _ => False

namespace Ledger

variable {setting : Text} {start ledger : Ledger} {jobs : List MemberJob}

theorem follows_of_run (begun : start.db.Follows start.added)
    (run : Machine.Run (step setting) (fun _ _ => True) start jobs ledger) : ledger.db.Follows ledger.added := by
  refine run.invariant (fun _ ledger => ledger.db.Follows ledger.added) begun ?_
  intro _ job ledger after follows _ taken
  cases taken
  exact follows.process setting job

/-- After every run of jobs the rows of `channel_members` follow the rule, and a group job
answers with exactly the rows of named channels that it gave or took. -/
theorem channel_membership_follows_its_rule (begun : start.db.Follows start.added)
    (run : Machine.Run (step setting) (fun _ _ => True) start jobs ledger) :
    (∀ c u, (∃ row ∈ ledger.db.members, row.channel = c ∧ row.user = u) ↔ (c, u) ∈ ledger.added ∨
        ∃ group, (c, group) ∈ ledger.db.channelGroups ∧ (group, u) ∈ ledger.db.groupMembers) ∧
    (∀ row ∈ ledger.db.members, row.direct = true ↔ (row.channel, row.user) ∈ ledger.added) ∧
    ∀ job : MemberJob, job.OfGroups → MemberDb.Reported ledger.db (ledger.db.process setting job) := by
  have follows := follows_of_run begun run
  refine ⟨?_, follows.direct_iff, ?_⟩
  · intro c u
    rw [← MemberDb.memberViaGroup_iff, ← follows.isMember_iff]
    unfold MemberDb.isMember
    simp [MemberRow.key]
  · intro job ofGroups
    cases job with
    | createGroup actor handle name description =>
      exact (follows.createGroup actor handle name description).reported follows
    | deleteGroup actor group => exact (follows.deleteGroup actor group).reported follows
    | groupMembers add actor group users =>
      exact (follows.groupMembers add actor group users).reported follows
    | channelGroup add actor channel group =>
      exact (follows.channelGroup add actor channel group).reported follows
    | createChannel | openDm | openE2eDm | openGroupDm | join | leave | invite | remove | post
    | removeUser | deactivateSelf => exact ofGroups.elim

def twoPeople : Ledger := ⟨.fresh [⟨1, text "ada", .owner, false, false⟩, ⟨2, text "bob", .member, false, false⟩], ∅⟩

theorem twoPeople_follows : twoPeople.db.Follows twoPeople.added := MemberDb.fresh_follows (by simp)

def leaveJobs : List MemberJob :=
  [.createChannel 1 (text "plans") true, .createGroup 1 (text "crew") (text "Crew") [],
    .channelGroup true 1 1 1, .join 2 1, .groupMembers true 1 1 [2], .leave 2 1]

theorem channel_membership_follows_its_rule_left :
    ∃ ledger, Machine.Run (step []) (fun _ _ => True) twoPeople leaveJobs ledger ∧ ledger.db.directOf 1 2 = some false ∧
      ((∃ row ∈ ledger.db.members, row.channel = 1 ∧ row.user = 2) ↔ (1, 2) ∈ ledger.added ∨
          ∃ group, (1, group) ∈ ledger.db.channelGroups ∧ (group, 2) ∈ ledger.db.groupMembers) ∧
      MemberDb.Reported ledger.db (ledger.db.process [] (.groupMembers false 1 1 [2])) := by
  obtain ⟨ledger, followed⟩ : ∃ ledger, Machine.follow (step []) (fun _ _ => true) twoPeople
      leaveJobs = some ledger := ⟨_, rfl⟩
  have run : Machine.Run (step []) (fun _ _ => True) twoPeople leaveJobs ledger :=
    Machine.Run.nil.of_follow (fun _ _ _ => trivial) followed
  have rule := channel_membership_follows_its_rule twoPeople_follows run
  refine ⟨ledger, run, ?_, rule.1 1 2, rule.2.2 _ trivial⟩
  cases followed
  rfl

/-- Put in a group, the member is told so in a new DM with the workspace: two rows came, and
the answer lists none. -/
theorem group_job_row_unlisted : ∃ ledger, Machine.Run (step []) (fun _ _ => True) twoPeople
        [.createGroup 1 (text "crew") (text "Crew") []] ledger ∧
      (ledger.db.process [] (.groupMembers true 1 1 [2])).2.changes = [] ∧
      ledger.db.isMember 1 2 = false ∧
      (ledger.db.process [] (.groupMembers true 1 1 [2])).1.isMember 1 2 = true := by
  obtain ⟨ledger, followed⟩ : ∃ ledger, Machine.follow (step []) (fun _ _ => true) twoPeople
      [.createGroup 1 (text "crew") (text "Crew") []] = some ledger := ⟨_, rfl⟩
  refine ⟨ledger, Machine.Run.nil.of_follow (fun _ _ _ => trivial) followed, ?_⟩
  cases followed
  decide

end Ledger

end OpenChime.Daemon.Members
