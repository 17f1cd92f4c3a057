import Mathlib.Data.List.Induction
import OpenChime.Daemon.MembershipRule

/-! Who owns a workspace: the writer's jobs that change a person's role or whether they are disabled
(`daemon/dbwriter.c`). Removals and self-deactivations are those of the memberships. -/

set_option autoImplicit false

namespace OpenChime.Daemon.Members

open List MemberDb

/-- `oc_role_can_set_role`; `none` is a byte that names no role. -/
def canSetRole (actor cur : Role) : Option Role → Bool
  | none => false
  | some next =>
    match actor with
    | .owner => true
    | .admin => decide (next ≠ .owner ∧ cur = .member)
    | .member => false

inductive JoinVerdict where
  | deny | member | owner
  deriving DecidableEq

/-- An invitation that is found, not spent and not expired; a setup token has no creator. -/
structure Invite where
  role : Role
  setup : Bool
  deriving DecidableEq

inductive OwnerAnswer where
  | ok (user : Nat)
  | forbidden
  | lastOwner
  | userLimit
  deriving DecidableEq

namespace MemberDb

/-- `UPDATE users SET role=? WHERE id=?` -/
def updateRole (db : MemberDb) (user : Nat) (role : Role) : MemberDb :=
  { db with users := Rows.update (·.id == user) ({ · with role }) db.users }

/-- `process_set_role`; the person is told of it in their DM. -/
def setRole (db : MemberDb) (actor target : Nat) (next : Option Role) : MemberDb × OwnerAnswer :=
  match db.userRole actor, db.userRole target with
  | some actorRole, some cur =>
    if canSetRole actorRole cur next = false then (db, .forbidden)
    else
      let role := next.getD .member
      if cur = .owner ∧ role ≠ .owner ∧ db.countActiveOwners ≤ 1 then (db, .lastOwner)
      else
        let db := db.updateRole target role
        (if role ≠ cur ∧ target ≠ actor then (db.workspaceDmWith target).1 else db, .ok target)
  | _, _ => (db, .forbidden)

/-- `user_slots_full` for an account that is not there yet. -/
def userSlotsFull (db : MemberDb) (maxUsers : Int) : Bool :=
  decide (0 < maxUsers ∧ maxUsers ≤ db.users.countP fun row => !row.disabled && !row.isSystem)

def enableUser (db : MemberDb) (maxUsers : Int) (actor target : Nat) : MemberDb × OwnerAnswer :=
  match db.userRole actor, db.userRole target with
  | some actorRole, some targetRole =>
    if !actorRole.canManageMembers ∨ (targetRole ≠ .member ∧ actorRole ≠ .owner) ∨
        db.userDisabled target = false then (db, .forbidden)
    else if db.userSlotsFull maxUsers then (db, .userLimit)
    else
      ({ db with users := Rows.update (·.id == target) ({ · with disabled := false }) db.users }, .ok target)
  | _, _ => (db, .forbidden)

/-- A new row of `users`. -/
def insertUser (db : MemberDb) (name : Shared.Text) (role : Role) : MemberDb × Nat :=
  let id := nextId (db.users.map (·.id))
  ({ db with users := db.users ++ [⟨id, name, role, false, false⟩] }, id)

/-- `process_redeem_job`: an account with the invitation's role, under a name that is free. -/
def redeem (db : MemberDb) (maxUsers : Int) (invite : Option Invite) (name : Shared.Text)
    (nameFree : Bool) : MemberDb :=
  match invite with
  | none => db
  | some invite =>
    if invite.setup ∧ 0 < db.countActiveOwners then db
    else if !nameFree ∨ db.userSlotsFull maxUsers then db
    else (db.insertUser name invite.role).1

/-- The end of an OIDC sign-in, for whom the identity is found to be: someone known, or someone new
whom a rule or an invitation bound to their address lets in. -/
def signIn (db : MemberDb) (maxUsers : Int) (known : Option Nat) (verdict : JoinVerdict)
    (invited : Option Role) (name : Shared.Text) : MemberDb :=
  let invited := if known.isNone ∧ verdict = .deny then invited else none
  let verdict := if invited.isSome then .member else verdict
  if known.isNone ∧ (verdict = .deny ∨ db.userSlotsFull maxUsers) then db
  else
    let (db, uid) := match known with
      | some uid => (db, uid)
      | none => db.insertUser name .member
    let db := match invited with
      | some role => if role = .member then db else db.updateRole uid role
      | none => db
    if verdict = .owner ∧ db.userDisabled uid = false ∧ (known.isNone ∨ db.countActiveOwners = 0) then
      db.updateRole uid .owner
    else db

end MemberDb

inductive OwnerJob where
  | setRole (actor target : Nat) (next : Option Role)
  | removeUser (actor target : Nat)
  | deactivateSelf (actor : Nat)
  | enableUser (actor target : Nat)
  | redeem (invite : Option Invite) (name : Shared.Text) (nameFree : Bool)
  | signIn (known : Option Nat) (verdict : JoinVerdict) (invited : Option Role) (name : Shared.Text)

def MemberDb.ownerJob (maxUsers : Int) (db : MemberDb) : OwnerJob → MemberDb
  | .setRole actor target next => (db.setRole actor target next).1
  | .removeUser actor target => (db.removeUser actor target).1
  | .deactivateSelf actor => (db.deactivateSelf actor).1
  | .enableUser actor target => (db.enableUser maxUsers actor target).1
  | .redeem invite name nameFree => db.redeem maxUsers invite name nameFree
  | .signIn known verdict invited name => db.signIn maxUsers known verdict invited name

def UserRow.runs (row : UserRow) : Prop := row.role = .owner ∧ row.disabled = false

/-- The ids are keys, and some owner is not disabled. -/
structure Owned (users : List UserRow) : Prop where
  ids : Rows.Unique UserRow.id users
  owner : ∃ row ∈ users, row.runs

variable {db : MemberDb} {users : List UserRow} {f : UserRow → UserRow}

theorem Owned.another (owned : Owned db.users) (many : ¬db.countActiveOwners ≤ 1) (user : Nat) :
    ∃ row ∈ db.users, row.runs ∧ row.id ≠ user := by
  by_contra none
  apply many
  rw [countActiveOwners, countP_eq_length_filter]
  generalize kept : db.users.filter _ = owners
  have ids : Rows.Unique UserRow.id owners := kept ▸ owned.ids.sublist (filter_sublist.map _)
  have same : ∀ row ∈ owners, row.id = user := by
    intro row member
    rw [← kept, mem_filter] at member
    by_contra other
    exact none ⟨row, member.1, by simpa [UserRow.runs] using member.2, other⟩
  match owners, same, ids with
  | [], _, _ => exact Nat.zero_le 1
  | [_], _, _ => exact le_refl 1
  | first :: second :: rest, same, ids =>
    have apart := (nodup_cons.mp ids).1
    rw [map_cons, same first (by simp), same second (by simp)] at apart
    exact absurd mem_cons_self apart

variable {user : Nat}

theorem Owned.update (owned : Owned users) (kept : ∀ row, (f row).id = row.id)
    (still : ∃ row ∈ users, row.runs ∧ (row.id ≠ user ∨ (f row).runs)) :
    Owned (Rows.update (·.id == user) f users) := by
  refine ⟨owned.ids.update kept, ?_⟩
  obtain ⟨row, member, owner, spared⟩ := still
  by_cases same : row.id = user
  · refine ⟨f row, Rows.mem_update.mpr (Or.inl ⟨row, member, beq_iff_eq.mpr same, rfl⟩), ?_⟩
    exact spared.resolve_left (not_not.mpr same)
  · exact ⟨row, Rows.mem_update.mpr (Or.inr ⟨member, beq_eq_false_iff_ne.mpr same⟩), owner⟩

theorem Owned.raise (owned : Owned users) (user : Nat) (kept : ∀ row, (f row).id = row.id)
    (raises : ∀ row, row.runs → (f row).runs) : Owned (Rows.update (·.id == user) f users) := by
  obtain ⟨row, member, owner⟩ := owned.owner
  exact owned.update kept ⟨row, member, owner, Or.inr (raises row owner)⟩

theorem Owned.insert (owned : Owned users) {row : UserRow}
    (new : row.id = nextId (users.map (·.id))) : Owned (users ++ [row]) := by
  obtain ⟨owner, member, runs⟩ := owned.owner
  refine ⟨owned.ids.insert ?_, owner, mem_append_left _ member, runs⟩
  intro old isOld same
  have below := lt_nextId (users.map (·.id)) old.id (mem_map_of_mem isOld)
  rw [same, new] at below
  exact absurd below (lt_irrefl _)

theorem Owned.workspaceDmWith (owned : Owned db.users) (user : Nat) : Owned (db.workspaceDmWith user).1.users := by
  have added (db : MemberDb) (channel user : Nat) : (db.addMembership channel user).users = db.users := by
    rw [addMembership_tables]
  have users : (db.workspaceDmWith user).1.users = db.workspaceSender.1.users := by
    unfold MemberDb.workspaceDmWith
    split
    next sender sys made =>
    have first : db.workspaceSender.1 = sender := congrArg Prod.fst made
    rw [first]
    split
    · rfl
    dsimp only
    split
    · split <;> rfl
    · rw [added, added]
      split <;> rfl
  rw [users, workspaceSender]
  split
  · exact owned
  · exact owned.insert rfl

theorem users_deactivateUser (db : MemberDb) (user : Nat) : (db.deactivateUser user).users =
      Rows.update (·.id == user) ({ · with disabled := true }) db.users := by
  have untouched (channels : List Nat) (db : MemberDb) :
      (channels.foldl (fun db channel => (db.membershipSync channel user (some false)).1) db).users =
        db.users := by
    induction channels generalizing db with
    | nil => rfl
    | cons channel channels ih =>
      rw [foldl_cons, ih, (membershipSync_synced db channel user (some false)).tables]
  exact untouched _ _

theorem userRole_eq {role : Role} (found : db.userRole user = some role)
    (owned : Owned db.users) : ∀ row ∈ db.users, row.id = user → row.role = role := by
  intro row member same
  obtain ⟨other, isOther, role⟩ := Option.map_eq_some_iff.mp found
  have key := find?_some isOther
  rw [Bool.and_eq_true, beq_iff_eq] at key
  rw [owned.ids.eq member (mem_of_find?_eq_some isOther) (same.trans key.1.symm)]
  exact role

variable (owned : Owned db.users)

include owned

theorem Owned.lower {role : Role} (kept : ∀ row, (f row).id = row.id) (found : db.userRole user = some role)
    (guarded : ¬(role = .owner ∧ db.countActiveOwners ≤ 1)) : Owned (Rows.update (·.id == user) f db.users) := by
  apply owned.update kept
  by_cases owns : role = .owner
  · obtain ⟨row, member, runs, other⟩ := owned.another (fun few => guarded ⟨owns, few⟩) user
    exact ⟨row, member, runs, Or.inl other⟩
  obtain ⟨row, member, runs⟩ := owned.owner
  refine ⟨row, member, runs, Or.inl fun same => owns ?_⟩
  exact (userRole_eq found owned row member same).symm.trans runs.1

theorem Owned.setRole (actor target : Nat) (next : Option Role) : Owned (db.setRole actor target next).1.users := by
  unfold MemberDb.setRole
  split
  · next actorRole cur _ found =>
    split
    · exact owned
    dsimp only
    split
    · exact owned
    next guarded =>
    have changed : Owned (db.updateRole target (next.getD .member)).users := by
      by_cases promotes : next.getD .member = .owner
      · exact owned.raise target (fun _ => rfl) fun row runs => ⟨promotes, runs.2⟩
      · exact owned.lower (fun _ => rfl) found fun few => guarded ⟨few.1, promotes, few.2⟩
    split
    · exact changed.workspaceDmWith target
    · exact changed
  · exact owned

theorem Owned.removeUser (actor target : Nat) : Owned (db.removeUser actor target).1.users := by
  unfold MemberDb.removeUser
  split
  · next actorRole targetRole _ found =>
    split
    · exact owned
    split
    · exact owned
    split
    · exact owned
    next guarded =>
    rw [users_deactivateUser]
    exact owned.lower (fun _ => rfl) found guarded
  · exact owned

theorem Owned.deactivateSelf (actor : Nat) : Owned (db.deactivateSelf actor).1.users := by
  unfold MemberDb.deactivateSelf
  split
  · exact owned
  next role found =>
  split
  · exact owned
  split
  · exact owned
  next guarded =>
  rw [users_deactivateUser]
  exact owned.lower (fun _ => rfl) found guarded

theorem Owned.enableUser (maxUsers : Int) (actor target : Nat) :
    Owned (db.enableUser maxUsers actor target).1.users := by
  unfold MemberDb.enableUser
  split
  · split
    · exact owned
    split
    · exact owned
    · exact owned.raise target (fun _ => rfl) fun row runs => ⟨runs.1, rfl⟩
  · exact owned

theorem Owned.redeem (maxUsers : Int) (invite : Option Invite) (name : Shared.Text) (nameFree : Bool) :
    Owned (db.redeem maxUsers invite name nameFree).users := by
  unfold MemberDb.redeem
  split
  · exact owned
  split
  · exact owned
  split
  · exact owned
  · exact owned.insert rfl

theorem Owned.signIn (maxUsers : Int) (known : Option Nat) (verdict : JoinVerdict) (invited : Option Role)
    (name : Shared.Text) : Owned (db.signIn maxUsers known verdict invited name).users := by
  have either {c : Prop} [Decidable c] {a b : MemberDb} (first : Owned a.users)
      (second : Owned b.users) : Owned (if c then a else b).users := by
    split
    · exact first
    · exact second
  have owner {c : Prop} [Decidable c] {db : MemberDb} (uid : Nat) (owned : Owned db.users) :
      Owned (if c then db.updateRole uid .owner else db).users :=
    either (owned.raise uid (fun _ => rfl) fun row runs => ⟨rfl, runs.2⟩) owned
  cases known with
  | some uid =>
    exact owner uid owned
  | none =>
    have made : Owned (db.insertUser name .member).1.users := owned.insert rfl
    have given (role : Role) :
        Owned ((db.insertUser name .member).1.updateRole (db.insertUser name .member).2 role).users := by
      obtain ⟨row, member, runs⟩ := owned.owner
      refine made.update (fun _ => rfl) ⟨row, mem_append_left _ member, runs, Or.inl ?_⟩
      exact (lt_nextId _ row.id (mem_map_of_mem member)).ne
    unfold MemberDb.signIn
    generalize (if Option.isNone none ∧ verdict = .deny then invited else none) = bound
    refine either owned ?_
    cases bound with
    | none => exact owner _ made
    | some role => exact owner _ (either made (given role))

omit owned

/-- Once some owner is not disabled, some owner is not disabled after every later job. -/
theorem owner_remains (maxUsers : Int) (jobs : List OwnerJob) {db : MemberDb} (ids : Rows.Unique UserRow.id db.users)
    (owner : ∃ row ∈ db.users, row.role = .owner ∧ row.disabled = false) :
    ∃ row ∈ (jobs.foldl (ownerJob maxUsers) db).users, row.role = .owner ∧ row.disabled = false := by
  have owned : Owned (jobs.foldl (ownerJob maxUsers) db).users := by
    induction jobs using List.reverseRecOn with
    | nil => exact ⟨ids, owner⟩
    | append_singleton jobs job ih =>
      rw [foldl_append, foldl_cons]
      cases job with
      | setRole actor target next => exact ih.setRole actor target next
      | removeUser actor target => exact ih.removeUser actor target
      | deactivateSelf actor => exact ih.deactivateSelf actor
      | enableUser actor target => exact ih.enableUser maxUsers actor target
      | redeem invite name nameFree => exact ih.redeem maxUsers invite name nameFree
      | signIn known verdict invited name => exact ih.signIn maxUsers known verdict invited name
  exact owned.owner

/-- Two owners: one demotes the other, who had removed themself, and then wants to leave. -/
theorem owner_remains_two : ∃ row ∈ ([.deactivateSelf 2, .setRole 1 2 (some .member), .deactivateSelf 1].foldl
        (ownerJob 0) ⟨[⟨1, [], .owner, false, false⟩, ⟨2, [], .owner, false, false⟩], [], [], [], [], []⟩).users,
      row.role = .owner ∧ row.disabled = false :=
  owner_remains 0 _ (by unfold Rows.Unique; decide) ⟨_, mem_cons_self, rfl, rfl⟩

end OpenChime.Daemon.Members
