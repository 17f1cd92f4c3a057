import OpenChime.Daemon.CallEvents

/-! A key id of a call, its slot and epoch, names one sender only: every change of who has a
slot is told in an epoch nothing was told in before. -/

set_option autoImplicit false

namespace OpenChime.Daemon

open Shared List CallLoop

variable {Key Token : Type} {may : Leeway} {d after : CallLoop Key Token} {c new : Call Key Token}

/-- Two rosters of one epoch of a call give a slot to one user with one device key. -/
def Agree (a b : CallRoster Key) : Prop :=
  a.call = b.call → a.epoch = b.epoch → ∀ p ∈ a.parts, ∀ q ∈ b.parts, p.slot = q.slot →
    p.user = q.user ∧ p.deviceKey = q.deviceKey

theorem Agree.symm {a b : CallRoster Key} (agree : Agree a b) : Agree b a := by
  intro sameCall sameEpoch p isP q isQ sameSlot
  obtain ⟨user, key⟩ := agree sameCall.symm sameEpoch.symm q isQ p isP sameSlot.symm
  exact ⟨user.symm, key.symm⟩

theorem CallOk.agree (ok : CallOk c) : Agree c.roster c.roster := by
  intro _ _ p isP q isQ sameSlot
  obtain ⟨seat, isSeat, rfl⟩ := mem_map.mp isP
  obtain ⟨other, isOther, rfl⟩ := mem_map.mp isQ
  by_cases same : seat = other
  · rw [same]
    exact ⟨rfl, rfl⟩
  · exact absurd sameSlot (ok.seats.forall isSeat isOther same).1

/-- What was told is of an epoch that has been, of a call that has been. -/
structure CallLoop.Past (d : CallLoop Key Token) (told : CallRoster Key) : Prop where
  begun : told.call < d.nextCallId
  epoch : ∀ c ∈ d.calls.entries, c.callId = told.call → told.epoch ≤ c.epoch

structure CallLoop.Named (d : CallLoop Key Token) : Prop where
  past : ∀ told ∈ d.rosters, d.Past told.2
  agree : ∀ a ∈ d.rosters, ∀ b ∈ d.rosters, Agree a.2 b.2

theorem rosters_of_news (same : after.news = d.news) : after.rosters = d.rosters := by
  unfold rosters
  rw [same]

/-- A new epoch's roster is all that is told of it, and everyone there is told. -/
theorem Retold.rosters {welcome : Option (Nat × CallJoined Key Token)} {conns : List Nat}
    (retold : Retold may d after c new welcome conns) :
    ∃ told : List Nat, after.rosters = d.rosters ++ told.map (·, new.roster) ∧
      (∀ seat ∈ new.parts, after.Live seat.conn → seat.conn ∈ told) ∧ conns ⊆ told := by
  refine ⟨welcome.toList.map (·.1) ++ conns, ?_, ?_, fun conn mem => mem_append_right _ mem⟩
  · unfold CallLoop.rosters
    rw [retold.told, filterMap_append, filterMap_append, map_append, append_assoc]
    congr 1
    congr 1
    · cases welcome with
      | none => rfl
      | some it =>
        have same := (retold.welcomes it rfl).roster
        change [(it.1, it.2.roster)] = [(it.1, new.roster)]
        rw [same]
    · rw [filterMap_map]
      exact congrFun filterMap_eq_map _
  · intro seat mem live
    rcases retold.everyone seat mem live with isTold | ⟨it, isWelcome, same⟩
    · exact mem_append_right _ isTold
    refine mem_append_left _ (mem_map.mpr ⟨it, ?_, same⟩)
    rw [Option.mem_def.mp isWelcome]
    exact mem_singleton_self _

theorem CallLoop.Past.replaced {told : CallRoster Key} (past : d.Past told) (replaced : Replaced d after c new)
    (epoch : c.epoch ≤ new.epoch) (callIds : after.nextCallId = d.nextCallId) : after.Past told where
  begun := callIds ▸ past.begun
  epoch other mem same := by
    rcases replaced.before mem with rfl | old
    · exact (past.epoch c replaced.mem.1 (replaced.2.1.symm.trans same)).trans epoch
    · exact past.epoch other old same

theorem CallLoop.Named.of_past (named : d.Named) (told : after.rosters = d.rosters)
    (past : ∀ told, d.Past told → after.Past told) : after.Named where
  past record mem := past _ (named.past record (told ▸ mem))
  agree a isA b isB := named.agree a (told ▸ isA) b (told ▸ isB)

theorem CallLoop.Named.retold (named : d.Named) (ok : after.Ok) (replaced : Replaced d after c new)
    (epoch : new.epoch = c.epoch + 1) (callIds : after.nextCallId = d.nextCallId) {conns : List Nat}
    (told : after.rosters = d.rosters ++ conns.map (·, new.roster)) : after.Named := by
  have isNew := replaced.mem.2
  have each : ∀ record ∈ after.rosters, record ∈ d.rosters ∨ record.2 = new.roster := by
    intro record mem
    rw [told] at mem
    rcases mem_append.mp mem with old | sent
    · exact .inl old
    · obtain ⟨conn, -, rfl⟩ := mem_map.mp sent
      exact .inr rfl
  have apart : ∀ record ∈ d.rosters, Agree record.2 new.roster := by
    intro record mem sameCall sameEpoch
    have before := (named.past record mem).epoch c replaced.mem.1 (replaced.2.1.symm.trans sameCall.symm)
    have now : record.2.epoch = c.epoch + 1 := sameEpoch.trans epoch
    omega
  constructor
  · intro record mem
    rcases each record mem with old | sent
    · exact (named.past record old).replaced replaced (by omega) callIds
    rw [sent]
    refine ⟨ok.callIds new isNew, fun other isOther same => ?_⟩
    by_cases own : other = new
    · rw [own]
      exact le_rfl
    · exact absurd same (ok.apart.forall isOther isNew own).2.1
  · intro a isA b isB
    rcases each a isA with oldA | sentA
    · rcases each b isB with oldB | sentB
      · exact named.agree a oldA b oldB
      · rw [sentB]
        exact apart a oldA
    rcases each b isB with oldB | sentB
    · rw [sentA]
      exact (apart b oldB).symm
    · rw [sentA, sentB]
      exact (ok.calls new isNew).agree

theorem Effect.rosters_keyed {conn : Nat} {key : CallKeyFor}
    (told : after.news = d.news ∨ after.news = d.news ++ [(conn, .keyFor key)]) : after.rosters = d.rosters := by
  rcases told with same | more
  · exact rosters_of_news same
  unfold rosters
  rw [more, filterMap_append]
  exact append_nil _

theorem CallLoop.Named.of_calls (named : d.Named) (calls : after.calls.entries = d.calls.entries)
    (callIds : after.nextCallId = d.nextCallId) (told : after.rosters = d.rosters) : after.Named := by
  refine named.of_past told fun record past => ⟨callIds ▸ past.begun, ?_⟩
  rw [calls]
  exact past.epoch

theorem Effect.named (effect : Effect may d after) (ok : d.Ok) (named : d.Named) : after.Named := by
  have afterOk := effect.ok ok
  cases effect with
  | quiet calls callIds told => exact named.of_calls calls callIds (rosters_of_news told)
  | keyed isCall isSeat sender isConn isOther calls callIds told =>
    exact named.of_calls calls callIds (rosters_keyed told)
  | edited replaced epoch parts sharer callIds told =>
    exact named.of_past (rosters_of_news told) fun record past => past.replaced replaced epoch.ge callIds
  | silent replaced hushed epoch out free sharer callIds told =>
    exact named.of_past (rosters_of_news told) fun record past => past.replaced replaced epoch.ge callIds
  | retold it =>
    obtain ⟨conns, told, -, -⟩ := it.rosters
    exact named.retold afterOk it.replaced it.epoch it.callIds told
  | ended gone free callIds told =>
    obtain ⟨front, back, before, now⟩ := gone
    refine named.of_past (rosters_of_news told) fun record past =>
      ⟨callIds ▸ past.begun, fun c mem => past.epoch c ?_⟩
    rw [now] at mem
    rw [before]
    exact perm_middle.symm.subset (mem_cons_of_mem _ mem)
  | @started c added new isNamed parts sharer fresh callIds told =>
    refine named.of_past (rosters_of_news told) fun record past => ⟨?_, fun other mem same => ?_⟩
    · have := past.begun
      omega
    · rcases mem_cons.mp (added.subset mem) with rfl | old
      · have := past.begun
        omega
      · exact past.epoch other old same

theorem Changes.named (changes : Changes may d after) (ok : d.Ok) (named : d.Named) : after.Named := by
  induction changes with
  | refl => exact named
  | tail before change ih => exact change.effect.named (Changes.ok before ok) ih

theorem CallLoop.Named.step [DecidableEq Token] (named : d.Named) (sane : d.Sane)
    {event : CallEvent Key Token} (granted : d.Granted event) : (d.step event).Named := by
  obtain ⟨before, rewired, changes⟩ := sane.ok.step sane.connsOk sane.placed granted
  refine changes.named (rewired.ok sane.ok) ?_
  exact named.of_calls (congrArg _ rewired.calls) rewired.callIds (rosters_of_news rewired.news)

theorem CallLoop.Run.named [DecidableEq Token] {callMax : CallMax} {relay demo : Bool} {advertisedPort : Nat}
    {events : List (CallEvent Key Token)}
    (run : Machine.Run after? Granted (start callMax relay demo advertisedPort) events d) : d.Sane ∧ d.Named := by
  refine run.invariant (fun _ d => d.Sane ∧ d.Named) ⟨sane_start .., nofun, nofun⟩ ?_
  rintro - event d - ⟨sane, named⟩ granted ⟨⟩
  exact ⟨sane.step granted, named.step sane granted⟩

/-- In every run of the loop, over all rosters it ever sends, a call, an epoch and a slot name
one user and device key; and the seats there are have slots and users of their own, no
connection has two of them, and who shares is in the call. -/
theorem call_key_names_one_sender [DecidableEq Token] {callMax : CallMax} {relay demo : Bool}
    {advertisedPort : Nat} {events : List (CallEvent Key Token)} {d : CallLoop Key Token}
    (run : Machine.Run after? CallLoop.Granted (start callMax relay demo advertisedPort) events d) :
    (∀ a ∈ d.rosters, ∀ b ∈ d.rosters, a.2.call = b.2.call → a.2.epoch = b.2.epoch →
      ∀ p ∈ a.2.parts, ∀ q ∈ b.2.parts, p.slot = q.slot → p.user = q.user ∧ p.deviceKey = q.deviceKey) ∧
    (∀ c ∈ d.calls.entries, (c.parts.map (·.slot)).Nodup ∧ (c.parts.map (·.user)).Nodup ∧
      (c.sharerConn = 0 ∨ ∃ seat ∈ c.parts, seat.conn = c.sharerConn)) ∧
    ∀ c ∈ d.calls.entries, ∀ c' ∈ d.calls.entries, ∀ seat ∈ c.parts, ∀ seat' ∈ c'.parts,
      seat.conn ≠ 0 → seat.conn = seat'.conn → c = c' ∧ seat = seat' := by
  obtain ⟨⟨ok, -, -⟩, named⟩ := CallLoop.Run.named run
  refine ⟨fun a isA b isB => named.agree a isA b isB, fun c isCall => ?_, ?_⟩
  · obtain ⟨seats, -, sharer⟩ := ok.calls c isCall
    exact ⟨pairwise_map.mpr (seats.imp fun apart => apart.1),
      pairwise_map.mpr (seats.imp fun apart => apart.2.1), sharer⟩
  · intro c isCall c' isCall' seat isSeat seat' isSeat' nonzero same
    have sameCall : c = c' := by
      by_contra differs
      exact (ok.apart.forall isCall isCall' differs).2.2 seat isSeat seat' isSeat' nonzero same
    refine ⟨sameCall, ?_⟩
    subst sameCall
    by_contra differs
    exact ((ok.calls c isCall).seats.forall isSeat isSeat' differs).2.2 nonzero same

/-- Two join; the first one leaves and joins again, from another device. -/
def callAgain : List (CallEvent Nat Nat) :=
  [.signIn 1, .signIn 2, .signIn 1,
   .frame 1 (.join 5 10 [] 0), .result 0 (.granted [1, 2] []) (some 100) 1000,
   .frame 2 (.join 5 20 [] 0), .result 0 (.granted [1, 2] []) (some 200) 1001,
   .frame 1 (.leave 5),
   .frame 3 (.join 5 11 [] 0), .result 0 (.granted [1, 2] []) (some 101) 1002]

def callAgainStart : CallLoop Nat Nat := .start ⟨8, by decide, by decide⟩ true false 7000

/-- Two users in slots 0 and 1, then the first from another device in slot 0 again. -/
theorem call_key_names_one_sender_again : (callAgain.foldl step callAgainStart).rosters.map
        (fun told => (told.2.epoch, told.2.parts.map fun p => (p.slot, p.deviceKey))) =
      [(1, [(0, 10)]), (2, [(0, 10), (1, 20)]), (2, [(0, 10), (1, 20)]), (3, [(1, 20)]),
        (4, [(1, 20), (0, 11)]), (4, [(1, 20), (0, 11)])] ∧
    ∀ a ∈ (callAgain.foldl step callAgainStart).rosters, ∀ b ∈ (callAgain.foldl step callAgainStart).rosters,
      a.2.call = b.2.call → a.2.epoch = b.2.epoch → ∀ p ∈ a.2.parts, ∀ q ∈ b.2.parts,
        p.slot = q.slot → p.user = q.user ∧ p.deviceKey = q.deviceKey := by
  have run : Machine.Run after? CallLoop.Granted callAgainStart callAgain (callAgain.foldl step callAgainStart) :=
    Machine.Run.nil.of_follow (fun _ _ => of_decide_eq_true) rfl
  exact ⟨by decide, (call_key_names_one_sender run).1⟩

/-- The rosters of a call are told in the order of their epochs. -/
def CallLoop.InOrder (d : CallLoop Key Token) : Prop :=
  d.rosters.Pairwise fun a b => a.2.call = b.2.call → a.2.epoch ≤ b.2.epoch

theorem Effect.inOrder (effect : Effect may d after) (named : d.Named) (before : d.InOrder) : after.InOrder := by
  have same (told : after.rosters = d.rosters) : after.InOrder := by rwa [InOrder, told]
  cases effect with
  | quiet | edited | silent | ended | started => exact same (rosters_of_news (by assumption))
  | keyed isCall isSeat sender isConn isOther calls callIds told => exact same (rosters_keyed told)
  | @retold c new _ _ it =>
    obtain ⟨conns, told, -, -⟩ := it.rosters
    rw [InOrder, told]
    refine pairwise_append.mpr ⟨before, pairwise_map.mpr (pairwise_of_forall fun _ _ _ => le_rfl), ?_⟩
    intro a isA _ isB sameCall
    obtain ⟨conn, -, rfl⟩ := mem_map.mp isB
    have past := (named.past a isA).epoch c it.replaced.mem.1 (it.replaced.2.1.symm.trans sameCall.symm)
    exact past.trans (Nat.le.intro it.epoch.symm)

/-- In every run, nobody is told an older roster of a call after a newer one: while no call has had
`2 ^ 32` epochs, their 32 bits on the wire never go back. -/
theorem rosters_are_told_in_order [DecidableEq Token] {callMax : CallMax} {relay demo : Bool}
    {advertisedPort : Nat} {events : List (CallEvent Key Token)} {d : CallLoop Key Token}
    (run : Machine.Run after? CallLoop.Granted (start callMax relay demo advertisedPort) events d)
    (few : ∀ told ∈ d.rosters, told.2.epoch < 2 ^ 32) :
    d.rosters.Pairwise fun a b => a.2.call = b.2.call → UInt32.ofNat a.2.epoch ≤ UInt32.ofNat b.2.epoch := by
  have all := run.invariant (fun _ d => d.Sane ∧ d.Named ∧ d.InOrder) ⟨sane_start .., ⟨nofun, nofun⟩, .nil⟩ (by
    rintro - event d - ⟨sane, named, before⟩ granted ⟨⟩
    refine ⟨sane.step granted, named.step sane granted, ?_⟩
    obtain ⟨between, rewired, changes⟩ := sane.ok.step sane.connsOk sane.placed granted
    have same := rosters_of_news rewired.news
    have ok := rewired.ok sane.ok
    have named := named.of_calls (congrArg _ rewired.calls) rewired.callIds same
    generalize d.step event = after at changes
    induction changes with
    | refl => rwa [InOrder, same]
    | tail earlier change ih => exact change.effect.inOrder (Changes.named earlier ok named) ih)
  refine all.2.2.imp_of_mem fun {a b} isA isB inOrder same => UInt32.le_iff_toNat_le.mpr ?_
  rw [UInt32.toNat_ofNat_of_lt' (few a isA), UInt32.toNat_ofNat_of_lt' (few b isB)]
  exact inOrder same

theorem rosters_are_told_in_order_again : (callAgain.foldl step callAgainStart).rosters.map (·.2.epoch) =
      [1, 2, 2, 3, 4, 4] ∧ (callAgain.foldl step callAgainStart).rosters.Pairwise fun a b =>
        a.2.call = b.2.call → UInt32.ofNat a.2.epoch ≤ UInt32.ofNat b.2.epoch := by
  have run : Machine.Run after? CallLoop.Granted callAgainStart callAgain (callAgain.foldl step callAgainStart) :=
    Machine.Run.nil.of_follow (fun _ _ => of_decide_eq_true) rfl
  exact ⟨by decide, rosters_are_told_in_order run (by decide)⟩

end OpenChime.Daemon
