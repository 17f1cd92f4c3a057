import OpenChime.Daemon.CallNames

/-! Everyone in a call has the list of who is in it: the last roster each participant was
sent is the call's, unless a seat was taken out and nobody told. -/

set_option autoImplicit false

namespace OpenChime.Daemon

open Shared List CallLoop

variable {Key Token : Type} {may : Leeway} {d after : CallLoop Key Token} {c new : Call Key Token} {conn call : Nat}

namespace CallLoop

/-- The last roster of a call a connection was sent, in a CALL_JOINED or a CALL_ROSTER. -/
def lastRoster (d : CallLoop Key Token) (conn call : Nat) : Option (CallRoster Key) :=
  ((d.rosters.filter fun told => told.1 = conn ∧ told.2.call = call).map (·.2)).getLast?

/-- Who is in a call and there was last sent the call's roster, but in some channels. -/
def KnowBut (hushed : Nat → Prop) (d : CallLoop Key Token) : Prop :=
  ∀ c ∈ d.calls.entries, ¬hushed c.channel → ∀ seat ∈ c.parts, d.Live seat.conn →
    d.lastRoster seat.conn c.callId = some c.roster

def EveryoneKnows (d : CallLoop Key Token) : Prop :=
  ∀ c ∈ d.calls.entries, ∀ seat ∈ c.parts, d.Live seat.conn → d.lastRoster seat.conn c.callId = some c.roster

def Seated (d : CallLoop Key Token) (conn call : Nat) : Prop :=
  ∃ c ∈ d.calls.entries, c.callId = call ∧ ∃ seat ∈ c.parts, seat.conn = conn

def GivesUp (d : CallLoop Key Token) (event : CallEvent Key Token) (conn call : Nat) : Prop :=
  (∃ channel, event = .frame conn (.leave channel)) ∨
    ∃ jc channel, d.joiner? event = some (jc, channel) ∧ jc.id = conn ∧
      ∀ c ∈ d.calls.entries, c.channel = channel → c.callId ≠ call

/-- Who loses a seat while the connection stays is sent a roster without it, or an error. -/
def Informs (d : CallLoop Key Token) (event : CallEvent Key Token) (after : CallLoop Key Token) : Prop :=
  ∀ conn call, d.Seated conn call → after.Live conn → ¬after.Seated conn call → d.GivesUp event conn call ∨
    (∃ c ∈ after.calls.entries, c.callId = call ∧ after.lastRoster conn call = some c.roster) ∨
    d.Refused after conn

/-- The event ends no call for everyone in it: neither by a CALL_END nor as a demo's time is up. -/
def EndsNone (d : CallLoop Key Token) : CallEvent Key Token → Prop
  | .frame _ (.end_ _) => False
  | .expire now _ => ¬d.TimedOut now
  | _ => True

def swept? : CallEvent Key Token → Option Token
  | .swept token => some token
  | _ => none

/-- The random generator answered, if the event asks it. -/
def Drawn (event : CallEvent Key Token) : Prop :=
  (match event with
    | .result _ _ random _ => random.isSome
    | _ => true) = true

/-- A join that takes a seat out of the call it goes to can give one back, or takes it from
another connection; and the relay sweeps nobody who is alone in a call and there. -/
structure Sound (d : CallLoop Key Token) (event : CallEvent Key Token) : Prop where
  join : ∀ joiner ∈ d.joiner? event, d.Reseats joiner.1 joiner.2 →
    Drawn event ∧ ∀ c ∈ d.calls.entries, c.channel = joiner.2 → c.parts.length ≤ d.callMax.value ∨
      ∃ seat ∈ c.parts, seat.user = joiner.1.user ∧ seat.conn ≠ 0 ∧ seat.conn ≠ joiner.1.id
  sweep : ∀ token ∈ swept? event, ∀ c ∈ d.calls.entries, ∀ seat ∈ c.parts,
    seat.token = token → 2 ≤ c.parts.length ∨ seat.conn = 0

instance (event : CallEvent Key Token) : Decidable (Drawn event) :=
  inferInstanceAs (Decidable (_ = true))

instance (d : CallLoop Key Token) (jc : CallConn) (channel : Nat) : Decidable (d.Reseats jc channel) :=
  inferInstanceAs (Decidable (_ ∧ ∃ c ∈ d.calls.entries, c.channel = channel ∧
    ∃ seat ∈ c.parts, seat.conn = jc.id ∨ seat.user = jc.user))

instance [DecidableEq Token] (d : CallLoop Key Token) (event : CallEvent Key Token) :
    Decidable (d.Sound event) :=
  decidable_of_iff (_ ∧ _) ⟨fun both => ⟨both.1, both.2⟩, fun sound => ⟨sound.join, sound.sweep⟩⟩

instance (d : CallLoop Key Token) (conn : Nat) : Decidable (d.Live conn) :=
  inferInstanceAs (Decidable (_ ≠ _ ∧ _ = true))

instance [DecidableEq Key] (d : CallLoop Key Token) : Decidable d.EveryoneKnows :=
  inferInstanceAs (Decidable (∀ c ∈ d.calls.entries, ∀ seat ∈ c.parts, d.Live seat.conn → _ = _))

variable {hushed : Nat → Prop}

theorem KnowBut.everyone (know : d.KnowBut hushed) (nowhere : ∀ channel, ¬hushed channel) : d.EveryoneKnows :=
  fun c isCall => know c isCall (nowhere c.channel)

theorem lastRoster_congr (same : after.rosters = d.rosters) (conn call : Nat) :
    after.lastRoster conn call = d.lastRoster conn call := by
  unfold lastRoster
  rw [same]

variable {roster : CallRoster Key}

theorem lastRoster_other {told : List Nat} (more : after.rosters = d.rosters ++ told.map (·, roster))
    (other : roster.call ≠ call) : after.lastRoster conn call = d.lastRoster conn call := by
  unfold lastRoster
  rw [more, filter_append]
  have nothing : (told.map (·, roster)).filter (fun told => decide (told.1 = conn ∧ told.2.call = call)) = [] := by
    rw [filter_eq_nil_iff]
    intro record mem
    obtain ⟨id, -, rfl⟩ := mem_map.mp mem
    simp [other]
  rw [nothing, append_nil]

theorem lastRoster_told {told : List Nat} (more : after.rosters = d.rosters ++ told.map (·, roster))
    (isTold : conn ∈ told) : after.lastRoster conn roster.call = some roster := by
  unfold lastRoster
  rw [more, filter_append, map_append]
  generalize isLast : ((told.map (·, roster)).filter
    (fun told => decide (told.1 = conn ∧ told.2.call = roster.call))).map (·.2) = last
  have each : ∀ record ∈ last, record = roster := by
    intro record mem
    rw [← isLast] at mem
    obtain ⟨pair, isPair, rfl⟩ := mem_map.mp mem
    obtain ⟨id, -, rfl⟩ := mem_map.mp (mem_filter.mp isPair).1
    rfl
  have some' : last ≠ [] := by
    refine ne_nil_of_mem (a := roster) ?_
    rw [← isLast]
    refine mem_map.mpr ⟨(conn, roster), mem_filter.mpr ⟨?_, by simp⟩, rfl⟩
    exact mem_map.mpr ⟨conn, isTold, rfl⟩
  rw [getLast?_append_of_ne_nil _ some', getLast?_eq_some_getLast some']
  exact congrArg _ (each _ (getLast_mem some'))

variable (know : d.KnowBut hushed)

include know

theorem KnowBut.old (kept : Kept d after) (isCall : c ∈ d.calls.entries) (audible : ¬hushed c.channel)
    (told : ∀ conn, after.lastRoster conn c.callId = d.lastRoster conn c.callId) :
    ∀ seat ∈ c.parts, after.Live seat.conn → after.lastRoster seat.conn c.callId = some c.roster := by
  intro seat isSeat live
  rw [told]
  exact know c isCall audible seat isSeat (live_of_conns kept.conns live)

theorem KnowBut.retold {welcome : Option (Nat × CallJoined Key Token)} {conns : List Nat} (ok : after.Ok)
    (kept : Kept d after) (retold : Retold may d after c new welcome conns) :
    after.KnowBut fun channel => hushed channel ∧ channel ≠ c.channel := by
  obtain ⟨told, rosters, everyone, -⟩ := retold.rosters
  obtain ⟨isCall, isNew⟩ := retold.replaced.mem
  intro other isOther audible seat isSeat live
  by_cases own : other = new
  · subst own
    exact lastRoster_told rosters (everyone seat isSeat live)
  have apart := ok.apart.forall isOther isNew own
  have old := (retold.replaced.before isOther).resolve_left own
  have notHushed : ¬hushed other.channel := fun isHushed =>
    audible ⟨isHushed, fun same => apart.1 (same.trans retold.replaced.1.symm)⟩
  exact know.old kept old notHushed
    (fun conn => lastRoster_other rosters fun same => apart.2.1 same.symm) seat isSeat live

theorem KnowBut.of_calls (kept : Kept d after) (told : after.rosters = d.rosters)
    (calls : ∀ c ∈ after.calls.entries, ¬hushed c.channel → c.parts = [] ∨
      ∃ old ∈ d.calls.entries, old.roster = c.roster ∧ old.parts = c.parts) : after.KnowBut hushed := by
  intro c isCall audible seat isSeat live
  rcases calls c isCall audible with empty | ⟨old, isOld, sameRoster, sameParts⟩
  · simp [empty] at isSeat
  have sameId : old.callId = c.callId := congrArg (·.call) sameRoster
  have sameChannel : old.channel = c.channel := congrArg (·.channel) sameRoster
  rw [lastRoster_congr told, ← sameId, ← sameRoster]
  exact know old isOld (sameChannel ▸ audible) seat (sameParts ▸ isSeat) (live_of_conns kept.conns live)

end CallLoop

theorem Change.know (change : Change may d after) (ok : d.Ok) (know : d.KnowBut may.hushed) :
    after.KnowBut may.hushed := by
  have kept := change.toKept
  have afterOk := change.effect.ok ok
  cases change.effect with
  | quiet calls callIds told =>
    refine know.of_calls kept (rosters_of_news told) fun c mem _ => .inr ⟨c, calls ▸ mem, rfl, rfl⟩
  | keyed isCall isSeat sender isConn isOther calls callIds told =>
    refine know.of_calls kept (Effect.rosters_keyed told) fun c mem _ => .inr ⟨c, calls ▸ mem, rfl, rfl⟩
  | @edited c new replaced epoch parts sharer callIds told =>
    have sameRoster : c.roster = new.roster := by
      unfold Call.roster Call.wireParts
      rw [replaced.1, replaced.2.1, epoch, parts]
    refine know.of_calls kept (rosters_of_news told) fun other mem _ => .inr ?_
    rcases replaced.before mem with rfl | old
    · exact ⟨c, replaced.mem.1, sameRoster, parts.symm⟩
    · exact ⟨other, old, rfl, rfl⟩
  | @silent c new seat replaced hushed epoch out free sharer callIds told =>
    refine know.of_calls kept (rosters_of_news told) fun other mem audible => .inr ?_
    rcases replaced.before mem with rfl | old
    · exact absurd (replaced.1 ▸ hushed) audible
    · exact ⟨other, old, rfl, rfl⟩
  | retold it =>
    intro other isOther audible
    exact know.retold afterOk kept it other isOther fun both => audible both.1
  | ended gone free callIds told =>
    obtain ⟨front, back, before, now⟩ := gone
    refine know.of_calls kept (rosters_of_news told) fun c mem _ => .inr ⟨c, ?_, rfl, rfl⟩
    rw [now] at mem
    rw [before]
    exact perm_middle.symm.subset (mem_cons_of_mem _ mem)
  | started added new named parts sharer fresh callIds told =>
    refine know.of_calls kept (rosters_of_news told) fun c mem _ => ?_
    rcases mem_cons.mp (added.subset mem) with rfl | old
    · exact .inl parts
    · exact .inr ⟨c, old, rfl, rfl⟩

theorem Changes.know (changes : Changes may d after) (ok : d.Ok) (know : d.KnowBut may.hushed) :
    after.KnowBut may.hushed := by
  induction changes with
  | refl => exact know
  | tail before change ih => exact change.know (Changes.ok before ok) ih

theorem Rewired.live (rewired : Rewired d after) (live : after.Live conn) {seat : Seat Key Token}
    (places : d.Places seat) (isConn : seat.conn = conn) : d.Live conn := by
  refine ⟨live.1, ?_⟩
  obtain ⟨jc, found⟩ := Option.isSome_iff_exists.mp live.2
  obtain ⟨isHere, isId⟩ := findById_spec found
  rcases rewired.conns jc isHere with ⟨old, isOld, same, -⟩ | ⟨fresh, -⟩
  · refine find?_isSome.mpr ⟨old, isOld, ?_⟩
    simpa using same.trans isId
  rcases places with held | ⟨below, -⟩
  · exact absurd (isConn.symm.trans held) live.1
  · omega

theorem Rewired.know {hushed : Nat → Prop} (rewired : Rewired d after) (placed : d.Placed)
    (know : d.KnowBut hushed) : after.KnowBut hushed := by
  intro c isCall audible seat isSeat live
  rw [rewired.calls] at isCall
  rw [lastRoster_congr (rosters_of_news rewired.news)]
  exact know c isCall audible seat isSeat (rewired.live live (placed c isCall seat isSeat) rfl)

theorem Reseat.keeps {old seats : List (Seat Key Token)} (reseat : Reseat may d old seats)
    {seat : Seat Key Token} (isSeat : seat ∈ old) (kept : ¬may.Frees seat) : seat ∈ seats := by
  cases reseat with
  | same => exact isSeat
  | left out free =>
    rcases mem_cons.mp (out.symm.subset isSeat) with rfl | stays
    · exact absurd free kept
    · exact stays
  | held here free =>
    refine mem_set_of_ne here isSeat ?_
    rintro rfl
    exact kept free
  | joined => exact mem_append_left _ isSeat

theorem Replaced.seated (replaced : Replaced d after c new) (seated : d.Seated conn call)
    (keeps : ∀ seat ∈ c.parts, seat.conn = conn → seat ∈ new.parts) : after.Seated conn call := by
  obtain ⟨channel, callId, front, back, before, now⟩ := replaced
  obtain ⟨other, isOther, isId, seat, isSeat, isConn⟩ := seated
  rw [before] at isOther
  rcases mem_cons.mp (perm_middle.subset isOther) with rfl | elsewhere
  · refine ⟨new, ?_, callId.trans isId, seat, keeps seat isSeat isConn, isConn⟩
    rw [now]
    exact mem_append_right _ mem_cons_self
  · refine ⟨other, ?_, isId, seat, isSeat, isConn⟩
    rw [now]
    exact perm_middle.symm.subset (mem_cons_of_mem _ elsewhere)

theorem Effect.seated (effect : Effect may d after) (nonzero : conn ≠ 0) (stays : ¬may.out conn)
    (seated : d.Seated conn call) : after.Seated conn call := by
  have notFree : ∀ seat : Seat Key Token, seat.conn = conn → ¬may.Frees seat := by
    rintro seat rfl (held | free)
    · exact nonzero held
    · exact stays free
  cases effect with
  | quiet calls =>
    obtain ⟨c, isCall, rest⟩ := seated
    exact ⟨c, calls ▸ isCall, rest⟩
  | keyed isCall isSeat sender isConn isOther calls =>
    obtain ⟨c, isCall, rest⟩ := seated
    exact ⟨c, calls ▸ isCall, rest⟩
  | edited replaced epoch parts => exact replaced.seated seated fun seat mem _ => parts ▸ mem
  | silent replaced hushed epoch out free =>
    refine replaced.seated seated fun seat mem isConn => ?_
    rcases mem_cons.mp (out.symm.subset mem) with rfl | stays
    · exact absurd free (notFree _ isConn)
    · exact stays
  | retold it =>
    exact it.replaced.seated seated fun seat mem isConn => it.reseat.keeps mem (notFree seat isConn)
  | ended gone free =>
    obtain ⟨front, back, before, now⟩ := gone
    obtain ⟨c, isCall, isId, seat, isSeat, isConn⟩ := seated
    rw [before] at isCall
    rcases mem_cons.mp (perm_middle.subset isCall) with rfl | elsewhere
    · exact absurd (free seat isSeat) (notFree seat isConn)
    · exact ⟨c, now ▸ elsewhere, isId, seat, isSeat, isConn⟩
  | started added =>
    obtain ⟨c, isCall, rest⟩ := seated
    exact ⟨c, added.symm.subset (mem_cons_of_mem _ isCall), rest⟩

theorem Changes.seated (changes : Changes may d after) (nonzero : conn ≠ 0) (stays : ¬may.out conn)
    (seated : d.Seated conn call) : after.Seated conn call := by
  induction changes with
  | refl => exact seated
  | tail _ change ih => exact change.effect.seated nonzero stays ih

theorem Rewired.seated (rewired : Rewired d after) (seated : d.Seated conn call) : after.Seated conn call := by
  obtain ⟨c, isCall, rest⟩ := seated
  exact ⟨c, rewired.calls ▸ isCall, rest⟩

namespace CallLoop

theorem lastRoster_retold {welcome : Option (Nat × CallJoined Key Token)} {conns : List Nat}
    (retold : Retold may d after c new welcome conns) (isTold : conn ∈ conns) (isCall : c.callId = call) :
    ∃ c ∈ after.calls.entries, c.callId = call ∧ after.lastRoster conn call = some c.roster := by
  obtain ⟨told, rosters, -, also⟩ := retold.rosters
  have isNew : new.callId = call := retold.replaced.2.1.trans isCall
  refine ⟨new, retold.replaced.mem.2, isNew, ?_⟩
  rw [← isNew]
  exact lastRoster_told rosters (also isTold)

theorem Ok.seated_unique (ok : d.Ok) (nonzero : conn ≠ 0) (seated : d.Seated conn call) (isCall : c ∈ d.calls.entries)
    {seat : Seat Key Token} (isSeat : seat ∈ c.parts) (isConn : seat.conn = conn) : c.callId = call := by
  obtain ⟨other, isOther, isId, seat', isSeat', isConn'⟩ := seated
  by_cases same : other = c
  · exact same ▸ isId
  · exact absurd (isConn'.trans isConn.symm)
      ((ok.apart.forall isOther isCall same).2.2 seat' isSeat' seat isSeat (isConn' ▸ nonzero))

variable [DecidableEq Token] {event : CallEvent Key Token} (sane : d.Sane)

include sane

theorem Sane.join_told (granted : d.Granted event) (sound : d.Sound event) {jc : CallConn}
    {channel : Nat} (joins : d.joiner? event = some (jc, channel)) (reseats : d.Reseats jc channel) :
    ∃ before between old new welcome conns, Rewired d before ∧ Changes (d.leeway event) before between ∧
      Retold (d.leeway event) between (d.step event) old new welcome conns ∧
      Kept between (d.step event) ∧ old.channel = channel := by
  obtain ⟨i, answer, random, now, rfl, rewired, joinEnd⟩ := sane.ok.step_join sane.connsOk granted joins
  obtain ⟨drawn, room⟩ := sound.join (jc, channel) joins reseats
  cases joinEnd with
  | told changes retold kept isChannel => exact ⟨_, _, _, _, _, _, rewired, changes, retold, kept, isChannel⟩
  | refused changes refused why =>
    obtain ⟨relay, c, isCall, isChannel, ofJoiner⟩ := reseats
    rcases why relay c isCall isChannel ofJoiner with none | ⟨full, unmoved⟩
    · rw [none] at drawn
      cases drawn
    rcases room c isCall isChannel with fits | ⟨seat, isSeat, isUser, nonzero, notOwn⟩
    · exact absurd full (Nat.not_lt_of_le fits)
    rcases unmoved seat isSeat isUser with held | own
    · exact absurd held nonzero
    · exact absurd own notOwn

theorem EveryoneKnows.step (know : d.EveryoneKnows) (granted : d.Granted event)
    (sound : d.Sound event) : (d.step event).EveryoneKnows := by
  have knowBut : d.KnowBut (d.leeway event).hushed := fun c isCall _ => know c isCall
  by_cases reseating : ∃ jc channel, d.joiner? event = some (jc, channel) ∧ d.Reseats jc channel
  · obtain ⟨jc, channel, joins, reseats⟩ := reseating
    obtain ⟨before, between, old, new, welcome, conns, rewired, changes, retold, kept, isChannel⟩ :=
      sane.join_told granted sound joins reseats
    have beforeOk := rewired.ok sane.ok
    have betweenOk := changes.ok beforeOk
    have known := changes.know beforeOk (rewired.know sane.placed knowBut)
    have afterOk := (Effect.retold retold).ok betweenOk
    -- what was not told was in the channel that is told now
    refine (known.retold afterOk kept retold).everyone ?_
    rintro other ⟨⟨jc', joins', -⟩, elsewhere⟩
    have same := joins'.symm.trans joins
    simp only [Option.some.injEq, Prod.mk.injEq] at same
    exact elsewhere (same.2.trans isChannel.symm)
  · obtain ⟨before, rewired, changes⟩ := sane.ok.step sane.connsOk sane.placed granted
    refine (changes.know (rewired.ok sane.ok) (rewired.know sane.placed knowBut)).everyone ?_
    rintro channel ⟨jc, joins, reseats⟩
    exact reseating ⟨jc, channel, joins, reseats⟩

theorem Sane.informs_join (granted : d.Granted event) (sound : d.Sound event) {jc : CallConn}
    {channel : Nat} (joins : d.joiner? event = some (jc, channel)) (seated : d.Seated conn call)
    (live : d.Live conn) (lost : ¬(d.step event).Seated conn call)
    (loses : conn = jc.id ∨ d.relay = true ∧ ∃ c ∈ d.calls.entries, c.channel = channel ∧
      ∃ seat ∈ c.parts, seat.user = jc.user ∧ seat.conn = conn) :
    d.GivesUp event conn call ∨
    (∃ c ∈ (d.step event).calls.entries, c.callId = call ∧ (d.step event).lastRoster conn call = some c.roster) ∨
    d.Refused (d.step event) conn := by
  obtain ⟨i, answer, random, now, rfl, rewired, joinEnd⟩ := sane.ok.step_join sane.connsOk granted joins
  by_cases own : conn = jc.id
  · subst own
    cases joinEnd with
    | @told between old new welcome conns changes retold kept isChannel callId moved answered =>
      rcases answered with ⟨frame, rfl⟩ | refused
      · -- seated again: the seat that is lost was in another call
        left
        right
        refine ⟨jc, channel, joins, rfl, fun c isCall same isId => lost ?_⟩
        obtain ⟨seat, isSeat, isConn, -⟩ := (retold.welcomes _ rfl).seat
        refine ⟨new, retold.replaced.mem.2, ?_, seat, isSeat, isConn⟩
        exact retold.replaced.2.1.trans ((callId c isCall same).trans isId)
      · exact .inr (.inr refused)
    | refused changes refused why => exact .inr (.inr refused)
  · obtain ⟨relay, c, isCall, isChannel, seat, isSeat, isUser, isConn⟩ := loses.resolve_left own
    have isId := sane.ok.seated_unique live.1 seated isCall isSeat isConn
    have notOwn : seat.conn ≠ jc.id := fun same => own (isConn.symm.trans same)
    have reseats : d.Reseats jc channel := ⟨relay, c, isCall, isChannel, seat, isSeat, .inr isUser⟩
    cases joinEnd with
    | told changes retold kept isChannel' callId moved =>
      have isTold := moved c isCall isChannel seat isSeat isUser notOwn (isConn ▸ live)
      exact .inr (.inl (lastRoster_retold retold (isConn ▸ isTold) ((callId c isCall isChannel).trans isId)))
    | refused changes refused why =>
      rcases why relay c isCall isChannel ⟨seat, isSeat, .inr isUser⟩ with none | ⟨-, unmoved⟩
      · have drawn := (sound.join (jc, channel) joins reseats).1
        rw [none] at drawn
        cases drawn
      · rcases unmoved seat isSeat isUser with held | isOwn
        · exact absurd (isConn.symm.trans held) live.1
        · exact absurd isOwn notOwn

theorem Sane.informs_sweep {token : Token} (sound : d.Sound (.swept token)) (seated : d.Seated conn call)
    (live : d.Live conn) (lost : ¬(d.step (.swept token)).Seated conn call) :
    ∃ c ∈ (d.step (.swept token)).calls.entries, c.callId = call ∧
      (d.step (.swept token)).lastRoster conn call = some c.roster := by
  change ¬(d.callDropToken token).Seated conn call at lost
  change ∃ c ∈ (d.callDropToken token).calls.entries, c.callId = call ∧
      (d.callDropToken token).lastRoster conn call = some c.roster
  rcases callDropToken_eq d token with same | ⟨c, isCall, idx, seat, here, isToken, dropped⟩
  · rw [same] at lost
    exact absurd seated lost
  rw [dropped] at lost ⊢
  have isSeat := mem_of_getElem? here
  -- tokens may collide, so what is dropped is this seat and no other of the token
  let may : Leeway := ⟨fun _ => False, (· = seat.conn)⟩
  have spec := @Ok.callDropTell_spec _ _ may d c idx seat sane.ok isCall here (.inr rfl) seat.conn
  have change := @Ok.callDropTell _ _ may d c idx seat sane.ok isCall here (.inr rfl) seat.conn
  have isConn : conn = seat.conn := by
    by_contra other
    exact lost (change.effect.seated live.1 other seated)
  subst isConn
  cases spec with
  | told retold also parts =>
    exact lastRoster_retold retold (also live) (sane.ok.seated_unique live.1 seated isCall isSeat rfl)
  | ended empty change gone =>
    have alone := (removePart_out here).length_eq
    rw [empty, length_singleton] at alone
    rcases sound.sweep token rfl c isCall seat isSeat isToken with others | held
    · omega
    · exact absurd held live.1

theorem Sane.not_live_closed (conn now : Nat) : ¬(d.step (.closed conn now)).Live conn := by
  rintro ⟨-, isThere⟩
  have filtered : ({ d with conns := d.conns.filter (·.id ≠ conn) } : CallLoop Key Token).Ok := sane.ok.of_calls rfl rfl
  have change := @Ok.callConnClosed _ _ ⟨fun _ => True, fun _ => True⟩ _ conn filtered trivial now
  obtain ⟨jc, found⟩ := Option.isSome_iff_exists.mp isThere
  obtain ⟨isConn, isId⟩ := findById_spec found
  have sameConns : (d.step (.closed conn now)).conns = d.conns.filter (·.id ≠ conn) := change.conns
  rw [sameConns, mem_filter] at isConn
  simpa [isId] using isConn.2

theorem Sane.informs (granted : d.Granted event) (endsNone : d.EndsNone event) (sound : d.Sound event) :
    d.Informs event (d.step event) := by
  intro conn call seated liveAfter lost
  obtain ⟨before, rewired, changes⟩ := sane.ok.step sane.connsOk sane.placed granted
  have live : d.Live conn := by
    obtain ⟨c, isCall, -, seat, isSeat, isConn⟩ := seated
    exact rewired.live (live_of_conns changes.kept.conns liveAfter) (sane.placed c isCall seat isSeat) isConn
  have loses : d.MayLose conn event := by
    by_contra stays
    exact lost (changes.seated live.1 stays (rewired.seated seated))
  cases event with
  | signIn user =>
    obtain ⟨jc, channel, joins, -⟩ := loses
    cases joins
  | closed other now =>
    cases loses
    exact absurd liveAfter (sane.not_live_closed conn now)
  | frame other frame =>
    cases frame with
    | leave channel =>
      cases loses
      exact .inl (.inl ⟨channel, rfl⟩)
    | end_ channel => exact endsNone.elim
    | join | invite | decline | share | key =>
      obtain ⟨jc, channel, joins, -⟩ := loses
      cases joins
  | result i answer random now =>
    obtain ⟨jc, channel, joins, loses⟩ := loses
    exact sane.informs_join granted sound joins seated live lost loses
  | swept token => exact .inr (.inl (sane.informs_sweep sound seated live lost))
  | expire now grace => exact absurd loses endsNone
  | configure callMax =>
    obtain ⟨jc, channel, joins, -⟩ := loses
    cases joins

end CallLoop

/-- In every run without an unsound step, everyone in a call was last sent its roster, and
whoever loses a seat is told. -/
theorem everyone_in_call_knows [DecidableEq Token] {callMax : CallMax} {relay demo : Bool}
    {advertisedPort : Nat} {events : List (CallEvent Key Token)} {d : CallLoop Key Token}
    (run : Machine.Run after? (fun d event => d.Granted event ∧ d.Sound event)
      (start callMax relay demo advertisedPort) events d) :
    d.EveryoneKnows ∧ ∀ event, d.Granted event → d.EndsNone event → d.Sound event → d.Informs event (d.step event) := by
  have known : d.Sane ∧ d.EveryoneKnows := by
    refine run.invariant (fun _ d => d.Sane ∧ d.EveryoneKnows) ⟨sane_start .., ?_⟩ ?_
    · nofun
    · rintro - event d - ⟨sane, know⟩ ⟨granted, sound⟩ ⟨⟩
      exact ⟨sane.step granted, know.step sane granted sound⟩
  exact ⟨known.2, fun event granted endsNone sound => known.1.informs granted endsNone sound⟩

/-- Three join a call that `call_max` is then lowered for; the first one's connection joins
again. -/
def callLowered : List (CallEvent Nat Nat) :=
  [.signIn 1, .signIn 2, .signIn 3,
   .frame 1 (.join 5 10 [] 0), .result 0 (.granted [1, 2, 3] []) (some 100) 1000,
   .frame 2 (.join 5 20 [] 0), .result 0 (.granted [1, 2, 3] []) (some 200) 1001,
   .frame 3 (.join 5 30 [] 0), .result 0 (.granted [1, 2, 3] []) (some 300) 1002,
   .configure ⟨2, by decide, by decide⟩,
   .frame 1 (.join 5 10 [] 0), .result 0 (.granted [1, 2, 3] []) (some 101) 1003]

/-- Two join a call, then the first one on another device, and the random generator fails. -/
def callUndrawn : List (CallEvent Nat Nat) :=
  [.signIn 1, .signIn 2, .signIn 1,
   .frame 1 (.join 5 10 [] 0), .result 0 (.granted [1, 2] []) (some 100) 1000,
   .frame 2 (.join 5 20 [] 0), .result 0 (.granted [1, 2] []) (some 200) 1001,
   .frame 3 (.join 5 11 [] 0), .result 0 (.granted [1, 2] []) none 1002]

def callReached (events : List (CallEvent Nat Nat)) : CallLoop Nat Nat := events.foldl step callAgainStart

theorem everyone_in_call_knows_again :
    (callReached callAgain).calls.entries.map (fun c => c.parts.map (·.conn)) = [[2, 3]] ∧
    (callReached callAgain).EveryoneKnows := by
  have run : Machine.Run after? (fun d event => d.Granted event ∧ d.Sound event) callAgainStart callAgain
      (callReached callAgain) :=
    Machine.Run.nil.of_follow (fun _ _ => of_decide_eq_true) rfl
  exact ⟨by decide, (everyone_in_call_knows run).1⟩

/-- In both, who is left in the call still has the seat that was lost in the last roster. -/
theorem call_seat_lost_untold : Machine.Run after? CallLoop.Granted callAgainStart
      callLowered (callReached callLowered) ∧
    ¬(callReached callLowered).EveryoneKnows ∧
    Machine.Run after? CallLoop.Granted callAgainStart
      callUndrawn (callReached callUndrawn) ∧
    ¬(callReached callUndrawn).EveryoneKnows := by
  refine ⟨?_, by decide, ?_, by decide⟩
  · exact Machine.Run.nil.of_follow (fun _ _ => of_decide_eq_true) rfl
  · exact Machine.Run.nil.of_follow (fun _ _ => of_decide_eq_true) rfl

end OpenChime.Daemon
