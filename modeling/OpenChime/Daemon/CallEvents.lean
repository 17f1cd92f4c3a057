import Mathlib.Data.List.Infix
import Mathlib.Data.List.Nodup
import Mathlib.Data.List.Perm.Subperm
import OpenChime.Daemon.CallEffects

/-! Every event of the net loop's calls as a few changes, each within the leeway the event
gives: joins first, then the frames and the other events. -/

set_option autoImplicit false

namespace OpenChime.Daemon

open Shared List Relation.ReflTransGen CallLoop

variable {Key Token : Type} {may : Leeway} {d after : CallLoop Key Token} {c new : Call Key Token}

namespace CallLoop

variable {conn idx : Nat} {seat : Seat Key Token} {between : CallLoop Key Token}

theorem freeSlot_spec (size : c.parts.length < 256) : ∀ seat ∈ c.parts, seat.slot ≠ c.freeSlot := by
  unfold Call.freeSlot
  cases found : (List.range 256).find? fun s => c.parts.all (·.slot ≠ s) with
  | some s =>
    have free := find?_some found
    simpa using free
  | none =>
    have taken := find?_eq_none.mp found
    have within : List.range 256 ⊆ c.parts.map (·.slot) := by
      intro s mem
      have used := taken s mem
      simp only [all_eq_true, decide_eq_true_eq, not_forall] at used
      obtain ⟨seat, isSeat, same⟩ := used
      exact mem_map.mpr ⟨seat, isSeat, not_not.mp same⟩
    have most := (nodup_range.subperm within).length_le
    rw [length_range, length_map] at most
    omega

structure SameSeats (c new : Call Key Token) : Prop where
  channel : new.channel = c.channel
  callId : new.callId = c.callId
  epoch : new.epoch = c.epoch
  parts : new.parts = c.parts
  sharer : new.sharerConn = c.sharerConn

theorem SameSeats.trans {a b : Call Key Token} (first : SameSeats a b) (second : SameSeats b c) : SameSeats a c :=
  ⟨second.channel.trans first.channel, second.callId.trans first.callId,
    second.epoch.trans first.epoch, second.parts.trans first.parts, second.sharer.trans first.sharer⟩

theorem SameSeats.kept (same : SameSeats c new) : SharerKept c new :=
  .inr (.inr ⟨same.sharer, fun _ mem _ => same.parts ▸ mem⟩)

theorem sameSeats_uninvite (user : Nat) : SameSeats c (c.uninvite user) := by
  unfold Call.uninvite
  split <;> exact ⟨rfl, rfl, rfl, rfl, rfl⟩

theorem sameSeats_addInvites {cap : Nat} {users added : List Nat}
    (done : c.addInvites cap users = some (new, added)) : SameSeats c new := by
  unfold Call.addInvites at done
  dsimp only at done
  split at done
  · cases done
  · cases done
    exact ⟨rfl, rfl, rfl, rfl, rfl⟩

theorem sameSeats_getD {cap : Nat} {users : List Nat} : SameSeats c (((c.addInvites cap users).map (·.1)).getD c) := by
  cases done : c.addInvites cap users with
  | none => exact ⟨rfl, rfl, rfl, rfl, rfl⟩
  | some result => exact sameSeats_addInvites done

theorem seatedCall_seats (jc : CallConn) (deviceKey : Key) (codecs : Nat) (token : Token)
    (starting : Bool) (invites : List Nat) :
    SameSeats { c with
      parts := c.parts ++ [⟨jc.user, jc.id, c.freeSlot, token, deviceKey, codecs, 0⟩]
      epoch := c.epoch + 1 } (d.seatedCall c jc deviceKey codecs token starting invites) := by
  unfold seatedCall
  dsimp only
  refine (sameSeats_uninvite jc.user).trans ?_
  generalize ({ c with
      parts := c.parts ++ [⟨jc.user, jc.id, c.freeSlot, token, deviceKey, codecs, 0⟩]
      epoch := c.epoch + 1 } : Call Key Token).uninvite jc.user = c'
  have flagged : SameSeats c' { c' with
      othersJoined := c'.othersJoined || decide (jc.user ≠ c'.starter) } := ⟨rfl, rfl, rfl, rfl, rfl⟩
  refine flagged.trans ?_
  split
  · split
    · next done => exact sameSeats_addInvites done
    · exact sameSeats_getD
  · exact ⟨rfl, rfl, rfl, rfl, rfl⟩

theorem Ok.takeSeat (ok : d.Ok) (isCall : c ∈ d.calls.entries) {jc : CallConn} (isConn : jc ∈ d.conns)
    (live : d.Live jc.id) (unseated : d.Unseated jc.id) (room : c.parts.length < maxCallParticipants)
    (gone : ∀ seat ∈ c.parts, seat.user ≠ jc.user) (deviceKey : Key) (codecs : Nat) (token : Token)
    (starting : Bool) (invites : List Nat) (movedFrom : Nat) :
    ∃ new frame told, Retold may d (d.takeSeat c jc deviceKey codecs token starting invites movedFrom)
        c new (some (jc.id, frame)) told ∧
      (d.Live movedFrom → movedFrom ∈ told) ∧
      Kept d (d.takeSeat c jc deviceKey codecs token starting invites movedFrom) := by
  have same := @seatedCall_seats _ _ d c jc deviceKey codecs token starting invites
  unfold CallLoop.takeSeat
  dsimp only
  generalize d.seatedCall c jc deviceKey codecs token starting invites = new at same
  have reseat : Reseat may d c.parts new.parts := by
    rw [same.parts]
    refine .joined room (fun seat mem => ⟨?_, gone seat mem⟩) unseated live ⟨jc, isConn, rfl, rfl⟩ rfl
    exact freeSlot_spec (room.trans_le (by decide)) seat mem
  have sharer : SharerKept c new := by
    refine .inr (.inr ⟨same.sharer, fun seat mem _ => ?_⟩)
    rw [same.parts]
    exact mem_append_left _ mem
  obtain ⟨-, -, front, back, before, now⟩ := ok.setCall isCall same.channel same.callId
  generalize joining : ({ d.setCall new with
    sent := (d.setCall new).sent ++ [CallOut.authorize new.callId jc.user jc.id token] } :
    CallLoop Key Token) = joiner
  have news : joiner.news = d.news := by
    rw [← joining]
    exact (@news_append _ _ (d.setCall new) _ rfl).trans news_setCall
  have calls : joiner.calls = (d.setCall new).calls := by rw [← joining]
  have ids : joiner.nextCallId = d.nextCallId := by rw [← joining, setCall_nextCallId]
  have kept : Kept d joiner := by
    rw [← joining]
    exact ⟨rfl, rfl, rfl, rfl, prefix_append _ _⟩
  obtain ⟨told, sent, everyone, also⟩ := @news_sendRoster _ _
    (joiner.tell [jc.id] (.joined (joiner.joinedFrame new c.freeSlot token))) new jc.id movedFrom
  have isThere : (joiner.findById jc.id).isSome = true := by
    unfold findById
    rw [kept.conns]
    exact live.2
  refine ⟨new, joiner.joinedFrame new c.freeSlot token, told, ⟨?_, same.epoch, reseat, sharer, ids, ?_,
    ?_, ?_⟩, fun isLive => also (live_of_conns kept.conns.symm isLive), ?_⟩
  · exact ⟨same.channel, same.callId, front, back, before, calls ▸ now⟩
  · rintro it ⟨⟩
    refine ⟨rfl, ⟨jc.user, jc.id, c.freeSlot, token, deviceKey, codecs, 0⟩, ?_, rfl, rfl⟩
    rw [same.parts]
    exact mem_concat_self
  · rw [news_sendState, sent, news_tell rfl, news]
    simp only [filter_cons, isThere, if_true, filter_nil]
    rfl
  · intro seat mem isLive
    by_cases own : seat.conn = jc.id
    · exact .inr ⟨_, rfl, own.symm⟩
    · exact .inl (everyone seat mem isLive own)
  · exact ((kept.trans (kept_tell _)).trans kept_sendRoster).trans kept_sendState

theorem sendCallError_change (code : CallError) : Change may d (d.sendCallError conn code) :=
  .quiet rfl rfl (news_tell_other rfl) (kept_tell _)

theorem sendState_change {ended : Bool} : Change may d (d.sendState c ended) :=
  .quiet rfl rfl news_sendState kept_sendState

def Refused (d after : CallLoop Key Token) (conn : Nat) : Prop :=
  ∃ code, CallOut.frame conn (.error code) ∈ after.sent.drop d.sent.length

theorem refused_sendCallError (kept : Kept d between) (live : d.Live conn) (code : CallError) :
    d.Refused (between.sendCallError conn code) conn := by
  refine ⟨code, ?_⟩
  have isThere : (between.findById conn).isSome = true := by
    unfold findById
    rw [kept.conns]
    exact live.2
  have sent : (between.sendCallError conn code).sent = between.sent ++ [CallOut.frame conn (.error code)] := by
    simp [sendCallError, tell, isThere]
  rw [sent, drop_append_of_le_length kept.sent.length_le]
  exact mem_concat_self

theorem Refused.trans (refused : d.Refused between conn) (kept : Kept between after) : d.Refused after conn := by
  obtain ⟨code, mem⟩ := refused
  exact ⟨code, (kept.sent.drop _).subset mem⟩

theorem callNew_change {channel starter now : Nat} (named : channel ≠ 0)
    (missing : d.callFind channel = none) (done : d.callNew channel starter now = some (after, c)) :
    Change may d after ∧ after.calls.entries.Perm (c :: d.calls.entries) ∧ c.parts = [] ∧ c.channel = channel := by
  obtain ⟨calls, put, same⟩ := Option.map_eq_some_iff.mp done
  cases same
  have added := Slots.Table.put_perm put
  refine ⟨⟨⟨rfl, rfl, rfl, rfl, prefix_refl _⟩,
    .started added (callFind_none named missing) named rfl rfl ?_ rfl rfl⟩, added, rfl, rfl⟩
  split
  · next zero =>
    rw [zero]
    exact Nat.zero_le _
  · exact le_rfl

inductive ToJoin (may : Leeway) (d : CallLoop Key Token) (jc : CallConn) (channel : Nat) :
    Except (CallLoop Key Token) (CallLoop Key Token × Call Key Token × Bool × Nat) → Prop where
  | unavailable {after : CallLoop Key Token} (changes : Changes may d after)
      (refused : d.Refused after jc.id) (missing : ∀ c ∈ d.calls.entries, c.channel ≠ channel) :
      ToJoin may d jc channel (.error after)
  | full {after : CallLoop Key Token} {c new : Call Key Token} (isCall : c ∈ d.calls.entries)
      (isChannel : c.channel = channel) (changes : Changes may d after)
      (refused : d.Refused after jc.id) (trimmed : Trimmed (·.user = jc.user) c new)
      (size : d.callMax.value ≤ new.parts.length)
      (unmoved : ∀ seat ∈ c.parts, seat.user = jc.user → seat.conn = 0) :
      ToJoin may d jc channel (.error after)
  | moved {between after : CallLoop Key Token} {c old new : Call Key Token} {conns : List Nat}
      (isCall : c ∈ d.calls.entries) (isChannel : c.channel = channel)
      (changes : Changes may d between) (retold : Retold may between after old new none conns)
      (kept : Kept between after) (trimmed : Trimmed (·.user = jc.user) c old)
      (told : ∀ seat ∈ c.parts, seat.user = jc.user → d.Live seat.conn → seat.conn ∈ conns)
      (refused : d.Refused after jc.id) : ToJoin may d jc channel (.error after)
  | running {after : CallLoop Key Token} {c new : Call Key Token} {movedFrom : Nat}
      (isCall : c ∈ d.calls.entries) (isChannel : c.channel = channel)
      (left : LeftOther may d c jc.user after new movedFrom)
      (room : new.parts.length < d.callMax.value) :
      ToJoin may d jc channel (.ok (after, new, false, movedFrom))
  | started {after : CallLoop Key Token} {c : Call Key Token} (change : Change may d after)
      (missing : ∀ c ∈ d.calls.entries, c.channel ≠ channel)
      (added : after.calls.entries.Perm (c :: d.calls.entries)) (empty : c.parts = [])
      (isChannel : c.channel = channel) : ToJoin may d jc channel (.ok (after, c, true, 0))

theorem Ok.callToJoin (ok : d.Ok) {jc : CallConn} {channel now : Nat} (named : channel ≠ 0) (live : d.Live jc.id)
    (free : ∀ c ∈ d.calls.entries, c.channel = channel → ∀ seat ∈ c.parts, seat.user = jc.user →
      may.Frees seat ∧ may.hushed channel) :
    ToJoin may d jc channel (d.callToJoin jc channel now) := by
  unfold CallLoop.callToJoin
  cases found : d.callFind channel with
  | some c =>
    obtain ⟨isCall, isChannel⟩ := callFind_spec found
    have left := @Ok.leaveOther _ _ may d c ok isCall jc.user (isChannel ▸ free c isCall isChannel)
    dsimp only
    generalize d.leaveOther c jc.user = result at left
    obtain ⟨after, new, movedFrom⟩ := result
    have leaving := single left.change
    have sameMax := left.change.callMax
    split
    · next size =>
      rw [sameMax] at size
      have denied : Change may after (after.sendCallError jc.id .callFull) := sendCallError_change _
      have deniedOk := denied.effect.ok (left.change.effect.ok ok)
      have refused := refused_sendCallError left.change.toKept live .callFull
      split
      · next moved =>
        generalize isNew : ({ new with epoch := new.epoch + 1 } : Call Key Token) = newer
        have reseat : Reseat may (after.sendCallError jc.id .callFull) new.parts newer.parts := isNew ▸ .same _
        obtain ⟨conns, retold, also⟩ := @Ok.retold _ _ may (after.sendCallError jc.id .callFull)
          ((((after.sendCallError jc.id .callFull).setCall newer).sendRoster newer 0 movedFrom).sendState newer false)
          new newer deniedOk left.isCall (isNew ▸ rfl) (isNew ▸ rfl) (isNew ▸ rfl) reseat
          (isNew ▸ .inr (.inr ⟨rfl, fun _ mem _ => mem⟩)) movedFrom rfl rfl rfl news_sendState
        have kept : Kept (after.sendCallError jc.id .callFull)
            ((((after.sendCallError jc.id .callFull).setCall newer).sendRoster newer 0
              movedFrom).sendState newer false) :=
          (kept_setCall.trans kept_sendRoster).trans kept_sendState
        refine .moved isCall isChannel (leaving.tail denied) retold kept left.trimmed ?_ (refused.trans kept)
        intro seat mem isUser isLive
        rw [← left.moved seat mem isUser] at isLive ⊢
        exact also (live_of_conns (left.change.toKept.trans denied.toKept).conns.symm isLive)
      · next unmoved =>
        refine .full isCall isChannel (leaving.tail denied) refused left.trimmed size ?_
        intro seat mem isUser
        rw [← left.moved seat mem isUser]
        exact not_not.mp unmoved
    · next room =>
      rw [sameMax] at room
      exact .running isCall isChannel left (Nat.lt_of_not_le room)
  | none =>
    have missing := callFind_none named found
    cases made : d.callNew channel jc.user now with
    | none =>
      exact .unavailable (.single (sendCallError_change _)) (refused_sendCallError (.refl d) live _) missing
    | some result =>
      obtain ⟨after, c⟩ := result
      obtain ⟨change, added, empty, isChannel⟩ := @callNew_change _ _ may d after c channel jc.user now named found made
      exact .started change missing added empty isChannel

section

variable (ok : d.Ok) (isCall : c ∈ d.calls.entries)

include ok isCall

theorem Ok.mem_setCall (channel : new.channel = c.channel) : new ∈ (d.setCall new).calls.entries := by
  obtain ⟨front, back, -, set, -, -⟩ := ok.setCall_split isCall channel
  rw [set]
  exact mem_append_right _ mem_cons_self

theorem Ok.unseated_setCall (same : SameSeats c new) (unseated : d.Unseated conn) :
    (d.setCall new).Unseated conn := by
  obtain ⟨front, back, split, set, -, -⟩ := ok.setCall_split isCall same.channel
  intro other isOther seat mem
  rw [set] at isOther
  rcases mem_append.mp isOther with first | isOther
  · exact unseated other (by simp [split, first]) seat mem
  rcases mem_cons.mp isOther with rfl | last
  · exact unseated c isCall seat (same.parts ▸ mem)
  · exact unseated other (by simp [split, last]) seat mem

theorem Ok.editedSeats (same : SameSeats c new) : Change may d (d.setCall new) :=
  ok.edited isCall same.channel same.callId same.epoch same.parts same.kept

theorem Ok.unique (isNew : new ∈ d.calls.entries) (same : new.channel = c.channel) : new = c := by
  by_contra differs
  exact (ok.apart.forall isNew isCall differs).1 same

end

theorem Refused.since (refused : between.Refused after conn) (kept : Kept d between) : d.Refused after conn := by
  obtain ⟨code, mem⟩ := refused
  exact ⟨code, (drop_subset_drop_left _ kept.sent.length_le) mem⟩

/-- The seats a join takes out of the call of its channel first: the connection's own and the
user's on another device. -/
def OfJoiner (jc : CallConn) (seat : Seat Key Token) : Prop := seat.conn = jc.id ∨ seat.user = jc.user

inductive JoinEnd (may : Leeway) (d : CallLoop Key Token) (jc : CallConn) (channel : Nat)
    (random : Option Token) (after : CallLoop Key Token) : Prop where
  | told {between : CallLoop Key Token} {old new : Call Key Token}
      {welcome : Option (Nat × CallJoined Key Token)} {conns : List Nat}
      (changes : Changes may d between) (retold : Retold may between after old new welcome conns)
      (kept : Kept between after) (isChannel : old.channel = channel)
      (callId : ∀ c ∈ d.calls.entries, c.channel = channel → old.callId = c.callId)
      (moved : ∀ c ∈ d.calls.entries, c.channel = channel → ∀ seat ∈ c.parts,
        seat.user = jc.user → seat.conn ≠ jc.id → d.Live seat.conn → seat.conn ∈ conns)
      (answer : (∃ frame, welcome = some (jc.id, frame)) ∨ d.Refused after jc.id)
  | refused (changes : Changes may d after) (refused : d.Refused after jc.id)
      (why : d.relay = true → ∀ c ∈ d.calls.entries, c.channel = channel →
        (∃ seat ∈ c.parts, OfJoiner jc seat) → random = none ∨ d.callMax.value < c.parts.length ∧
          ∀ seat ∈ c.parts, seat.user = jc.user → seat.conn = 0 ∨ seat.conn = jc.id)

variable {channel : Nat}

theorem Ok.trimmed_of_leftOwn (ok : d.Ok) (left : LeftOwn d conn channel between)
    (isNew : new ∈ between.calls.entries) (isChannel : new.channel = channel)
    (isCall : c ∈ d.calls.entries) (same : c.channel = channel) : Trimmed (·.conn = conn) c new := by
  obtain ⟨old, isOld, trimmed⟩ := left.trimmed new isNew isChannel
  have isC : old = c := ok.unique isCall isOld (trimmed.channel.symm.trans (isChannel.trans same.symm))
  exact isC ▸ trimmed

theorem Ok.seatJoiner (ok : d.Ok) {jc : CallConn} (isConn : jc ∈ d.conns) (live : d.Live jc.id)
    (isCall : c ∈ d.calls.entries) (unseated : d.Unseated jc.id) (room : c.parts.length < maxCallParticipants)
    (gone : ∀ seat ∈ c.parts, seat.user ≠ jc.user) (deviceKey : Key) (codecs movedFrom : Nat)
    (members invites : List Nat) (random : Option Token) (starting : Bool) (empty : starting = true → c.parts = [])
    (seated : d.seatJoiner jc deviceKey codecs members invites random c starting movedFrom = after) :
    (∃ between old new frame conns, Changes may d between ∧
      Retold may between after old new (some (jc.id, frame)) conns ∧
      Kept between after ∧ old.channel = c.channel ∧ old.callId = c.callId ∧ (d.Live movedFrom → movedFrom ∈ conns)) ∨
    Changes may d after ∧ d.Refused after jc.id ∧ random = none := by
  subst seated
  have same : SameSeats c { c with members } := ⟨rfl, rfl, rfl, rfl, rfl⟩
  have edit : Change may d (d.setCall { c with members }) := ok.editedSeats isCall same
  have editOk := edit.effect.ok ok
  have isNew := ok.mem_setCall isCall same.channel
  have unseatedNow := ok.unseated_setCall isCall same unseated
  have sameConns : (d.setCall { c with members }).conns = d.conns := setCall_conns
  cases random with
  | some token =>
    left
    obtain ⟨new, frame, conns, retold, also, kept⟩ := @Ok.takeSeat _ _ may (d.setCall { c with members })
      { c with members } editOk isNew jc (sameConns ▸ isConn) (live_of_conns sameConns.symm live)
      unseatedNow room gone deviceKey codecs token starting invites movedFrom
    exact ⟨_, _, new, frame, conns, .single edit, retold, kept, rfl, rfl,
      fun isLive => also (live_of_conns sameConns.symm isLive)⟩
  | none =>
    right
    have cleared : Change may (d.setCall { c with members }) (if starting then { d.setCall { c with members } with
            calls := (d.setCall { c with members }).calls.clear (·.channel = c.channel) }
          else if c.parts = [] then (d.setCall { c with members }).callFinish { c with members }
          else d.setCall { c with members }) := by
      have free : c.parts = [] → ∀ other ∈ (d.setCall { c with members }).calls.entries,
          other.channel = c.channel → ∀ seat ∈ other.parts, may.Frees seat := by
        intro none other isOther sameChannel seat mem
        rw [editOk.unique isNew isOther sameChannel] at mem
        simp [none] at mem
      split
      · next starts => exact (finished_clear _ _).change (free (empty starts))
      split
      · next none => exact finished_callFinish.change (free none)
      · exact .refl _
    refine ⟨((single edit).tail cleared).tail (sendCallError_change _), ?_, rfl⟩
    exact refused_sendCallError (edit.toKept.trans cleared.toKept) live _

theorem Ok.joinGranted (ok : d.Ok) {jc : CallConn} (isConn : jc ∈ d.conns)
    (live : d.Live jc.id) (named : channel ≠ 0) (freeOwn : may.out jc.id)
    (freeOther : d.relay = true → ∀ c ∈ d.calls.entries, c.channel = channel → ∀ seat ∈ c.parts,
      seat.user = jc.user → may.Frees seat)
    (hushed : d.relay = true → ∀ c ∈ d.calls.entries, c.channel = channel →
      (∃ seat ∈ c.parts, OfJoiner jc seat) → may.hushed channel)
    (deviceKey : Key) (codecs : Nat) (members invites : List Nat) (random : Option Token) (now : Nat) :
    JoinEnd may d jc channel random (d.joinGranted jc channel deviceKey codecs members invites random now) := by
  unfold CallLoop.joinGranted
  split
  · next noRelay =>
    refine .refused (.single (sendCallError_change _)) (refused_sendCallError (.refl d) live _) ?_
    intro relay
    rw [relay] at noRelay
    cases noRelay
  next relay =>
  have isRelay : d.relay = true := by simpa using relay
  have own : Change may d (d.leaveOwn jc.id channel) := ok.leaveOwn freeOwn
    fun c isCall isChannel seat isSeat isOwn =>
      hushed isRelay c isCall isChannel ⟨seat, isSeat, .inl isOwn⟩
  have ownOk := own.effect.ok ok
  have leftOwn := ok.leaveOwn_spec live.1 channel
  generalize d.leaveOwn jc.id channel = between at own ownOk leftOwn
  have ownLive : between.Live jc.id := live_of_conns own.conns.symm live
  have trimmedOwn : ∀ c ∈ d.calls.entries, c.channel = channel → ∀ c' ∈ between.calls.entries,
      c'.channel = channel → Trimmed (·.conn = jc.id) c c' := fun c isCall isChannel c' isCall' isChannel' =>
    ok.trimmed_of_leftOwn leftOwn isCall' isChannel' isCall isChannel
  have toJoin := @Ok.callToJoin _ _ may between ownOk jc channel now named ownLive (by
    intro c' isCall' isChannel' seat mem isUser
    obtain ⟨c, isCall, trimmed⟩ := leftOwn.trimmed c' isCall' isChannel'
    have isChannel := trimmed.channel.symm.trans isChannel'
    have isSeat := ((trimmed.parts seat).mp mem).1
    exact ⟨freeOther isRelay c isCall isChannel seat isSeat isUser,
      hushed isRelay c isCall isChannel ⟨seat, isSeat, .inr isUser⟩⟩)
  have leaving := single own
  generalize between.callToJoin jc channel now = result at toJoin
  cases toJoin with
  | unavailable changes refused missing =>
    refine .refused (leaving.trans changes) (refused.since own.toKept) fun _ c isCall isChannel => ?_
    obtain ⟨c', isCall', isChannel'⟩ := leftOwn.stays c isCall isChannel
    exact absurd isChannel' (missing c' isCall')
  | @full after c' new isCall' isChannel' changes refused trimmed size unmoved =>
    refine .refused (leaving.trans changes) (refused.since own.toKept) ?_
    intro _ c isCall isChannel ofJoiner
    have first := trimmedOwn c isCall isChannel c' isCall' isChannel'
    refine .inr ⟨?_, fun seat mem isUser => ?_⟩
    · rw [own.callMax] at size
      exact size.trans_lt ((first.trans trimmed).shorter ofJoiner)
    · by_cases isOwn : seat.conn = jc.id
      · exact .inr isOwn
      · exact .inl (unmoved seat ((first.parts seat).mpr ⟨mem, isOwn⟩) isUser)
  | @moved between' after c' old new conns isCall' isChannel' changes retold kept trimmed told refused =>
    refine .told (leaving.trans changes) retold kept (trimmed.channel.trans isChannel') ?_ ?_
      (.inr (refused.since own.toKept))
    · intro c isCall isChannel
      exact trimmed.callId.trans (trimmedOwn c isCall isChannel c' isCall' isChannel').callId
    · intro c isCall isChannel seat mem isUser notOwn isLive
      have first := trimmedOwn c isCall isChannel c' isCall' isChannel'
      exact told seat ((first.parts seat).mpr ⟨mem, notOwn⟩) isUser (live_of_conns own.conns.symm isLive)
  | @running after c' new movedFrom isCall' isChannel' left room =>
    have changes := leaving.tail left.change
    have kept := own.toKept.trans left.change.toKept
    have most := between.callMax.most
    rcases @Ok.seatJoiner _ _ may after _ new (left.change.effect.ok ownOk) jc (kept.conns ▸ isConn)
      (live_of_conns kept.conns.symm live) left.isCall (left.unseated _ leftOwn.unseated)
      (by omega) (fun seat mem => ((left.trimmed.parts seat).mp mem).2) deviceKey codecs
      movedFrom members invites random false nofun rfl with
      ⟨between', old, newer, frame, conns, more, retold, kept', sameChannel, sameId, also⟩ |
      ⟨more, refused, none⟩
    · refine .told (changes.trans more) retold kept' (sameChannel.trans (left.trimmed.channel.trans isChannel'))
        ?_ ?_ (.inl ⟨frame, rfl⟩)
      · intro c isCall isChannel
        exact sameId.trans (left.trimmed.callId.trans (trimmedOwn c isCall isChannel c' isCall' isChannel').callId)
      · intro c isCall isChannel seat mem isUser notOwn isLive
        have first := trimmedOwn c isCall isChannel c' isCall' isChannel'
        rw [← left.moved seat ((first.parts seat).mpr ⟨mem, notOwn⟩) isUser] at isLive ⊢
        exact also (live_of_conns kept.conns.symm isLive)
    · exact .refused (changes.trans more) (refused.since kept) fun _ _ _ _ _ => .inl none
  | @started after c' change missing added empty isChannel' =>
    have changes := leaving.tail change
    have kept := own.toKept.trans change.toKept
    have nowhere : ∀ c ∈ d.calls.entries, c.channel ≠ channel := by
      intro c isCall isChannel
      obtain ⟨old, isOld, same⟩ := leftOwn.stays c isCall isChannel
      exact missing old isOld same
    rcases @Ok.seatJoiner _ _ may after _ c' (change.effect.ok ownOk) jc (kept.conns ▸ isConn)
      (live_of_conns kept.conns.symm live) (added.symm.subset mem_cons_self)
      (by
        intro other isOther seat mem
        rcases mem_cons.mp (added.subset isOther) with rfl | old
        · rw [empty] at mem
          cases mem
        · exact leftOwn.unseated other old seat mem)
      (by rw [empty]; exact Nat.zero_lt_succ _) (by rw [empty]; nofun) deviceKey codecs
      0 members invites random true (fun _ => empty) rfl with
      ⟨between', old, newer, frame, conns, more, retold, kept', sameChannel, sameId, also⟩ |
      ⟨more, refused, none⟩
    · exact .told (changes.trans more) retold kept' (sameChannel.trans isChannel')
        (fun c isCall isChannel => absurd isChannel (nowhere c isCall))
        (fun c isCall isChannel => absurd isChannel (nowhere c isCall)) (.inl ⟨frame, rfl⟩)
    · exact .refused (changes.trans more) (refused.since kept) fun _ _ _ _ _ => .inl none

theorem JoinEnd.changes {jc : CallConn} {random : Option Token}
    (joinEnd : JoinEnd may d jc channel random after) : Changes may d after := by
  cases joinEnd with
  | told changes retold kept => exact changes.tail ⟨kept, .retold retold⟩
  | refused changes => exact changes

end CallLoop

/-- The connections there are have ids of their own, none of them 0. -/
structure CallLoop.ConnsOk (d : CallLoop Key Token) : Prop where
  next : 0 < d.nextConnId
  ids : ∀ conn ∈ d.conns, 0 < conn.id ∧ conn.id < d.nextConnId
  nodup : (d.conns.map (·.id)).Nodup

/-- A seat is held, or of a connection that has been and is of the seat's user. -/
def CallLoop.Places (d : CallLoop Key Token) (seat : Seat Key Token) : Prop :=
  seat.conn = 0 ∨ seat.conn < d.nextConnId ∧ seat.detachedMs = 0 ∧
    ∀ jc ∈ d.conns, jc.id = seat.conn → jc.user = seat.user

def CallLoop.Placed (d : CallLoop Key Token) : Prop := ∀ c ∈ d.calls.entries, ∀ seat ∈ c.parts, d.Places seat

theorem CallLoop.ConnsOk.same_user (ok : d.ConnsOk) {a b : CallConn} (isA : a ∈ d.conns)
    (isB : b ∈ d.conns) (same : a.id = b.id) : a = b :=
  inj_on_of_nodup_map ok.nodup isA isB same

theorem Reseat.mem {old seats : List (Seat Key Token)} (reseat : Reseat may d old seats)
    {seat : Seat Key Token} (isSeat : seat ∈ seats) :
    seat ∈ old ∨ seat.conn = 0 ∨ (∃ jc ∈ d.conns, jc.id = seat.conn ∧ jc.user = seat.user) ∧ seat.detachedMs = 0 := by
  cases reseat with
  | same => exact .inl isSeat
  | left out free => exact .inl (out.subset (mem_cons_of_mem _ isSeat))
  | held here free =>
    rcases mem_or_eq_of_mem_set isSeat with stays | rfl
    · exact .inl stays
    · exact .inr (.inl rfl)
  | joined room apart unseated live user attached =>
    rcases mem_append.mp isSeat with stays | isNew
    · exact .inl stays
    · rw [mem_singleton.mp isNew]
      exact .inr (.inr ⟨user, attached⟩)

theorem Replaced.before (replaced : Replaced d after c new) {other : Call Key Token}
    (mem : other ∈ after.calls.entries) : other = new ∨ other ∈ d.calls.entries := by
  obtain ⟨-, -, front, back, before, now⟩ := replaced
  rw [now] at mem
  rw [before]
  rcases mem_append.mp mem with first | mem
  · exact .inr (mem_append_left _ first)
  rcases mem_cons.mp mem with isNew | last
  · exact .inl isNew
  · exact .inr (mem_append_right _ (mem_cons_of_mem _ last))

theorem Replaced.mem (replaced : Replaced d after c new) : c ∈ d.calls.entries ∧ new ∈ after.calls.entries := by
  obtain ⟨-, -, front, back, before, now⟩ := replaced
  rw [before, now]
  exact ⟨mem_append_right _ mem_cons_self, mem_append_right _ mem_cons_self⟩

theorem CallLoop.Placed.replaced (placed : d.Placed) (connsOk : d.ConnsOk) (replaced : Replaced d after c new)
    (reseat : Reseat may d c.parts new.parts) (kept : Kept d after) : after.Placed := by
  intro other isOther seat isSeat
  have stays : d.Places seat → after.Places seat := by
    unfold Places
    rw [kept.conns, kept.connIds]
    exact id
  rcases replaced.before isOther with rfl | old
  · rcases reseat.mem isSeat with old | held | ⟨⟨jc, isConn, isId, isUser⟩, attached⟩
    · exact stays (placed c replaced.mem.1 seat old)
    · exact .inl held
    refine stays (.inr ⟨isId ▸ (connsOk.ids jc isConn).2, attached, fun jc' isConn' same => ?_⟩)
    rw [connsOk.same_user isConn' isConn (same.trans isId.symm)]
    exact isUser
  · exact stays (placed other old seat isSeat)

theorem CallLoop.Placed.of_calls (placed : d.Placed) (kept : Kept d after)
    (calls : ∀ c ∈ after.calls.entries, c ∈ d.calls.entries ∨ c.parts = []) : after.Placed := by
  intro c isCall seat isSeat
  rcases calls c isCall with old | empty
  · have places := placed c old seat isSeat
    unfold Places at places ⊢
    rwa [kept.conns, kept.connIds]
  · simp [empty] at isSeat

theorem Change.placed (change : Change may d after) (connsOk : d.ConnsOk) (placed : d.Placed) : after.Placed := by
  have kept := change.toKept
  cases change.effect with
  | quiet calls => exact placed.of_calls kept fun c mem => .inl (calls ▸ mem)
  | keyed isCall isSeat sender isConn isOther calls =>
    exact placed.of_calls kept fun c mem => .inl (calls ▸ mem)
  | @edited c new replaced epoch parts =>
    have reseat : Reseat may d c.parts new.parts := by
      rw [parts]
      exact .same _
    exact placed.replaced connsOk replaced reseat kept
  | silent replaced hushed epoch out free => exact placed.replaced connsOk replaced (.left out free) kept
  | retold it => exact placed.replaced connsOk it.replaced it.reseat kept
  | ended gone =>
    obtain ⟨front, back, before, now⟩ := gone
    refine placed.of_calls kept fun c mem => .inl ?_
    rw [now] at mem
    rw [before]
    exact perm_middle.symm.subset (mem_cons_of_mem _ mem)
  | started added new named parts =>
    refine placed.of_calls kept fun c mem => ?_
    rcases mem_cons.mp (added.subset mem) with rfl | old
    · exact .inr parts
    · exact .inl old

theorem Kept.connsOk (kept : Kept d after) (ok : d.ConnsOk) : after.ConnsOk := by
  constructor
  · rw [kept.connIds]
    exact ok.next
  · rw [kept.conns, kept.connIds]
    exact ok.ids
  · rw [kept.conns]
    exact ok.nodup

theorem Changes.placed (changes : Changes may d after) (connsOk : d.ConnsOk) (placed : d.Placed) : after.Placed := by
  induction changes with
  | refl => exact placed
  | tail before change ih => exact change.placed ((Changes.kept before).connsOk connsOk) ih

namespace CallLoop

variable {conn idx : Nat} {seat : Seat Key Token}

theorem foldl_changes {α : Type} {f : CallLoop Key Token → α → CallLoop Key Token} {Holds : CallLoop Key Token → Prop}
    {l : List α} (each : ∀ between, ∀ a ∈ l, Holds between → Changes may between (f between a) ∧ Holds (f between a))
    (holds : Holds d) : Changes may d (l.foldl f d) := by
  induction l generalizing d with
  | nil => exact .refl
  | cons a l ih =>
    obtain ⟨changes, kept⟩ := each d a mem_cons_self holds
    exact changes.trans (ih (fun between b isLater => each between b (mem_cons_of_mem a isLater)) kept)

theorem Ok.inviteGranted (ok : d.Ok) (jc : CallConn) (channel : Nat) (members users : List Nat) :
    Changes may d (d.inviteGranted jc channel members users) := by
  unfold CallLoop.inviteGranted
  split
  · exact .single (sendCallError_change _)
  next c idx found =>
  obtain ⟨isCall, -⟩ := callOfConn_spec found
  have same : SameSeats c { c with members } := ⟨rfl, rfl, rfl, rfl, rfl⟩
  split
  · exact .single (sendCallError_change _)
  dsimp only
  split
  · exact (single (ok.editedSeats isCall same)).tail (sendCallError_change _)
  next new added done =>
  have edit := @Ok.editedSeats _ _ may d c new ok isCall (same.trans (sameSeats_addInvites done))
  split
  · exact .single edit
  · exact (single edit).tail sendState_change

variable {jc : CallConn}

theorem Ok.leave (ok : d.Ok) (free : may.out jc.id) (channel : Nat) : Changes may d (match d.callOfConn jc.id with
      | some (c, idx) => if c.channel = channel then d.callDrop c idx else d
      | none => d) := by
  split
  · next c idx found =>
    obtain ⟨isCall, seat, here, isConn⟩ := callOfConn_spec found
    split
    · exact .single (ok.callDropTell isCall here (.inr (isConn ▸ free)) 0)
    · exact .refl
  · exact .refl

theorem Ok.decline (ok : d.Ok) (jc : CallConn) (channel : Nat) : Changes may d (d.callFrame jc (.decline channel)) := by
  unfold callFrame
  dsimp only
  split
  · next c found =>
    split
    · have edit := @Ok.editedSeats _ _ may d c _ ok (callFind_spec found).1 (sameSeats_uninvite jc.user)
      exact (single edit).tail sendState_change
    · exact .refl
  · exact .refl

theorem callEnd_changes (free : ∀ conn, may.out conn) (jc : CallConn) (channel : Nat) :
    Changes may d (d.callFrame jc (.end_ channel)) := by
  unfold callFrame
  dsimp only
  split
  · exact .single (sendCallError_change _)
  next c found =>
  split
  · exact .single (sendCallError_change _)
  · exact .single (finished_callFinish.change fun _ _ _ seat _ => .inr (free seat.conn))

theorem Ok.share (ok : d.Ok) (jc : CallConn) (channel : Nat) (on : Bool) :
    Changes may d (d.callFrame jc (.share channel on)) := by
  unfold callFrame
  dsimp only
  split
  · exact .single (sendCallError_change _)
  next c idx found =>
  obtain ⟨isCall, seat, here, isConn⟩ := callOfConn_spec found
  split
  · exact .single (sendCallError_change _)
  by_cases changed : (if on then jc.id else if c.sharerConn = jc.id then 0 else c.sharerConn) ≠ c.sharerConn
  · rw [if_pos changed]
    have sharer : SharerKept c { c with
        sharerConn := if on then jc.id else if c.sharerConn = jc.id then 0 else c.sharerConn } := by
      cases on with
      | true => exact .inr (.inl ⟨seat, mem_of_getElem? here, isConn⟩)
      | false =>
        by_cases own : c.sharerConn = jc.id
        · exact .inl (by simp [own])
        · exact .inr (.inr ⟨by simp [own], fun _ mem _ => mem⟩)
    have edit := @Ok.edited _ _ may d c { c with
        sharerConn := if on then jc.id else if c.sharerConn = jc.id then 0 else c.sharerConn }
      ok isCall rfl rfl rfl rfl sharer
    exact (single edit).tail sendState_change
  · rw [if_neg changed]

theorem keyFor_change (isConn : jc ∈ d.conns) (isCall : c ∈ d.calls.entries) (isSeat : seat ∈ c.parts)
    (isOwn : seat.conn = jc.id) {other : Seat Key Token} (isOther : other ∈ c.parts) (key : List UInt8) :
    Change may d (d.tell [other.conn] (.keyFor ⟨c.channel, c.callId, c.epoch, jc.user, key⟩)) := by
  refine ⟨kept_tell _, @Effect.keyed _ _ may d _ c seat other jc key isCall isSeat isConn isOwn isOther rfl rfl ?_⟩
  rw [news_tell rfl]
  cases isThere : (d.findById other.conn).isSome with
  | true =>
    right
    simp [isThere]
  | false =>
    left
    simp [isThere]

theorem key_changes (isConn : jc ∈ d.conns) (channel call epoch : Nat) (entries : List (Nat × List UInt8)) :
    Changes may d (d.callFrame jc (.key channel call epoch entries)) := by
  unfold callFrame
  dsimp only
  split
  · exact .single (sendCallError_change _)
  next c idx found =>
  obtain ⟨isCall, seat, here, isOwn⟩ := callOfConn_spec found
  split
  · exact .single (sendCallError_change _)
  split
  · exact .refl
  -- the loop only sends, so the call and the sender are as they were at every entry
  refine @foldl_changes _ _ may d _ _
    (fun between => between.calls = d.calls ∧ between.conns = d.conns) entries ?_ ⟨rfl, rfl⟩
  rintro between entry - ⟨calls, conns⟩
  split
  · exact ⟨.refl, calls, conns⟩
  next other isOther =>
  split
  · exact ⟨.refl, calls, conns⟩
  obtain ⟨k, -, isHere⟩ := Option.bind_eq_some_iff.mp isOther
  refine ⟨.single (keyFor_change (conns ▸ isConn) (calls ▸ isCall)
    (mem_of_getElem? here) isOwn (mem_of_getElem? isHere) entry.2), calls, conns⟩

theorem Ok.expireSeats (ok : d.Ok) (connsOk : d.ConnsOk) (placed : d.Placed) (now grace channel : Nat)
    (k : Nat) : Changes may d (d.expireSeats now grace channel k) := by
  induction k generalizing d with
  | zero => exact .refl
  | succ k ih =>
    unfold expireSeats
    split
    · exact ih ok connsOk placed
    next c found =>
    split
    · next expired =>
      obtain ⟨isCall, -⟩ := callFind_spec found
      cases here : c.parts[k]? with
      | none =>
        simp [here] at expired
      | some seat =>
        simp only [here, Option.any_some, decide_eq_true_eq] at expired
        have free : may.Frees seat := by
          rcases placed c isCall seat (mem_of_getElem? here) with held | ⟨-, attached, -⟩
          · exact .inl held
          · exact absurd attached expired.1
        have dropped := @Ok.callDropTell _ _ may d c k seat ok isCall here free 0
        exact (single dropped).trans (ih (dropped.effect.ok ok)
          (dropped.toKept.connsOk connsOk) (dropped.placed connsOk placed))
    · exact ih ok connsOk placed

/-- A call of a demo has lasted as long as one may. -/
def TimedOut (d : CallLoop Key Token) (now : Nat) : Prop :=
  d.demo = true ∧ ∃ c ∈ d.calls.entries, c.startedAt ≠ 0 ∧ since now c.startedAt ≥ demoCallMaxMs

theorem Ok.callExpireDetached (ok : d.Ok) (connsOk : d.ConnsOk) (placed : d.Placed) {now : Nat}
    (free : d.TimedOut now → ∀ conn, may.out conn) (grace : Nat) : Changes may d (d.callExpireDetached now grace) := by
  refine @foldl_changes _ _ may d _ _ (Changes may d) _ (fun between c isCall reached => ?_) .refl
  have changes : Changes may between (if between.demo ∧ c.startedAt ≠ 0 ∧
      since now c.startedAt ≥ demoCallMaxMs then between.callFinish c
      else between.expireSeats now grace c.channel c.parts.length) := by
    split
    · next old =>
      refine .single (finished_callFinish.change fun _ _ _ seat _ => .inr ?_)
      exact free ⟨reached.kept.demo ▸ old.1, c, isCall, old.2⟩ seat.conn
    · exact (reached.ok ok).expireSeats (reached.kept.connsOk connsOk) (reached.placed connsOk placed)
        now grace c.channel c.parts.length
  exact ⟨changes, reached.trans changes⟩

theorem tell_change {ids : List Nat} {frame : CallDown Key Token} (isNews : frame.isNews = false) :
    Change may d (d.tell ids frame) :=
  .quiet rfl rfl (news_tell_other isNews) (kept_tell _)

theorem greet_changes (conn user : Nat) : Changes may d (d.greet conn user) :=
  @foldl_changes _ _ may d _ _ (fun _ => True) _ (fun _ _ _ _ => ⟨.single (tell_change rfl), trivial⟩) trivial

end CallLoop

/-- The connections change, and what was asked for; nothing else does. A connection that was
not there has a new id. -/
structure Rewired (d after : CallLoop Key Token) : Prop where
  calls : after.calls = d.calls
  callIds : after.nextCallId = d.nextCallId
  sent : after.sent = d.sent
  relay : after.relay = d.relay
  connIds : d.nextConnId ≤ after.nextConnId
  conns : ∀ conn ∈ after.conns, (∃ old ∈ d.conns, old.id = conn.id ∧ old.user = conn.user) ∨
    conn.id = d.nextConnId ∧ d.nextConnId < after.nextConnId
  nodup : d.ConnsOk → (after.conns.map (·.id)).Nodup

theorem Rewired.news (rewired : Rewired d after) : after.news = d.news := by
  unfold CallLoop.news CallLoop.frames
  rw [rewired.sent]

theorem Rewired.of_conns (calls : after.calls = d.calls) (callIds : after.nextCallId = d.nextCallId)
    (sent : after.sent = d.sent) (relay : after.relay = d.relay) (conns : after.conns = d.conns)
    (connIds : after.nextConnId = d.nextConnId) : Rewired d after where
  calls
  callIds
  sent
  relay
  connIds := Nat.le_of_eq connIds.symm
  conns conn mem := .inl ⟨conn, conns ▸ mem, rfl, rfl⟩
  nodup ok := conns ▸ ok.nodup

theorem Rewired.of_jobs (jobs : List (CallJob Key)) : Rewired d { d with jobs } := .of_conns rfl rfl rfl rfl rfl rfl

theorem Rewired.ok (rewired : Rewired d after) (ok : d.Ok) : after.Ok :=
  ok.of_calls (congrArg _ rewired.calls) rewired.callIds

theorem Rewired.connsOk (rewired : Rewired d after) (ok : d.ConnsOk) : after.ConnsOk where
  next := Nat.lt_of_lt_of_le ok.next rewired.connIds
  ids conn mem := by
    rcases rewired.conns conn mem with ⟨old, isOld, same, -⟩ | ⟨fresh, more⟩
    · rw [← same]
      exact ⟨(ok.ids old isOld).1, Nat.lt_of_lt_of_le (ok.ids old isOld).2 rewired.connIds⟩
    · rw [fresh]
      exact ⟨ok.next, more⟩
  nodup := rewired.nodup ok

theorem Rewired.placed (rewired : Rewired d after) (placed : d.Placed) : after.Placed := by
  intro c isCall seat isSeat
  rw [rewired.calls] at isCall
  rcases placed c isCall seat isSeat with held | ⟨below, attached, users⟩
  · exact .inl held
  refine .inr ⟨below.trans_le rewired.connIds, attached, fun jc isConn same => ?_⟩
  rcases rewired.conns jc isConn with ⟨old, isOld, sameId, sameUser⟩ | ⟨fresh, -⟩
  · exact sameUser ▸ users old isOld (sameId.trans same)
  · omega

def CallJob.joining : CallJob Key → Option Nat
  | .join _ channel _ _ _ => some channel
  | .invite _ _ => none

namespace CallLoop

def joining (d : CallLoop Key Token) : CallEvent Key Token → Option Nat
  | .result i (.granted _ _) _ _ => d.jobs[i]?.bind CallJob.joining
  | _ => none

/-- The reader grants a call only in a conversation there is; none has the id 0. -/
def Granted (d : CallLoop Key Token) (event : CallEvent Key Token) : Prop := d.joining event ≠ some 0

instance (d : CallLoop Key Token) (event : CallEvent Key Token) : Decidable (d.Granted event) :=
  inferInstanceAs (Decidable (_ ≠ _))

def joiner? (d : CallLoop Key Token) : CallEvent Key Token → Option (CallConn × Nat)
  | .result i (.granted _ _) _ _ =>
    match d.jobs[i]? with
    | some (.join conn channel gen _ _) =>
      (d.findById conn).bind fun jc => if gen = jc.callGen then some (jc, channel) else none
    | _ => none
  | _ => none

/-- The join finds seats of the connection or its user in the call, and takes them out. -/
def Reseats (d : CallLoop Key Token) (jc : CallConn) (channel : Nat) : Prop :=
  d.relay = true ∧ ∃ c ∈ d.calls.entries, c.channel = channel ∧ ∃ seat ∈ c.parts, OfJoiner jc seat

def MayLose (d : CallLoop Key Token) (conn : Nat) : CallEvent Key Token → Prop
  | .closed other _ => conn = other
  | .frame other (.leave _) => conn = other
  | .frame _ (.end_ _) => True
  | .swept token => ∃ c ∈ d.calls.entries, ∃ seat ∈ c.parts, seat.token = token ∧ seat.conn = conn
  | .expire now _ => d.TimedOut now
  | event => ∃ jc channel, d.joiner? event = some (jc, channel) ∧
      (conn = jc.id ∨ d.relay = true ∧ ∃ c ∈ d.calls.entries, c.channel = channel ∧
        ∃ seat ∈ c.parts, seat.user = jc.user ∧ seat.conn = conn)

def leeway (d : CallLoop Key Token) (event : CallEvent Key Token) : Leeway where
  hushed channel := ∃ jc, d.joiner? event = some (jc, channel) ∧ d.Reseats jc channel
  out conn := d.MayLose conn event

variable {jc : CallConn}

theorem findById_spec {conn : Nat} (found : d.findById conn = some jc) : jc ∈ d.conns ∧ jc.id = conn :=
  ⟨mem_of_find?_eq_some found, by simpa using find?_some found⟩

theorem ConnsOk.live (ok : d.ConnsOk) {conn : Nat} (found : d.findById conn = some jc) : d.Live jc.id := by
  obtain ⟨mem, same⟩ := findById_spec found
  refine ⟨Nat.ne_of_gt (ok.ids jc mem).1, ?_⟩
  rw [same, found]
  rfl

theorem rewired_setConn (isConn : jc ∈ d.conns) (gen joinCh : Nat) :
    Rewired d (d.setConn { jc with callGen := gen, callJoinCh := joinCh }) where
  calls := rfl
  callIds := rfl
  sent := rfl
  relay := rfl
  connIds := le_rfl
  conns conn mem := by
    left
    obtain ⟨old, isOld, same⟩ := mem_map.mp mem
    split at same
    · cases same
      exact ⟨jc, isConn, rfl, rfl⟩
    · exact ⟨old, isOld, congrArg _ same, congrArg _ same⟩
  nodup ok := by
    have sameIds : (d.setConn { jc with callGen := gen, callJoinCh := joinCh }).conns.map (·.id) =
        d.conns.map (·.id) := by
      unfold setConn
      rw [map_map]
      refine map_congr_left fun other _ => ?_
      simp only [Function.comp_apply]
      split
      · next same => exact same.symm
      · rfl
    rw [sameIds]
    exact ok.nodup

theorem Ok.callFrame (ok : d.Ok) (isConn : jc ∈ d.conns) (frame : CallUp Key)
    (freeOwn : (∃ channel, frame = .leave channel) → may.out jc.id)
    (freeAll : (∃ channel, frame = .end_ channel) → ∀ conn, may.out conn) :
    ∃ before, Rewired d before ∧ Changes may before (d.callFrame jc frame) := by
  cases frame with
  | join channel deviceKey invite codecs =>
    have kept := rewired_setConn isConn (jc.callGen + 1) channel
    refine ⟨d.callFrame jc (.join channel deviceKey invite codecs), ?_, .refl⟩
    exact { kept with }
  | invite channel users => exact ⟨d.callFrame jc (.invite channel users), .of_jobs _, .refl⟩
  | leave channel =>
    have kept : Rewired d (if jc.callJoinCh = channel then
        d.setConn { jc with callGen := jc.callGen + 1, callJoinCh := 0 } else d) := by
      split
      · exact rewired_setConn isConn _ _
      · exact .of_jobs d.jobs
    exact ⟨_, kept, (kept.ok ok).leave (freeOwn ⟨channel, rfl⟩) channel⟩
  | decline channel => exact ⟨d, .of_jobs d.jobs, ok.decline jc channel⟩
  | end_ channel => exact ⟨d, .of_jobs d.jobs, callEnd_changes (freeAll ⟨channel, rfl⟩) jc channel⟩
  | share channel on => exact ⟨d, .of_jobs d.jobs, ok.share jc channel on⟩
  | key channel call epoch entries => exact ⟨d, .of_jobs d.jobs, key_changes isConn channel call epoch entries⟩

variable [DecidableEq Token] {event : CallEvent Key Token}

theorem joiner?_spec {channel : Nat} (joins : d.joiner? event = some (jc, channel)) :
    ∃ i members users random now deviceKey codecs, event = .result i (.granted members users) random now ∧
      d.jobs[i]? = some (.join jc.id channel jc.callGen deviceKey codecs) ∧
      d.findById jc.id = some jc ∧
      d.step event = { d with jobs := d.jobs.eraseIdx i }.joinGranted jc channel deviceKey codecs
        members users random now := by
  unfold joiner? at joins
  split at joins
  · next i members users random now =>
    split at joins
    · next conn channel' gen deviceKey codecs isJob =>
      obtain ⟨jc', found, same⟩ := Option.bind_eq_some_iff.mp joins
      split at same
      · next current =>
        cases same
        have isId := (findById_spec found).2
        subst isId current
        refine ⟨i, members, users, random, now, deviceKey, codecs, rfl, isJob, found, ?_⟩
        have foundNow : ({ d with jobs := d.jobs.eraseIdx i } : CallLoop Key Token).findById jc.id = some jc := found
        unfold step
        simp only [isJob]
        unfold callResult
        simp only [foundNow, ne_eq, not_true_eq_false, if_false]
      · cases same
    · cases joins
  · cases joins

theorem Ok.step_join (ok : d.Ok) (connsOk : d.ConnsOk) (granted : d.Granted event)
    {channel : Nat} (joins : d.joiner? event = some (jc, channel)) :
    ∃ i answer random now, event = .result i answer random now ∧ Rewired d { d with jobs := d.jobs.eraseIdx i } ∧
      JoinEnd (d.leeway event) { d with jobs := d.jobs.eraseIdx i } jc channel random (d.step event) := by
  obtain ⟨i, members, users, random, now, deviceKey, codecs, rfl, isJob, found, isStep⟩ := joiner?_spec joins
  have kept : Rewired d { d with jobs := d.jobs.eraseIdx i } := .of_jobs _
  refine ⟨i, _, random, now, rfl, kept, ?_⟩
  rw [isStep]
  have named : channel ≠ 0 := by
    rintro rfl
    refine granted ?_
    rw [joining, isJob]
    rfl
  have own : (d.leeway (.result i (.granted members users) random now)).out jc.id := ⟨jc, channel, joins, .inl rfl⟩
  refine (kept.ok ok).joinGranted (findById_spec found).1 (connsOk.live found) named own ?_ ?_
    deviceKey codecs members users random now
  · intro relay c isCall isChannel seat isSeat isUser
    exact .inr ⟨jc, channel, joins, .inr ⟨relay, c, isCall, isChannel, seat, isSeat, isUser, rfl⟩⟩
  · intro relay c isCall isChannel ofJoiner
    exact ⟨jc, joins, relay, c, isCall, isChannel, ofJoiner⟩

theorem Ok.step_result (ok : d.Ok) {i : Nat} {answer : CallAnswer} {random : Option Token} {now : Nat}
    (noJoin : d.joiner? (.result i answer random now) = none) :
    ∃ before, Rewired d before ∧ Changes may before (d.step (.result i answer random now)) := by
  unfold step
  dsimp only
  split
  · next job isJob =>
    have kept : Rewired d { d with jobs := d.jobs.eraseIdx i } := .of_jobs _
    refine ⟨_, kept, ?_⟩
    cases answer with
    | granted members users =>
      cases job with
      | join conn channel gen deviceKey codecs =>
        unfold callResult
        dsimp only
        split
        · exact .refl
        next jc found =>
        have sameFound : d.findById conn = some jc := found
        split
        · exact .refl
        · next current =>
          simp [joiner?, isJob, sameFound, not_not.mp current] at noJoin
      | invite conn channel =>
        unfold callResult
        dsimp only
        split
        · exact .refl
        · next jc found => exact (kept.ok ok).inviteGranted jc channel members users
    | denied code =>
      cases job with
      | join => exact .single (sendCallError_change _)
      | invite => exact .single (sendCallError_change _)
  · exact ⟨d, .of_jobs d.jobs, .refl⟩

theorem Ok.step (ok : d.Ok) (connsOk : d.ConnsOk) (placed : d.Placed) (granted : d.Granted event) :
    ∃ before, Rewired d before ∧ Changes (d.leeway event) before (d.step event) := by
  cases event with
  | signIn user =>
    refine ⟨{ d with
      conns := d.conns ++ [CallConn.mk d.nextConnId user 0 0], nextConnId := d.nextConnId + 1 },
      ⟨rfl, rfl, rfl, rfl, Nat.le_succ _, fun conn mem => ?_, fun ok => ?_⟩, greet_changes d.nextConnId user⟩
    · rcases mem_append.mp mem with old | new
      · exact .inl ⟨conn, old, rfl, rfl⟩
      · rw [mem_singleton.mp new]
        exact .inr ⟨rfl, Nat.lt_succ_self _⟩
    · rw [map_append, nodup_append]
      refine ⟨ok.nodup, nodup_singleton _, ?_⟩
      intro a isA b isB
      obtain ⟨conn, isConn, rfl⟩ := mem_map.mp isA
      rw [mem_singleton.mp isB]
      exact Nat.ne_of_lt (ok.ids conn isConn).2
  | closed conn now =>
    have kept : Rewired d { d with conns := d.conns.filter (·.id ≠ conn) } := ⟨rfl, rfl, rfl, rfl, Nat.le_refl _,
        fun other mem => .inl ⟨other, (mem_filter.mp mem).1, rfl, rfl⟩,
        fun ok => ok.nodup.sublist (filter_sublist.map _)⟩
    exact ⟨_, kept, .single ((kept.ok ok).callConnClosed rfl now)⟩
  | frame conn frame =>
    unfold CallLoop.step
    dsimp only
    split
    · next jc found =>
      obtain ⟨isConn, isId⟩ := findById_spec found
      refine ok.callFrame isConn frame ?_ ?_
      · rintro ⟨channel, rfl⟩
        exact isId
      · rintro ⟨channel, rfl⟩ other
        exact trivial
    · exact ⟨d, .of_jobs d.jobs, .refl⟩
  | result i answer random now =>
    cases joins : d.joiner? (.result i answer random now) with
    | none => exact ok.step_result joins
    | some joiner =>
      obtain ⟨i, answer, random, now, -, rewired, joinEnd⟩ := ok.step_join connsOk granted joins
      exact ⟨_, rewired, joinEnd.changes⟩
  | swept token =>
    refine ⟨d, .of_jobs d.jobs, ?_⟩
    change Changes _ d (d.callDropToken token)
    rcases callDropToken_eq d token with same | ⟨c, isCall, idx, seat, here, isToken, dropped⟩
    · rw [same]
    rw [dropped]
    refine .single (ok.callDropTell isCall here (.inr ?_) _)
    exact ⟨c, isCall, seat, mem_of_getElem? here, isToken, rfl⟩
  | expire now grace =>
    exact ⟨d, .of_jobs d.jobs, ok.callExpireDetached connsOk placed (fun timedOut _ => timedOut) grace⟩
  | configure callMax => exact ⟨d.step (.configure callMax), .of_conns rfl rfl rfl rfl rfl rfl, .refl⟩

def after? (d : CallLoop Key Token) (event : CallEvent Key Token) : Option (CallLoop Key Token) :=
  some (d.step event)

structure Sane (d : CallLoop Key Token) : Prop where
  ok : d.Ok
  connsOk : d.ConnsOk
  placed : d.Placed

omit [DecidableEq Token] in
theorem sane_start (callMax : CallMax) (relay demo : Bool) (advertisedPort : Nat) :
    (start callMax relay demo advertisedPort : CallLoop Key Token).Sane := by
  refine ⟨⟨?_, ?_, ?_, ?_⟩, ⟨Nat.one_pos, nofun, .nil⟩, ?_⟩
  · nofun
  · exact .nil
  · nofun
  · nofun
  · nofun

theorem Sane.step (sane : d.Sane) (granted : d.Granted event) : (d.step event).Sane := by
  obtain ⟨before, rewired, changes⟩ := sane.ok.step sane.connsOk sane.placed granted
  have connsOk := rewired.connsOk sane.connsOk
  exact ⟨changes.ok (rewired.ok sane.ok), changes.kept.connsOk connsOk,
    changes.placed connsOk (rewired.placed sane.placed)⟩

end CallLoop

end OpenChime.Daemon
