import OpenChime.Client.Transcript
import OpenChime.Lib.Run
import Mathlib.Algebra.BigOperators.Group.List.Basic

/-! The live badge against the recount. A message event adds what the notification rule
says of the message in hand; `oc_model_set_read_marker` asks the same rule of every
entry past the marker. The event reads the message back as the last entry, which is
another message's text when it arrived out of order. -/

set_option autoImplicit false

namespace OpenChime.Client

open Shared Ordered List Option

namespace Model

/-- The badge is what `oc_model_set_read_marker` would compute at the same marker. -/
def BadgeExact (m : Model) (channelId : Nat) : Prop :=
  ∀ c ∈ m.channel channelId, ∀ c' ∈ (m.setReadMarker channelId c.readMarker).channel channelId,
    c.unread = c'.unread ∧ c.priorityUnread = c'.priorityUnread

def Recounted (m : Model) (c : Channel) : Prop := (c.unread, c.priorityUnread) = m.recount c c.readMarker

def RecountedAt (m : Model) (channelId : Nat) : Prop := ∀ c ∈ m.channel channelId, m.Recounted c

variable {m : Model} {channelId : Nat}

variable {c : Channel} {after : Model} {e : MessageEv}

theorem channel_setReadMarker (found : m.channel channelId = some c) (marker : Nat) :
    (m.setReadMarker channelId marker).channel channelId = some { c with
        readMarker := marker, unread := (m.recount c marker).1
        priorityUnread := (m.recount c marker).2, srvUnread := (m.recount c marker).1 } := by
  obtain ⟨named, front, back, -, others, change⟩ := channel_eq_some found
  exact channel_of_split (change _) named others

theorem badgeExact_iff : m.BadgeExact channelId ↔ m.RecountedAt channelId := by
  refine forall_congr' fun c => ⟨fun exact found => ?_, fun counted found c' found' => ?_⟩
  · obtain ⟨unread, priority⟩ := exact found _ (channel_setReadMarker found _)
    exact Prod.ext unread priority
  · rw [channel_setReadMarker found] at found'
    obtain rfl := some.inj found'
    exact ⟨congrArg Prod.fst (counted found), congrArg Prod.snd (counted found)⟩

def SameRoster (m after : Model) : Prop := ∃ channels queue skipped,
  after = { m with channels := channels, listenQueue := queue, listenSkipped := skipped }

theorem SameRoster.trans {m last : Model} (first : m.SameRoster after)
    (second : after.SameRoster last) : m.SameRoster last := by
  obtain ⟨channels, queue, skipped, rfl⟩ := first
  obtain ⟨channels', queue', skipped', rfl⟩ := second
  exact ⟨channels', queue', skipped', rfl⟩

theorem channelEnsure_sameRoster (m : Model) (channelId : Nat) : m.SameRoster (m.channelEnsure channelId) := by
  unfold channelEnsure
  split <;> exact ⟨_, _, _, rfl⟩

theorem listen_sameRoster (m : Model) (e : MessageEv) : m.SameRoster (m.listen e) := by
  unfold listen
  split
  · split <;> exact ⟨_, _, _, rfl⟩
  · exact ⟨_, _, _, rfl⟩

theorem onMessage_sameRoster (m : Model) (e : MessageEv) : m.SameRoster (m.onMessage e) := by
  refine (m.channelEnsure_sameRoster e.channelId).trans ?_
  unfold onMessage
  dsimp only
  split
  · exact ⟨_, _, _, rfl⟩
  split
  · exact SameRoster.trans ⟨_, _, _, rfl⟩ (listen_sameRoster _ e)
  · exact ⟨_, _, _, rfl⟩

theorem SameRoster.verdict (same : m.SameRoster after) : after.verdict = m.verdict := by
  obtain ⟨channels, queue, skipped, rfl⟩ := same
  rfl

theorem counted_congr {c' : Channel} (roster : m.SameRoster after) (muted : c'.muted = c.muted)
    (level : c'.notifyLevel = c.notifyLevel) (marker : Nat) : after.counted c' marker = m.counted c marker := by
  funext msg
  have settings : ∀ authorId stored body, m.verdict c' authorId stored body = m.verdict c authorId stored body := by
    intro authorId stored body
    simp only [Model.verdict, muted, level]
  simp only [counted, roster.verdict, settings]

theorem counted_setAction (m : Model) (c : Channel) (marker : Nat) (msg : Msg) (e : MessageEv) :
    m.counted c marker (msg.setAction e) = m.counted c marker msg := by
  unfold Msg.setAction
  split <;> rfl

theorem recount_modifyLast (m : Model) (c : Channel) (marker : Nat) (e : MessageEv) :
    m.recount (c.modifyLast (·.setAction e)) marker = m.recount c marker := by
  have settings : m.counted (c.modifyLast (·.setAction e)) marker = m.counted c marker := rfl
  rw [recount, settings, recount]
  rcases eq_nil_or_concat' c.msgs with none | ⟨front, last, split⟩
  · simp [Channel.modifyLast, none]
  · rw [Channel.modifyLast_concat _ split, split]
    simp [counted_setAction]

theorem recount_append (appended : (c.append e).2 = true) (marker : Nat) :
    m.recount (c.append e).1 marker = m.recount c marker + m.counted c marker e.msg := by
  have settings : m.counted (c.append e).1 marker = m.counted c marker := by
    obtain ⟨msgs, highWater, frame⟩ := c.append_frame e
    rw [frame]
    rfl
  have entries : (c.append e).1.msgs.Perm (e.msg :: c.msgs) := c.append_perm appended
  rw [recount, settings, recount, (entries.map _).sum_eq, map_cons, sum_cons, add_comm]

/-- The text the count asks about: the message's own, or the newest one's if that is behind
it. -/
theorem getLast_append (appended : (c.append e).2 = true) : (c.append e).1.msgs.getLast? = some e.msg ∨
      e.messageId ≤ c.highWater ∧ ∃ last ∈ c.msgs.getLast?, e.messageId < last.messageId ∧
        (c.append e).1.msgs.getLast? = some last := by
  unfold Channel.append at appended ⊢
  dsimp only at appended ⊢
  split at appended
  · cases appended
  next fresh =>
  rw [if_neg fresh]
  split
  · next older =>
    have older : e.messageId ≠ 0 ∧ e.messageId ≤ c.highWater := of_decide_eq_true older
    rcases eq_nil_or_concat' (behind Msg.messageId e.messageId c.msgs) with
      none | ⟨mid, last, some⟩
    · left
      simp [none]
    right
    have whole : before Msg.messageId e.messageId c.msgs ++
      behind Msg.messageId e.messageId c.msgs = c.msgs := before_append_behind
    have member : last ∈ behind Msg.messageId e.messageId c.msgs := by simp [some]
    refine ⟨older.2, last, ?_, lt_of_mem_behind member, ?_⟩
    · rw [← whole, some]
      simp
    · rw [some, ← cons_append, ← append_assoc, getLast?_concat]
  · left
    simp

/-- The events whose own text decides their count: redelivered, or placed last, or read
already, or no different from the newest one's by the rule. -/
def OwnCount (m : Model) (c : Channel) (e : MessageEv) : Prop :=
  (e.messageId ≤ c.highWater ∧ e.messageId ∈ c.ids) ∨ c.highWater < e.messageId ∨
    (∀ last ∈ c.msgs.getLast?, last.messageId ≤ e.messageId) ∨ e.messageId ≤ c.readMarker ∨
    ∀ last ∈ c.msgs.getLast?, m.verdict c e.authorId last.broadcastStored last.body =
      m.verdict c e.authorId e.broadcastStored e.body

theorem count_eq {msg : Msg} (last : c.msgs.getLast? = some msg) : m.count c e = { c with
        unread := c.unread + (if e.messageId ≤ c.readMarker then (0, 0)
            else m.verdict c e.authorId msg.broadcastStored msg.body).1
        priorityUnread := c.priorityUnread + (if e.messageId ≤ c.readMarker then (0, 0)
            else m.verdict c e.authorId msg.broadcastStored msg.body).2 } := by
  unfold count
  rw [last]
  by_cases read : e.messageId ≤ c.readMarker
  · simp [read, not_lt.mpr read]
  · simp [read, not_le.mp read]

def added (m : Model) (c : Channel) (e : MessageEv) (last : Msg) : Nat × Nat :=
  if e.messageId ≤ c.readMarker then (0, 0)
  else m.verdict c e.authorId last.broadcastStored last.body

theorem settle_eq {last : Msg} (isLast : (c.append e).1.msgs.getLast? = some last) :
    ∃ highWater, m.settle e (c.append e).1 = { c with
        msgs := ((c.append e).1.modifyLast (·.setAction e)).msgs, highWater
        unread := c.unread + (m.added c e last).1
        priorityUnread := c.priorityUnread + (m.added c e last).2 } := by
  obtain ⟨msgs, highWater, frame⟩ := c.append_frame e
  rw [frame] at isLast ⊢
  obtain ⟨front, split⟩ := getLast?_eq_some_iff.mp isLast
  have final : ({ c with msgs, highWater }.modifyLast (·.setAction e)).msgs.getLast? = some (last.setAction e) := by
    rw [Channel.modifyLast_concat _ split, getLast?_concat]
  have sameText : (last.setAction e).broadcastStored = last.broadcastStored ∧ (last.setAction e).body = last.body := by
    unfold Msg.setAction
    split <;> exact ⟨rfl, rfl⟩
  refine ⟨highWater, ?_⟩
  rw [settle, count_eq final, sameText.1, sameText.2]
  rfl

theorem received_recounted (nonzero : e.messageId ≠ 0) (recounted : m.Recounted c)
    (own : m.OwnCount c e) : m.Recounted (m.received e c) := by
  unfold received
  split
  · next appended =>
    -- `last` is what the count reads; `own` makes it as good as the message itself
    obtain ⟨last, isLast, same⟩ : ∃ last, (c.append e).1.msgs.getLast? = some last ∧
        m.added c e last = m.counted c c.readMarker e.msg := by
      rcases getLast_append appended with itself | ⟨older, last, newest, behindIt, isLast⟩
      · exact ⟨e.msg, itself, by simp [added, Model.counted, MessageEv.msg]⟩
      refine ⟨last, isLast, ?_⟩
      unfold added Model.counted
      by_cases read : e.messageId ≤ c.readMarker
      · simp [read, MessageEv.msg]
      rcases own with redelivered | newer | placedLast | read' | agree
      · simp [Channel.append, nonzero, redelivered] at appended
      · exact absurd older (not_le.mpr newer)
      · exact absurd (placedLast last newest) (not_le.mpr behindIt)
      · exact absurd read' read
      · simpa [read, MessageEv.msg] using agree last newest
    obtain ⟨highWater, after⟩ := settle_eq (m := m) isLast
    have entries := recount_modifyLast m (c.append e).1 c.readMarker e
    rw [recount_append appended] at entries
    have total : m.recount (m.settle e (c.append e).1) c.readMarker =
        m.recount c c.readMarker + m.counted c c.readMarker e.msg := by
      rw [← entries, after]
      obtain ⟨msgs, mark, frame⟩ := c.append_frame e
      rw [frame]
      rfl
    unfold Recounted at recounted ⊢
    have marker : (m.settle e (c.append e).1).readMarker = c.readMarker := by rw [after]
    rw [marker, total, ← recounted, ← same, after]
    rfl
  · exact recounted

theorem SameRoster.recounted (same : m.SameRoster after) : after.Recounted c ↔ m.Recounted c := by
  unfold Recounted recount
  rw [counted_congr same rfl rfl]

theorem onMessage_recounted (nonzero : e.messageId ≠ 0) (recounted : m.RecountedAt e.channelId)
    (own : ∀ c ∈ m.channel e.channelId, m.OwnCount c e) : (m.onMessage e).RecountedAt e.channelId := by
  obtain ⟨c, found, origin⟩ := m.exists_channelEnsure e.channelId
  have roster := m.channelEnsure_sameRoster e.channelId
  have before : m.Recounted c ∧ m.OwnCount c e := by
    rcases origin with known | ⟨-, rfl⟩
    · exact ⟨recounted c known, own c known⟩
    · exact ⟨rfl, .inr (.inr (.inl (by simp [Channel.empty])))⟩
  have kept := received_recounted (m := m.channelEnsure e.channelId) nonzero
    (roster.recounted.mpr before.1) (by unfold OwnCount; rw [roster.verdict]; exact before.2)
  intro c' isIt
  rw [channel_onMessage found] at isIt
  obtain rfl := some.inj isIt
  exact (onMessage_sameRoster m e).recounted.mpr (roster.recounted.mp kept)

end Model

theorem Model.setReadMarker_recounted (m : Model) (channelId marker : Nat) :
    (m.setReadMarker channelId marker).RecountedAt channelId := by
  intro c found
  have roster : m.SameRoster (m.setReadMarker channelId marker) := ⟨_, _, _, rfl⟩
  cases known : m.channel channelId with
  | some before =>
    rw [channel_setReadMarker known] at found
    obtain rfl := some.inj found
    exact roster.recounted.mpr rfl
  | none =>
    have absent : m.channels.findIdx (fun c => decide (c.channelId = channelId)) =
        m.channels.length := by
      rw [findIdx_eq_length]
      exact fun c member => by simpa using find?_eq_none.mp known c member
    have same : (m.setReadMarker channelId marker).channels = m.channels := by
      change m.channels.modify (m.channels.findIdx _) _ = _
      rw [absent, modify_eq_self (le_rfl)]
    have still : m.channel channelId = some c := by
      rw [← found]
      exact (congrArg (List.find? _) same).symm
    simp [known] at still

/-- Every message event of the channel, each counted by its own text: the badge is the
recount. -/
theorem badge_exact {start m : Model} {channelId marker : Nat} {events : List MessageEv}
    (run : Machine.Run (fun m e => some (m.onMessage e)) (fun m e => e.channelId = channelId ∧ e.messageId ≠ 0 ∧
        ∀ c ∈ m.channel channelId, m.OwnCount c e)
      (start.setReadMarker channelId marker) events m) :
    m.BadgeExact channelId := by
  have recounted : m.RecountedAt channelId := by
    refine run.invariant (fun _ m => m.RecountedAt channelId) ?_ ?_
    · exact start.setReadMarker_recounted channelId marker
    · rintro - e before after recounted ⟨rfl, nonzero, own⟩ taken
      obtain rfl := some.inj taken
      exact Model.onMessage_recounted nonzero recounted own
  exact Model.badgeExact_iff.mpr recounted

def hello (messageId : Nat) : MessageEv :=
  { channelId := 1, authorId := 2, messageId, serverTime := 0, msgKind := 0, broadcastStored := false
    authorName := anonymous, body := some (text "hello @ann"), action := false, actionKnown := false
    actionStart := 0, actionLen := 0, actorName := anonymous }

def annHolds : Model :=
  { oneHeld with
    users := [⟨1, text "ann", by decide⟩]
    channels := oneHeld.channels.map ({ · with notifyLevel := .mentions }) }

theorem badge_exact_newest : ((annHolds.setReadMarker 1 0).onMessage (hello 7)).BadgeExact 1 := by
  refine badge_exact (.snoc .nil ⟨rfl, by decide, ?_⟩ rfl)
  intro c found
  obtain rfl := some.inj found
  exact .inr (.inl (by decide))

/-- The mention arrives behind a message that is none: the recount has it, the badge not. -/
theorem mention_uncounted : ¬ ((annHolds.setReadMarker 1 0).onMessage (hello 3)).BadgeExact 1 ∧
      ((annHolds.setReadMarker 1 0).onMessage (hello 3)).channels.map (fun c => (c.ids, c.unread)) = [([3, 5], 0)] ∧
      (((annHolds.setReadMarker 1 0).onMessage (hello 3)).setReadMarker 1 0).channels.map
        (fun c => (c.ids, c.unread)) = [([3, 5], 1)] := by
  refine ⟨fun badge => ?_, by decide, by decide⟩
  have recounted := badge _ rfl _ rfl
  exact absurd recounted.1 (by decide)

end OpenChime.Client
