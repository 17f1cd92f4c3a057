import OpenChime.Client.Model

/-! One message event, one place in the transcript. `channel_append` puts an older message
at its sorted place, but what follows it addresses the last entry of the array; the two
are the same entry only when the message is the newest. -/

set_option autoImplicit false

namespace OpenChime.Client

open Shared Ordered List Channel Msg

namespace Channel

/-- Ascending by nonzero id, with `high_water` the greatest id seen. -/
structure Ordered (c : Channel) : Prop where
  ascending : Ascending messageId c.msgs
  nonzero : ∀ msg ∈ c.msgs, msg.messageId ≠ 0
  marked : ∀ msg ∈ c.msgs, msg.messageId ≤ c.highWater

variable {c : Channel}

theorem mem_ids {id : Nat} : id ∈ c.ids ↔ ∃ msg ∈ c.msgs, msg.messageId = id := mem_map

variable {e : MessageEv}

theorem append_held (ordered : c.Ordered) (held : e.messageId ∈ c.ids) : c.append e = (c, false) := by
  obtain ⟨msg, member, same⟩ := mem_ids.mp held
  have older : e.messageId ≠ 0 ∧ e.messageId ≤ c.highWater :=
    same ▸ ⟨ordered.nonzero msg member, ordered.marked msg member⟩
  simp [append, older, held]

theorem append_frame (c : Channel) (e : MessageEv) : ∃ msgs highWater, (c.append e).1 = { c with msgs, highWater } := by
  unfold append
  dsimp only
  split <;> exact ⟨_, _, rfl⟩

theorem append_perm (c : Channel) (appended : (c.append e).2 = true) : (c.append e).1.msgs.Perm (e.msg :: c.msgs) := by
  unfold append at appended ⊢
  dsimp only at appended ⊢
  split at appended
  · cases appended
  next fresh =>
  rw [if_neg fresh]
  split
  · refine perm_middle.trans (List.Perm.of_eq ?_)
    rw [before_append_behind]
  · exact perm_append_singleton _ _

theorem append_fresh (ordered : c.Ordered) (nonzero : e.messageId ≠ 0) (fresh : e.messageId ∉ c.ids) :
    c.append e = ({ c with
          msgs := before messageId e.messageId c.msgs ++ e.msg :: behind messageId e.messageId c.msgs
          highWater := max c.highWater e.messageId }, true) := by
  by_cases older : e.messageId ≤ c.highWater
  · simp [append, older, fresh, nonzero, not_lt.mpr older]
  have newest : ∀ msg ∈ c.msgs, msg.messageId < e.messageId := fun msg member =>
    (ordered.marked msg member).trans_lt (not_le.mp older)
  have all : before messageId e.messageId c.msgs = c.msgs := before_eq_self newest
  have none : behind messageId e.messageId c.msgs = [] := behind_eq_nil newest
  have later : c.highWater < e.messageId := not_le.mp older
  simp [append, older, all, none, later, Nat.max_eq_right (later.le)]

theorem modifyLast_concat {front : List Msg} {last : Msg} (f : Msg → Msg)
    (split : c.msgs = front ++ [last]) : (c.modifyLast f).msgs = front ++ [f last] := by
  have within : front.length < (front ++ [last]).length := by simp
  simp only [modifyLast, split, length_append, length_singleton, Nat.add_sub_cancel]
  rw [modify_eq_take_cons_drop within]
  simp

end Channel

namespace Model

variable {m : Model} {channelId : Nat} {c : Channel}

theorem channel_eq_some (found : m.channel channelId = some c) :
    c.channelId = channelId ∧ ∃ front back, m.channels = front ++ c :: back ∧
      (∀ other ∈ front, other.channelId ≠ channelId) ∧
      ∀ f, (m.withChannel channelId f).channels = front ++ f c :: back := by
  obtain ⟨same, front, back, split, others⟩ := find?_eq_some_iff_append.mp found
  have same : c.channelId = channelId := by simpa using same
  have others : ∀ other ∈ front, other.channelId ≠ channelId := by simpa using others
  refine ⟨same, front, back, split, others, fun f => ?_⟩
  have passed : front.findIdx (fun c => decide (c.channelId = channelId)) = front.length := by
    simpa using others
  have index : m.channels.findIdx (fun c => decide (c.channelId = channelId)) = front.length := by
    rw [split, findIdx_append, passed, findIdx_cons]
    simp [same]
  have within : front.length < (front ++ c :: back).length := by simp
  change m.channels.modify (m.channels.findIdx _) f = _
  rw [index, split, modify_eq_take_cons_drop within]
  simp

theorem channel_of_split {front back : List Channel}
    (split : m.channels = front ++ c :: back) (named : c.channelId = channelId)
    (others : ∀ other ∈ front, other.channelId ≠ channelId) : m.channel channelId = some c :=
  find?_eq_some_iff_append.mpr ⟨by simpa using named, front, back, split, by simpa using others⟩

theorem exists_channelEnsure (m : Model) (channelId : Nat) :
    ∃ c, (m.channelEnsure channelId).channel channelId = some c ∧ (m.channel channelId = some c ∨
        m.channel channelId = none ∧ c = .empty channelId m.notifyDefault) := by
  unfold channelEnsure
  cases found : m.channel channelId with
  | some c => exact ⟨c, by simp [found], .inl rfl⟩
  | none =>
    refine ⟨.empty channelId m.notifyDefault, ?_, .inr ⟨rfl, rfl⟩⟩
    have absent : m.channels.find? (fun c => decide (c.channelId = channelId)) = none := found
    simp [channel, find?_append, absent, empty]

@[simp] theorem listen_channels (m : Model) (e : MessageEv) : (m.listen e).channels = m.channels := by
  unfold listen
  split
  · split <;> rfl
  · rfl

theorem count_fields (m : Model) (c : Channel) (e : MessageEv) :
    (m.count c e).msgs = c.msgs ∧ (m.count c e).highWater = c.highWater ∧ (m.count c e).channelId = c.channelId := by
  unfold count
  split
  · exact ⟨rfl, rfl, rfl⟩
  · split <;> exact ⟨rfl, rfl, rfl⟩

def received (m : Model) (e : MessageEv) (c : Channel) : Channel :=
  if (c.append e).2 then m.settle e (c.append e).1 else c

theorem onMessage_channels {e : MessageEv} (found : (m.channelEnsure e.channelId).channel e.channelId = some c) :
    ∃ front back, (m.channelEnsure e.channelId).channels = front ++ c :: back ∧
      (∀ other ∈ front, other.channelId ≠ e.channelId) ∧
      (m.onMessage e).channels = front ++ (m.channelEnsure e.channelId).received e c :: back := by
  obtain ⟨-, front, back, split, others, change⟩ := channel_eq_some found
  refine ⟨front, back, split, others, ?_⟩
  unfold onMessage received
  simp only [found]
  split
  · rw [listen_channels, change]
  · exact split

end Model

/-- The entry an event should leave: all it says, and its action when it says that too and
its text has room for it. -/
def MessageEv.entry (e : MessageEv) : Msg :=
  { body := e.body, authorName := e.authorName, authorId := e.authorId, messageId := e.messageId
    serverTime := e.serverTime, deleted := false, kind := e.msgKind
    broadcastStored := e.broadcastStored
    action := if e.actionKnown ∧ e.actionFits e.body then ⟨true, e.actionStart, e.actionLen, e.actorName⟩
      else .cleared }

/-- The channel after an event: nothing changed if the id was held, else one entry more. -/
structure Channel.OnePlace (c : Channel) (e : MessageEv) (after : Channel) : Prop where
  ordered : after.Ordered
  highWater : after.highWater = max c.highWater e.messageId
  held : e.messageId ∈ c.ids → after.msgs = c.msgs
  fresh : e.messageId ∉ c.ids → ∃ older newer, c.msgs = older ++ newer ∧ after.msgs = older ++ e.entry :: newer

def Model.OnePlace (m : Model) (e : MessageEv) (after : Model) : Prop :=
  ∃ front c back c', (m.channelEnsure e.channelId).channels = front ++ c :: back ∧
    (∀ other ∈ front, other.channelId ≠ e.channelId) ∧ c.channelId = e.channelId ∧
    after.channels = front ++ c' :: back ∧ c'.channelId = e.channelId ∧ c.OnePlace e c'

theorem MessageEv.setAction_msg (e : MessageEv) : e.msg.setAction e = e.entry := by
  unfold setAction MessageEv.entry MessageEv.msg
  cases known : e.actionKnown with
  | false => simp
  | true => simp

theorem MessageEv.msg_eq_entry {e : MessageEv} : e.entry = e.msg ↔ ¬ (e.actionKnown ∧ e.actionFits e.body) := by
  unfold MessageEv.entry MessageEv.msg
  by_cases acts : e.actionKnown ∧ e.actionFits e.body
  · simp [acts, Action.cleared]
  · simp [acts]

theorem Msg.setAction_messageId (msg : Msg) (e : MessageEv) : (msg.setAction e).messageId = msg.messageId := by
  unfold setAction
  split <;> rfl

namespace Channel

/-- The events that leave their mark on their own entry alone: the id is held, or it is the
newest, or the event says nothing of an action, or it brings none and the last entry
stays as it was. -/
def Clean (c : Channel) (e : MessageEv) : Prop :=
  e.messageId ∈ c.ids ∨ (∀ msg ∈ c.msgs, msg.messageId < e.messageId) ∨ e.actionKnown = false ∨
    (e.actionFits e.body = false ∧ ∀ last ∈ c.msgs.getLast?, last.setAction e = last)

variable {m : Model} {c : Channel} {e : MessageEv}

theorem received_channelId (c : Channel) : (m.received e c).channelId = c.channelId := by
  unfold Model.received Model.settle
  split
  · rw [(m.count_fields _ e).2.2]
    obtain ⟨msgs, highWater, frame⟩ := c.append_frame e
    rw [frame]
    rfl
  · rfl

variable (ordered : c.Ordered)

include ordered

theorem received_held (held : e.messageId ∈ c.ids) : m.received e c = c := by
  simp [Model.received, append_held ordered held]

variable (nonzero : e.messageId ≠ 0)

include nonzero

theorem received_newest (newest : ∀ msg ∈ c.msgs, msg.messageId < e.messageId) :
    (m.received e c).msgs = c.msgs ++ [e.entry] ∧ (m.received e c).highWater = max c.highWater e.messageId := by
  have fresh : e.messageId ∉ c.ids := fun held => by
    obtain ⟨msg, member, same⟩ := mem_ids.mp held
    exact absurd same ((newest msg member).ne)
  have all : before messageId e.messageId c.msgs = c.msgs := before_eq_self newest
  have none : behind messageId e.messageId c.msgs = [] := behind_eq_nil newest
  rw [Model.received, append_fresh ordered nonzero fresh, all, none, if_pos rfl, Model.settle]
  obtain ⟨msgs, highWater, -⟩ := m.count_fields
    (({ c with msgs := c.msgs ++ [e.msg], highWater := max c.highWater e.messageId }).modifyLast (·.setAction e)) e
  rw [msgs, highWater, modifyLast_concat (·.setAction e) rfl, e.setAction_msg]
  exact ⟨rfl, rfl⟩

theorem received_older (fresh : e.messageId ∉ c.ids) {mid : List Msg}
    {last : Msg} (behindIt : behind messageId e.messageId c.msgs = mid ++ [last]) :
    (m.received e c).msgs = before messageId e.messageId c.msgs ++ e.msg :: (mid ++ [last.setAction e]) ∧
      (m.received e c).highWater = max c.highWater e.messageId := by
  rw [Model.received, append_fresh ordered nonzero fresh, behindIt, if_pos rfl, Model.settle]
  obtain ⟨msgs, highWater, -⟩ := m.count_fields (({ c with
        msgs := before messageId e.messageId c.msgs ++ e.msg :: (mid ++ [last])
        highWater := max c.highWater e.messageId }).modifyLast (·.setAction e)) e
  have split : before messageId e.messageId c.msgs ++ e.msg :: (mid ++ [last]) =
      (before messageId e.messageId c.msgs ++ e.msg :: mid) ++ [last] := by
    simp
  rw [msgs, highWater, modifyLast_concat (·.setAction e) split]
  refine ⟨?_, rfl⟩
  simp

theorem ids_received (fresh : e.messageId ∉ c.ids) : (m.received e c).ids = (before messageId e.messageId c.msgs ++
      e.msg :: behind messageId e.messageId c.msgs).map messageId := by
  have absent : ∀ msg ∈ c.msgs, msg.messageId ≠ e.messageId := fun msg member same =>
    fresh (mem_ids.mpr ⟨msg, member, same⟩)
  rcases eq_nil_or_concat' (behind messageId e.messageId c.msgs) with none | ⟨mid, last, some⟩
  · have newest := above_of_behind_eq_nil ordered.ascending absent none
    rw [ids, (received_newest ordered nonzero newest).1, none, before_eq_self newest]
    simp [MessageEv.entry, MessageEv.msg]
  · rw [ids, (received_older ordered nonzero fresh some).1, some]
    simp [setAction_messageId]

theorem highWater_received : (m.received e c).highWater = max c.highWater e.messageId := by
  by_cases held : e.messageId ∈ c.ids
  · obtain ⟨msg, member, same⟩ := mem_ids.mp held
    rw [received_held ordered held, Nat.max_eq_left (same ▸ ordered.marked msg member)]
  · rw [Model.received, append_fresh ordered nonzero held, if_pos rfl, Model.settle, (m.count_fields _ e).2.1]
    rfl

theorem mem_ids_received {id : Nat} : id ∈ (m.received e c).ids ↔ id = e.messageId ∨ id ∈ c.ids := by
  by_cases held : e.messageId ∈ c.ids
  · rw [received_held ordered held]
    exact ⟨.inr, fun either => either.elim (fun same => same ▸ held) (fun old => old)⟩
  have inserted := ids_received (m := m) ordered nonzero held
  have whole : before messageId e.messageId c.msgs ++
    behind messageId e.messageId c.msgs = c.msgs := before_append_behind
  generalize before messageId e.messageId c.msgs = front at inserted whole
  generalize behind messageId e.messageId c.msgs = back at inserted whole
  rw [inserted, ids, ← whole]
  simp only [map_append, map_cons, mem_append, mem_cons]
  exact or_left_comm

theorem ordered_received : (m.received e c).Ordered := by
  by_cases held : e.messageId ∈ c.ids
  · rw [received_held ordered held]
    exact ordered
  have absent : ∀ msg ∈ c.msgs, msg.messageId ≠ e.msg.messageId := fun msg member same =>
    held (mem_ids.mpr ⟨msg, member, same⟩)
  have sorted : (m.received e c).ids.Pairwise (· < ·) := by
    rw [ids_received ordered nonzero held]
    exact pairwise_map.mpr (ascending_insert ordered.ascending absent)
  have known : ∀ msg ∈ (m.received e c).msgs, msg.messageId = e.messageId ∨ msg.messageId ∈ c.ids := fun msg member =>
    (mem_ids_received ordered nonzero).mp (mem_ids.mpr ⟨msg, member, rfl⟩)
  refine ⟨pairwise_map.mp sorted, ?_, ?_⟩
  · intro msg member
    rcases known msg member with new | old
    · exact new ▸ nonzero
    · obtain ⟨other, held', same⟩ := mem_ids.mp old
      exact same ▸ ordered.nonzero other held'
  · intro msg member
    rw [highWater_received ordered nonzero]
    rcases known msg member with new | old
    · exact new ▸ Nat.le_max_right _ _
    · obtain ⟨other, held', same⟩ := mem_ids.mp old
      exact (same ▸ ordered.marked other held').trans (Nat.le_max_left _ _)

theorem onePlace_received : c.OnePlace e (m.received e c) ↔ c.Clean e := by
  by_cases held : e.messageId ∈ c.ids
  · refine ⟨fun _ => .inl held, fun _ => ⟨ordered_received ordered nonzero,
      highWater_received ordered nonzero, fun _ => ?_, fun fresh => absurd held fresh⟩⟩
    rw [received_held ordered held]
  have absent : ∀ msg ∈ c.msgs, msg.messageId ≠ e.messageId := fun msg member same =>
    held (mem_ids.mpr ⟨msg, member, same⟩)
  rcases eq_nil_or_concat' (behind messageId e.messageId c.msgs) with none | ⟨mid, last, some⟩
  · have newest := above_of_behind_eq_nil ordered.ascending absent none
    refine ⟨fun _ => .inr (.inl newest), fun _ => ⟨ordered_received ordered nonzero,
      highWater_received ordered nonzero, fun old => absurd old held, fun _ => ?_⟩⟩
    exact ⟨c.msgs, [], by simp, (received_newest ordered nonzero newest).1⟩
  have whole : before messageId e.messageId c.msgs ++ (mid ++ [last]) = c.msgs := some ▸ before_append_behind
  have after := (received_older (m := m) ordered nonzero held some).1
  generalize before messageId e.messageId c.msgs = front at whole after
  have final : c.msgs.getLast? = .some last := by
    rw [← whole]
    simp
  constructor
  · intro place
    obtain ⟨older, newer, split, inserted⟩ := place.fresh held
    rw [after] at inserted
    obtain ⟨rfl, same, rfl⟩ := split_unique messageId inserted rfl
      (fun msg member => absent msg (whole ▸ mem_append_left _ member))
      (fun msg member => absent msg (split ▸ mem_append_left _ member))
    rw [← whole] at split
    have unchanged : last = last.setAction e := by
      simpa using append_cancel_left split
    refine .inr (.inr ?_)
    cases known : e.actionKnown with
    | false => exact .inl rfl
    | true =>
      refine .inr ⟨?_, ?_⟩
      · have acts := MessageEv.msg_eq_entry.mp same.symm
        simpa [known] using acts
      · intro other isLast
        rw [final] at isLast
        obtain rfl := Option.some.inj isLast
        exact unchanged.symm
  · intro clean
    have quiet : e.entry = e.msg ∧ last.setAction e = last := by
      rcases clean with old | newest | silent | ⟨none, stays⟩
      · exact absurd old held
      · have behindIt : last ∈ behind messageId e.messageId c.msgs := by simp [some]
        have member : last ∈ c.msgs := mem_of_getLast? final
        exact absurd (newest last member) (Nat.lt_asymm (lt_of_mem_behind behindIt))
      · exact ⟨MessageEv.msg_eq_entry.mpr (by simp [silent]), by simp [setAction, silent]⟩
      · exact ⟨MessageEv.msg_eq_entry.mpr (by simp [none]), stays last final⟩
    refine ⟨ordered_received ordered nonzero, highWater_received ordered nonzero,
      fun old => absurd old held, fun _ => ?_⟩
    exact ⟨_, mid ++ [last], whole.symm, by rw [after, quiet.1, quiet.2]⟩

end Channel

namespace Model

def Ordered (m : Model) : Prop := ∀ c ∈ m.channels, c.Ordered

def held (m : Model) (channelId : Nat) : List Nat := (m.channel channelId).elim [] ids

variable {m : Model} {e : MessageEv}

theorem channelEnsure_ordered (ordered : m.Ordered) (channelId : Nat) : (m.channelEnsure channelId).Ordered := by
  unfold channelEnsure
  split
  · exact ordered
  intro c member
  rcases mem_append.mp member with known | new
  · exact ordered c known
  · obtain rfl := mem_singleton.mp new
    exact ⟨List.Pairwise.nil, by simp [empty], by simp [empty]⟩

theorem onMessage_ordered (ordered : m.Ordered) (nonzero : e.messageId ≠ 0) : (m.onMessage e).Ordered := by
  obtain ⟨c, found, -⟩ := m.exists_channelEnsure e.channelId
  obtain ⟨front, back, split, -, after⟩ := onMessage_channels found
  have ensured := channelEnsure_ordered ordered e.channelId
  unfold Ordered at ensured ⊢
  rw [split] at ensured
  rw [after]
  intro other member
  rcases mem_append.mp member with inFront | rest
  · exact ensured other (mem_append_left _ inFront)
  rcases mem_cons.mp rest with rfl | inBack
  · exact ordered_received (ensured c (by simp)) nonzero
  · exact ensured other (mem_append_right _ (mem_cons_of_mem _ inBack))

theorem channel_onMessage {c : Channel} (found : (m.channelEnsure e.channelId).channel e.channelId = some c) :
    (m.onMessage e).channel e.channelId = some ((m.channelEnsure e.channelId).received e c) := by
  obtain ⟨front, back, -, others, after⟩ := onMessage_channels found
  exact channel_of_split after ((received_channelId c).trans (channel_eq_some found).1) others

theorem channel_onMessage_of_ne {channelId : Nat} (apart : channelId ≠ e.channelId) :
    (m.onMessage e).channel channelId = m.channel channelId := by
  obtain ⟨c, found, -⟩ := m.exists_channelEnsure e.channelId
  obtain ⟨front, back, split, -, after⟩ := onMessage_channels found
  have named : c.channelId ≠ channelId := fun same => apart (same ▸ (channel_eq_some found).1)
  have named' : ((m.channelEnsure e.channelId).received e c).channelId ≠ channelId := by
    rw [received_channelId]
    exact named
  have ensured : (m.channelEnsure e.channelId).channel channelId = m.channel channelId := by
    unfold channelEnsure
    split
    · rfl
    · simp [channel, find?_append, empty, Ne.symm apart]
  rw [← ensured, channel, channel, split, after]
  simp [find?_append, named, named']

theorem mem_held_onMessage (ordered : m.Ordered) (nonzero : e.messageId ≠ 0) {channelId id : Nat} :
    id ∈ (m.onMessage e).held channelId ↔ (e.channelId = channelId ∧ id = e.messageId) ∨ id ∈ m.held channelId := by
  by_cases same : channelId = e.channelId
  · subst same
    obtain ⟨c, found, origin⟩ := m.exists_channelEnsure e.channelId
    have before : m.held e.channelId = c.ids := by
      rcases origin with known | ⟨unknown, rfl⟩
      · simp [held, known]
      · simp [held, unknown, ids, empty]
    have channelOrdered : c.Ordered := channelEnsure_ordered ordered e.channelId c (mem_of_find?_eq_some found)
    rw [held, channel_onMessage found, Option.elim_some, mem_ids_received channelOrdered nonzero, before]
    simp
  · rw [held, channel_onMessage_of_ne same, ← held]
    simp [Ne.symm same]

end Model

/-- One event, one place: for exactly the clean events. -/
theorem message_one_place (m : Model) (e : MessageEv) (ordered : m.Ordered) (nonzero : e.messageId ≠ 0) :
    m.OnePlace e (m.onMessage e) ↔ ∀ c ∈ m.channel e.channelId, c.Clean e := by
  obtain ⟨c, found, origin⟩ := m.exists_channelEnsure e.channelId
  obtain ⟨front, back, split, others, after⟩ := Model.onMessage_channels found
  have named : c.channelId = e.channelId := (Model.channel_eq_some found).1
  have channelOrdered : c.Ordered := Model.channelEnsure_ordered ordered e.channelId c (mem_of_find?_eq_some found)
  have clean : (∀ c ∈ m.channel e.channelId, c.Clean e) ↔ c.Clean e := by
    rcases origin with known | ⟨unknown, rfl⟩
    · simp [known]
    · simp [unknown, Channel.Clean, empty]
  rw [clean, ← onePlace_received (m := m.channelEnsure e.channelId) channelOrdered nonzero]
  constructor
  · rintro ⟨front', c', back', after', split', others', named', changed, -, place⟩
    obtain ⟨rfl, rfl, rfl⟩ := split_unique channelId (split.symm.trans split')
      (named.trans named'.symm) (named ▸ others) (named' ▸ others')
    rw [after] at changed
    obtain rfl := (List.cons.inj (append_cancel_left changed)).1
    exact place
  · intro place
    refine ⟨front, c, back, _, split, others, named, after, ?_, place⟩
    exact (received_channelId c).trans named

def anonymous : CharBuf 64 := .empty authorNameSize_pos

def nod (messageId : Nat) : MessageEv :=
  { channelId := 1, authorId := 2, messageId, serverTime := 0, msgKind := 0, broadcastStored := false
    authorName := anonymous, body := some (text "nods"), action := true, actionKnown := true
    actionStart := 0, actionLen := 4, actorName := anonymous }

def oneHeld : Model :=
  { userId := 1, wsSender := 0, users := [], groups := [], kwTerms := [], priPeople := []
    notifyDefault := .all, listenChannel := 0, listenQueue := [], listenSkipped := 0
    channels :=
      [{ channelId := 1, highWater := 5, readMarker := 0, unread := 0, priorityUnread := 0
         srvUnread := 0, notifyLevel := .all, muted := false
         msgs :=
          [{ body := some (text "good morning"), authorName := anonymous, authorId := 3, messageId := 5
             serverTime := 0, deleted := false, kind := 0, broadcastStored := false
             action := .cleared }] }] }

theorem oneHeld_ordered : oneHeld.Ordered := by
  intro c member
  obtain rfl := mem_singleton.mp member
  exact ⟨pairwise_singleton _ _, by decide, by decide⟩

theorem message_one_place_newest : oneHeld.OnePlace (nod 7) (oneHeld.onMessage (nod 7)) := by
  refine (message_one_place oneHeld (nod 7) oneHeld_ordered (by decide)).mpr ?_
  intro c found
  obtain rfl := Option.some.inj found
  exact .inr (.inl (by decide))

/-- An older action turns up: the message of id 5 becomes the action, and the action itself
is left without one. -/
theorem action_misplaced :
    oneHeld.Ordered ∧ ¬ oneHeld.OnePlace (nod 3) (oneHeld.onMessage (nod 3)) ∧
      (oneHeld.onMessage (nod 3)).channels.map
        (fun c => c.msgs.map fun msg => (msg.messageId, msg.action.present)) =
          [[(3, false), (5, true)]] := by
  refine ⟨oneHeld_ordered, ?_, by decide⟩
  rintro ⟨front, c, back, c', split, -, -, changed, -, place⟩
  have known : c ∈ oneHeld.channels := by
    rw [show oneHeld.channels = front ++ c :: back from split]
    simp
  have fresh : (nod 3).messageId ∉ c.ids := by
    obtain rfl := mem_singleton.mp known
    decide
  obtain ⟨older, newer, -, inserted⟩ := place.fresh fresh
  have placed : ∃ c ∈ (oneHeld.onMessage (nod 3)).channels, (nod 3).entry ∈ c.msgs :=
    ⟨c', by rw [changed]; simp, by rw [inserted]; simp⟩
  exact absurd placed (by decide)

end OpenChime.Client
