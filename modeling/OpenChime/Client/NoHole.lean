import OpenChime.Client.Reconnect

/-! Reconnecting without a hole. While connected, every message from the first held or
on its way is itself held, on its way, or asked for in a backfill not yet answered.
That survives everything but a reply that has no room for what it is asked for, and a
connection lost when something below the high-water mark is still missing: the next
backfill resumes from the mark. -/

set_option autoImplicit false

namespace OpenChime.Client

open Shared Daemon List World

def hwtabMark (t : List HwRow) (channelId : Nat) : Option Nat := (t.find? (·.channelId = channelId)).map HwRow.highWater

theorem hwtabGet_eq (t : List HwRow) (channelId : Nat) : hwtabGet t channelId = (hwtabMark t channelId).getD 0 := by
  unfold hwtabGet hwtabMark
  split
  · next found => rw [found]; rfl
  · next found => rw [found]; rfl

theorem mem_of_hwtabMark {t : List HwRow} {channelId mark : Nat}
    (found : hwtabMark t channelId = some mark) : ⟨channelId, mark⟩ ∈ t := by
  obtain ⟨row, isRow, rfl⟩ := Option.map_eq_some_iff.mp found
  have named : row.channelId = channelId := by simpa using find?_some isRow
  exact named ▸ mem_of_find?_eq_some isRow

theorem hwtabMark_cons (row : HwRow) (rows : List HwRow) (channelId : Nat) : hwtabMark (row :: rows) channelId =
      if row.channelId = channelId then some row.highWater else hwtabMark rows channelId := by
  by_cases same : row.channelId = channelId <;> simp [hwtabMark, same]

theorem hwtabMark_note (t : List HwRow) (noted id channelId : Nat) : hwtabMark (hwtabNote t noted id) channelId =
      if noted = channelId then some ((hwtabMark t channelId).elim id (max · id))
      else hwtabMark t channelId := by
  induction t with
  | nil => by_cases same : noted = channelId <;> simp [hwtabNote, hwtabMark, same]
  | cons row rows ih =>
    unfold hwtabNote
    by_cases here : row.channelId = noted
    · rw [if_pos here, hwtabMark_cons, hwtabMark_cons]
      by_cases higher : id > row.highWater
      · rw [if_pos higher]
        by_cases same : noted = channelId
        · simp [here, same, Nat.max_eq_right (higher.le)]
        · simp [here, same]
      rw [if_neg higher]
      by_cases same : noted = channelId
      · simp [here, same, Nat.max_eq_left (not_lt.mp higher)]
      · simp [here, same]
    · rw [if_neg here, hwtabMark_cons, hwtabMark_cons, ih]
      by_cases same : row.channelId = channelId
      · have apart : noted ≠ channelId := fun equal => here (same.trans equal.symm)
        simp [same, apart]
      · simp [same]

def Marks : Option Nat → List Nat → Prop
  | none, held => held = []
  | some mark, held => mark ∈ held ∧ ∀ id ∈ held, id ≤ mark

theorem Marks.congr {mark : Option Nat} {held held' : List Nat} (marks : Marks mark held)
    (same : ∀ id, id ∈ held' ↔ id ∈ held) : Marks mark held' := by
  cases mark with
  | none =>
    refine eq_nil_iff_forall_not_mem.mpr fun id known => ?_
    have none := (same id).mp known
    rw [show held = [] from marks] at none
    cases none
  | some mark => exact ⟨(same mark).mpr marks.1, fun id known => marks.2 id ((same id).mp known)⟩

theorem Marks.note {mark : Option Nat} {held held' : List Nat} {new : Nat} (marks : Marks mark held)
    (grown : ∀ id, id ∈ held' ↔ id = new ∨ id ∈ held) : Marks (some (mark.elim new (max · new))) held' := by
  cases mark with
  | none =>
    refine ⟨(grown new).mpr (.inl rfl), fun id known => ?_⟩
    rcases (grown id).mp known with rfl | old
    · exact le_rfl
    · rw [show held = [] from marks] at old
      cases old
  | some mark =>
    refine ⟨(grown _).mpr ?_, fun id known => ?_⟩
    · rcases Nat.le_total mark new with up | down
      · exact .inl (Nat.max_eq_right up)
      right
      rw [Option.elim_some, Nat.max_eq_left down]
      exact marks.1
    · rcases (grown id).mp known with rfl | old
      · exact Nat.le_max_right _ _
      · exact (marks.2 id old).trans (Nat.le_max_left _ _)

def ReplayFrame.message : ReplayFrame → Option StoredMessage
  | .broadcast message => some message
  | .backfillDone _ _ => none

def Result.messages : Result → List StoredMessage
  | .posted message => [message]
  | .backfill frames => frames.filterMap ReplayFrame.message

def Link.messages (link : Link) : List StoredMessage := link.live ++ link.replay.filterMap ReplayFrame.message

/-- A backfill not yet answered resumes the channel below the id. -/
def Link.Asks (link : Link) (channelId id : Nat) : Prop :=
  ∃ request ∈ link.requests, ∃ cursor ∈ request, cursor.channelId = channelId ∧
    cursor.afterMessageId ≠ 0 ∧ cursor.afterMessageId < id

namespace World

def coming (w : World) (link : Link) : List StoredMessage := link.messages ++ w.results.flatMap Result.messages

def Reaches (w : World) (link : Link) (channelId id : Nat) : Prop :=
  id ∈ w.model.held channelId ∨ ∃ message ∈ w.coming link, message.channelId = channelId ∧ message.messageId = id

theorem Reaches.widen {w after : World} {link later : Link} {channelId id : Nat} (reached : w.Reaches link channelId id)
    (sameModel : after.model = w.model) (coming : ∀ message ∈ w.coming link, message ∈ after.coming later) :
    after.Reaches later channelId id := by
  rcases reached with held | ⟨message, member, facts⟩
  · left
    rw [sameModel]
    exact held
  · exact .inr ⟨message, coming message member, facts⟩

structure Covered (w : World) (link : Link) (channelId : Nat) : Prop where
  stored : ∀ message ∈ w.coming link, message ∈ w.log
  closed : ∀ first id, w.Reaches link channelId first → w.Posted channelId id → first ≤ id →
    w.Reaches link channelId id ∨ link.Asks channelId id
  short : ∀ request ∈ link.requests, request.length ≤ cursorsMax

structure Inv (channelId : Nat) (w : World) : Prop where
  ordered : w.model.Ordered
  ascending : w.log.Pairwise fun a b => a.messageId < b.messageId
  nonzero : ∀ message ∈ w.log, message.messageId ≠ 0
  member : channelId ∈ w.members
  held : ∀ id ∈ w.model.held channelId, w.Posted channelId id
  marks : Marks (hwtabMark w.hw channelId) (w.model.held channelId)
  suffix : postedIn w.results <:+ w.log
  connected : ∀ link, w.link = some link → w.Covered link channelId
  idle : w.link = none → w.Unbroken channelId ∧ w.results = (postedIn w.results).map .posted

variable {w : World} {link : Link} {channelId : Nat} {message : StoredMessage} {link' : Link}

theorem Covered.congr {w' : World} (covered : w.Covered link channelId) (log : w'.log = w.log)
    (stored : ∀ message ∈ w'.coming link', message ∈ w.log)
    (reaches : ∀ id, w'.Reaches link' channelId id ↔ w.Reaches link channelId id)
    (requests : ∀ request ∈ link.requests, request ∈ link'.requests)
    (short : ∀ request ∈ link'.requests, request.length ≤ cursorsMax) : w'.Covered link' channelId := by
  refine ⟨log ▸ stored, fun first id known posted later => ?_, short⟩
  have posted : w.Posted channelId id := by simpa only [Posted, log] using posted
  rcases covered.closed first id ((reaches first).mp known) posted later with reached | asked
  · exact .inl ((reaches id).mpr reached)
  · obtain ⟨request, listed, rest⟩ := asked
    exact .inr ⟨request, requests request listed, rest⟩

theorem inv_start (members : List Nat) (model : Model) (member : channelId ∈ members) :
    (start members model).Inv channelId := by
  refine
    { ordered := by simp [start, Model.Ordered]
      ascending := .nil
      nonzero := by simp [start]
      member
      held := by simp [start, Model.held, Model.channel]
      marks := by simp [start, hwtabMark, Marks, Model.held, Model.channel]
      suffix := nil_suffix
      connected := by simp [start]
      idle := fun _ => ⟨?_, rfl⟩ }
  intro message stored
  cases stored

theorem posted_append {id : Nat} : (∃ other ∈ w.log ++ [message], other.channelId = channelId ∧ other.messageId = id) ↔
      w.Posted channelId id ∨ (message.channelId = channelId ∧ message.messageId = id) := by
  simp only [Posted, mem_append, mem_singleton]
  constructor
  · rintro ⟨other, stored | rfl, facts⟩
    · exact .inl ⟨other, stored, facts⟩
    · exact .inr facts
  · rintro (⟨other, stored, facts⟩ | facts)
    · exact ⟨other, .inl stored, facts⟩
    · exact ⟨message, .inr rfl, facts⟩

variable (inv : w.Inv channelId)

include inv

theorem Inv.post (nonzero : message.messageId ≠ 0) (newest : ∀ earlier ∈ w.log, earlier.messageId < message.messageId) :
    Inv channelId { w with log := w.log ++ [message], results := w.results ++ [.posted message] } := by
  have older : ∀ id, w.Posted channelId id → id < message.messageId := by
    rintro id ⟨earlier, stored, -, rfl⟩
    exact newest earlier stored
  have queued : postedIn (w.results ++ [.posted message]) = postedIn w.results ++ [message] := by
    simp [postedIn]
  refine { inv with
      ascending := pairwise_append.mpr ⟨inv.ascending, pairwise_singleton _ _, ?_⟩
      nonzero := ?_, held := ?_, suffix := ?_, connected := ?_, idle := ?_ }
  · intro earlier stored last isLast
    exact mem_singleton.mp isLast ▸ newest earlier stored
  · intro other stored
    rcases mem_append.mp stored with earlier | last
    · exact inv.nonzero other earlier
    · exact mem_singleton.mp last ▸ nonzero
  · exact fun id known => posted_append.mpr (.inl (inv.held id known))
  · obtain ⟨front, split⟩ := inv.suffix
    rw [queued]
    exact ⟨front, by rw [← split, append_assoc]⟩
  · intro link isLink
    have covered := inv.connected link isLink
    have coming : ∀ other, other ∈ coming
        { w with log := w.log ++ [message], results := w.results ++ [.posted message] } link ↔
          other ∈ w.coming link ∨ other = message := by
      simp [coming, Result.messages, or_assoc]
    refine ⟨fun other member => ?_, fun first id known posted later => ?_, covered.short⟩
    · rcases (coming other).mp member with earlier | rfl
      · exact mem_append_left _ (covered.stored other earlier)
      · exact mem_concat_self
    · have widen : ∀ {id}, w.Reaches link channelId id → Reaches
          { w with log := w.log ++ [message], results := w.results ++ [.posted message] } link
            channelId id := fun reached =>
        reached.widen rfl fun other member => (coming other).mpr (.inl member)
      rcases posted_append.mp posted with earlier | ⟨here, rfl⟩
      · rcases known with held | ⟨other, member, here, rfl⟩
        · exact (covered.closed first id (.inl held) earlier later).imp_left widen
        rcases (coming other).mp member with old | rfl
        · exact (covered.closed _ id (.inr ⟨other, old, here, rfl⟩) earlier later).imp_left widen
        · exact absurd later (not_le.mpr (older id earlier))
      · exact .inl (.inr ⟨message, (coming message).mpr (.inr rfl), here, rfl⟩)
  · intro isIdle
    obtain ⟨unbroken, posts⟩ := inv.idle isIdle
    refine ⟨fun other stored here below first => ?_, ?_⟩
    · rcases mem_append.mp stored with earlier | last
      · exact unbroken other earlier here below first
      obtain rfl := mem_singleton.mp last
      -- the mark is an id posted before
      exfalso
      rw [hwtabGet_eq] at below
      cases isMark : hwtabMark w.hw channelId with
      | none =>
        rw [isMark] at below
        exact nonzero (Nat.le_zero.mp below)
      | some mark =>
        have marks := inv.marks
        rw [isMark] at below marks
        exact absurd below (not_le.mpr (older mark (inv.held mark marks.1)))
    · rw [queued, map_append, ← posts]
      rfl

theorem Inv.receive (isLink : w.link = some link) (requests : link'.requests = link.requests)
    (taken : (w.coming link).Perm (message :: w.coming link')) :
    Inv channelId (receive { w with link := some link' } message) := by
  have covered := inv.connected link isLink
  have stored : message ∈ w.log := covered.stored message (taken.mem_iff.mpr mem_cons_self)
  have nonzero : (StoredMessage.event message).messageId ≠ 0 := inv.nonzero message stored
  have holds : ∀ id, id ∈ (w.model.onMessage (StoredMessage.event message)).held channelId ↔
      (message.channelId = channelId ∧ id = message.messageId) ∨ id ∈ w.model.held channelId :=
    fun id => Model.mem_held_onMessage inv.ordered nonzero
  refine { inv with
      ordered := Model.onMessage_ordered inv.ordered nonzero
      held := ?_, marks := ?_, connected := ?_, idle := fun isNone => by cases isNone }
  · intro id known
    rcases (holds id).mp known with ⟨here, rfl⟩ | old
    · exact ⟨message, stored, here, rfl⟩
    · exact inv.held id old
  · change Marks (hwtabMark (hwtabNote w.hw message.channelId message.messageId) channelId) _
    rw [hwtabMark_note]
    split
    · next here => exact inv.marks.note fun id => (holds id).trans (by simp [here])
    · next apart => exact inv.marks.congr fun id => (holds id).trans (by simp [apart])
  · intro other isOther
    obtain rfl := Option.some.inj isOther
    refine covered.congr rfl (fun other member =>
      covered.stored other (taken.mem_iff.mpr (mem_cons_of_mem _ member))) (fun id => ?_)
      (fun request listed => requests ▸ listed) (fun request listed => covered.short request (requests ▸ listed))
    -- the message moves from one side of `Reaches` to the other
    constructor
    · rintro (known | ⟨other, member, facts⟩)
      · rcases (holds id).mp known with ⟨here, rfl⟩ | old
        · exact .inr ⟨message, taken.mem_iff.mpr mem_cons_self, here, rfl⟩
        · exact .inl old
      · exact .inr ⟨other, taken.mem_iff.mpr (mem_cons_of_mem _ member), facts⟩
    · rintro (old | ⟨other, member, here, rfl⟩)
      · exact .inl ((holds id).mpr (.inr old))
      · rcases mem_cons.mp (taken.mem_iff.mp member) with rfl | rest
        · exact .inl ((holds _).mpr (.inl ⟨here, rfl⟩))
        · exact .inr ⟨other, rest, here, rfl⟩

variable {isPublic : Nat → Bool}

theorem Inv.serve {request : List Cursor} {requests : List (List Cursor)}
    (isLink : w.link = some link) (split : link.requests = request :: requests)
    (fits : (wanted (w.readable isPublic) w.log (effectiveCursors w.members request)).length ≤ backfillMax) :
    Inv channelId { w with
        link := some { link with requests }, results := w.results ++ [w.answer isPublic request] } := by
  have covered := inv.connected link isLink
  have kept : request.take cursorsMax = request := take_of_length_le (covered.short request (by simp [split]))
  have rows : (processBackfill (w.readable isPublic) w.members w.log request).1 =
      wanted (w.readable isPublic) w.log (effectiveCursors w.members request) := by
    rw [processBackfill, replayLoop_eq (by simpa using fits), nil_append]
  have messages : (w.answer isPublic request).messages =
      wanted (w.readable isPublic) w.log (effectiveCursors w.members request) := by
    simp only [answer, kept, Result.messages]
    rw [filterMap_append, rows]
    simp [ReplayFrame.message, Function.comp_def]
  have posts : postedIn (w.results ++ [w.answer isPublic request]) = postedIn w.results := by
    simp [postedIn, answer]
  have coming : ∀ other, other ∈ coming { w with
        link := some { link with requests }, results := w.results ++ [w.answer isPublic request] }
      { link with requests } ↔ other ∈ w.coming link ∨
        other ∈ wanted (w.readable isPublic) w.log (effectiveCursors w.members request) := by
    simp [coming, Link.messages, messages, or_assoc]
  refine { inv with
      suffix := by rw [posts]; exact inv.suffix
      connected := ?_, idle := fun isNone => by cases isNone }
  intro other isOther
  obtain rfl := Option.some.inj isOther
  -- what a cursor of the channel asks for has no end but the newest message
  have replayed : ∀ cursor ∈ effectiveCursors w.members request, cursor.channelId = channelId →
      ∀ id, w.Posted channelId id → startAfter w.log cursor < id → Reaches { w with
          link := some { link with requests }, results := w.results ++ [w.answer isPublic request] }
        { link with requests } channelId id := by
    rintro cursor listed rfl id ⟨message, stored, here, rfl⟩ later
    refine .inr ⟨message, (coming message).mpr (.inr (mem_wanted.mpr ?_)), here, rfl⟩
    exact ⟨cursor, listed, by simp [readable, inv.member], stored, here, later⟩
  refine ⟨fun other member => ?_, fun first id known posted later => ?_, fun other listed =>
    covered.short other (by rw [split]; exact mem_cons_of_mem _ listed)⟩
  · rcases (coming other).mp member with old | new
    · exact covered.stored other old
    · obtain ⟨-, -, -, stored, -⟩ := mem_wanted.mp new
      exact stored
  · have before : w.Reaches link channelId first ∨ ∃ cursor ∈ effectiveCursors w.members request,
        cursor.channelId = channelId ∧ startAfter w.log cursor < first := by
      rcases known with held | ⟨message, member, here, rfl⟩
      · exact .inl (.inl held)
      rcases (coming message).mp member with old | new
      · exact .inl (.inr ⟨message, old, here, rfl⟩)
      · obtain ⟨cursor, listed, -, -, same, after⟩ := mem_wanted.mp new
        exact .inr ⟨cursor, listed, same ▸ here, after⟩
    rcases before with reached | ⟨cursor, listed, here, after⟩
    · rcases covered.closed first id reached posted later with reached | asked
      · exact .inl (reached.widen rfl fun message member => (coming message).mpr (.inl member))
      obtain ⟨asking, pending, cursor, listed, here, positive, after⟩ := asked
      rw [split] at pending
      rcases mem_cons.mp pending with rfl | other
      · have nonempty : asking ≠ [] := ne_nil_of_mem listed
        refine .inl (replayed cursor (by simpa [effectiveCursors, nonempty]) here id posted ?_)
        simpa [startAfter, positive] using after
      · exact .inr ⟨asking, other, cursor, listed, here, positive, after⟩
    · exact .inl (replayed cursor listed here id posted (after.trans_le later))

theorem Inv.connect (isIdle : w.link = none) (few : w.hw.length ≤ cursorsMax) :
    Inv channelId { w with link := some ⟨firstRequest w.hw, [], []⟩ } := by
  obtain ⟨unbroken, posts⟩ := inv.idle isIdle
  have coming : coming { w with link := some ⟨firstRequest w.hw, [], []⟩ }
      ⟨firstRequest w.hw, [], []⟩ = postedIn w.results := by
    rw [coming, Link.messages]
    rw [posts, flatMap_map]
    simp [Result.messages, postedIn]
  have first : firstRequest w.hw = [w.hw.map fun row => ⟨row.channelId, row.highWater⟩] := by
    have fits : requestFits w.hw.length = true := by
      unfold cursorsMax at few
      refine decide_eq_true ?_
      unfold Wire.headerSize Wire.maxFrameSize
      omega
    simp [firstRequest, fits]
  refine { inv with connected := ?_, idle := fun isNone => by cases isNone }
  intro other isOther
  obtain rfl := Option.some.inj isOther
  refine ⟨fun message member => ?_, fun start id known posted later => ?_, fun request listed => ?_⟩
  · rw [coming] at member
    exact inv.suffix.subset member
  · rcases known with held | ⟨message, member, here, rfl⟩
    · by_cases below : id ≤ hwtabGet w.hw channelId
      · obtain ⟨message, stored, here, rfl⟩ := posted
        exact .inl (.inl (unbroken message stored here below ⟨start, held, later⟩))
      right
      cases isMark : hwtabMark w.hw channelId with
      | none =>
        have marks := inv.marks
        rw [isMark] at marks
        rw [show w.model.held channelId = [] from marks] at held
        cases held
      | some mark =>
        have marks := inv.marks
        rw [isMark] at marks
        rw [hwtabGet_eq, isMark] at below
        obtain ⟨message, stored, -, same⟩ := inv.held mark marks.1
        refine ⟨_, by rw [first]; exact mem_singleton_self _, ⟨channelId, mark⟩, ?_, rfl, ?_, not_le.mp below⟩
        · exact mem_map.mpr ⟨⟨channelId, mark⟩, mem_of_hwtabMark isMark, rfl⟩
        · exact same ▸ inv.nonzero message stored
    · rw [coming] at member
      obtain ⟨message', stored, here', rfl⟩ := posted
      obtain ⟨front, split⟩ := inv.suffix
      have sorted := inv.ascending
      rw [← split] at stored sorted
      rcases mem_append.mp stored with earlier | recent
      · have order := (pairwise_append.mp sorted).2.2 message' earlier message member
        exact absurd later (not_le.mpr order)
      · exact .inl (.inr ⟨message', by rw [coming]; exact recent, here', rfl⟩)
  · rw [first] at listed
    obtain rfl := mem_singleton.mp listed
    simpa using few

theorem Inv.disconnect (unbroken : w.Unbroken channelId) :
    Inv channelId { w with link := none, results := (postedIn w.results).map .posted } := by
  have posts : postedIn ((postedIn w.results).map .posted) = postedIn w.results := by
    simp [postedIn, filterMap_map]
  exact { inv with
      suffix := by rw [posts]; exact inv.suffix
      connected := fun link isLink => by cases isLink
      idle := fun _ => ⟨unbroken, by rw [posts]⟩ }

theorem Inv.skipDone {mark : Nat} {more : Bool} {replay : List ReplayFrame}
    (isLink : w.link = some link) (isReplay : link.replay = .backfillDone mark more :: replay) :
    Inv channelId { w with link := some { link with replay } } := by
  have covered := inv.connected link isLink
  have same : coming { w with link := some { link with replay } } { link with replay } = w.coming link := by
    simp only [coming, Link.messages, isReplay]
    rfl
  refine { inv with connected := ?_, idle := fun isNone => by cases isNone }
  intro other isOther
  obtain rfl := Option.some.inj isOther
  refine covered.congr rfl (same ▸ covered.stored) (fun id => ?_) (fun _ listed => listed) covered.short
  simp only [Reaches, same]

theorem Inv.openChannel (isLink : w.link = some link) (cursor : Cursor) :
    Inv channelId { w with link := some { link with requests := link.requests ++ [[cursor]] } } := by
  have covered := inv.connected link isLink
  refine { inv with connected := ?_, idle := fun isNone => by cases isNone }
  intro other isOther
  obtain rfl := Option.some.inj isOther
  refine covered.congr rfl covered.stored (fun id => Iff.rfl)
    (fun request listed => mem_append_left _ listed) (fun request listed => ?_)
  rcases mem_append.mp listed with old | new
  · exact covered.short request old
  · rw [mem_singleton.mp new]
    exact show 1 ≤ cursorsMax by decide

theorem Inv.passOn {result : Result} {results : List Result}
    (split : w.results = result :: results) (isLink : w.link = some link)
    (requests : link'.requests = link.requests)
    (moved : ∀ message, message ∈ link'.messages → message ∈ link.messages ∨ message ∈ result.messages)
    (kept : ∀ message, message ∈ link.messages ∨ message ∈ result.messages →
      message.channelId ∈ w.members → message ∈ link'.messages) :
    Inv channelId { w with results, link := some link' } := by
  have covered := inv.connected link isLink
  have suffix : postedIn results <:+ postedIn w.results := by
    rw [split]
    cases result with
    | posted message => exact suffix_cons message _
    | backfill frames => exact suffix_refl _
  refine { inv with
      suffix := suffix.trans inv.suffix
      connected := ?_, idle := fun isNone => by cases isNone }
  intro other isOther
  obtain rfl := Option.some.inj isOther
  have before : ∀ message, message ∈ w.coming link ↔ (message ∈ link.messages ∨
      message ∈ result.messages) ∨ message ∈ results.flatMap Result.messages := by
    intro message
    simp [coming, split, or_assoc]
  have after : ∀ message, message ∈ coming { w with results, link := some link' } link' ↔
      message ∈ link'.messages ∨ message ∈ results.flatMap Result.messages := by
    intro message
    simp [coming]
  refine covered.congr rfl (fun message member => covered.stored message ((before message).mpr
    (((after message).mp member).imp_left (moved message)))) (fun id => ?_)
    (fun request listed => requests ▸ listed) (fun request listed => covered.short request (requests ▸ listed))
  constructor
  · rintro (held | ⟨message, member, facts⟩)
    · exact .inl held
    · exact .inr ⟨message, (before message).mpr (((after message).mp member).imp_left (moved message)), facts⟩
  · rintro (held | ⟨message, member, here, rfl⟩)
    · exact .inl held
    · refine .inr ⟨message, (after message).mpr (((before message).mp member).imp_left fun near => ?_), here, rfl⟩
      exact kept message near (here ▸ inv.member)

theorem Inv.dropResult {result : Result} {results : List Result} (split : w.results = result :: results)
    (isIdle : w.link = none) : Inv channelId { w with results } := by
  obtain ⟨unbroken, posts⟩ := inv.idle isIdle
  rw [split] at posts
  cases result with
  | posted message =>
    refine { inv with
        suffix := ?_
        connected := fun link isLink => by rw [isIdle] at isLink; cases isLink
        idle := fun _ => ⟨unbroken, (List.cons.inj posts).2⟩ }
    have whole := inv.suffix
    rw [split] at whole
    exact (suffix_cons message _).trans whole
  | backfill frames =>
    -- with no connection there is none to find
    exfalso
    cases isEmpty : postedIn (.backfill frames :: results) with
    | nil => rw [isEmpty] at posts; cases posts
    | cons message rest => rw [isEmpty] at posts; cases posts

theorem Inv.members {members : List Nat} (member : channelId ∈ members) : Inv channelId { w with members } :=
  { inv with member, connected := fun link isLink => { inv.connected link isLink with } }

theorem Inv.step {event : Event} {after : World} (given : event.Given channelId w)
    (safe : event.Safe isPublic channelId w) (taken : w.step isPublic event = some after) : after.Inv channelId := by
  cases event with
  | post message =>
    cases taken
    exact inv.post given.1 given.2
  | join other =>
    simp only [World.step] at taken
    split at taken
    · cases taken
      exact inv
    · cases taken
      exact inv.members ((mem_orderedInsert _).mpr (.inr inv.member))
  | leave other =>
    cases taken
    refine inv.members (mem_filter.mpr ⟨inv.member, ?_⟩)
    simpa using given.symm
  | connect =>
    simp only [World.step] at taken
    split at taken
    · cases taken
    next isIdle =>
    cases taken
    exact inv.connect (Option.not_isSome_iff_eq_none.mp isIdle) safe
  | disconnect =>
    cases taken
    exact inv.disconnect safe
  | openChannel other =>
    obtain ⟨link, isLink, rest⟩ := Option.bind_eq_some_iff.mp taken
    cases rest
    exact inv.openChannel isLink _
  | serve =>
    obtain ⟨link, isLink, rest⟩ := Option.bind_eq_some_iff.mp taken
    obtain ⟨⟨request, requests⟩, next, rest⟩ := Option.bind_eq_some_iff.mp rest
    obtain ⟨head, isHead, pair⟩ := Option.map_eq_some_iff.mp next
    cases pair
    cases rest
    refine inv.serve isLink ?_ (safe link isLink request isHead)
    exact (cons_head?_tail isHead).symm
  | passOn =>
    simp only [World.step] at taken
    split at taken
    · cases taken
    · next message results link split isLink =>
      cases taken
      refine inv.passOn split isLink rfl (fun other member => ?_) (fun other near here => ?_)
      · simp only [Link.messages, mem_append] at member ⊢
        rcases member with (old | new) | replayed
        · exact .inl (.inl old)
        · split at new
          · exact .inr new
          · cases new
        · exact .inl (.inr replayed)
      · simp only [Link.messages, mem_append] at near ⊢
        rcases near with (old | replayed) | new
        · exact .inl (.inl old)
        · exact .inr replayed
        · obtain rfl := mem_singleton.mp new
          exact .inl (.inr (by simp [here]))
    · next frames results link split isLink =>
      cases taken
      have joined : ∀ other, other ∈ Link.messages { link with replay := link.replay ++ frames } ↔
          other ∈ link.messages ∨ other ∈ Result.messages (.backfill frames) := by
        intro other
        simp [Link.messages, Result.messages, or_assoc]
      exact inv.passOn split isLink rfl (fun other => (joined other).mp) (fun other near _ => (joined other).mpr near)
    · next result results split isIdle =>
      cases taken
      exact inv.dropResult split isIdle
  | receiveLive =>
    obtain ⟨link, isLink, rest⟩ := Option.bind_eq_some_iff.mp taken
    obtain ⟨⟨message, live⟩, next, rest⟩ := Option.bind_eq_some_iff.mp rest
    obtain ⟨head, isHead, pair⟩ := Option.map_eq_some_iff.mp next
    cases pair
    cases rest
    have split : message :: link.live.tail = link.live := cons_head?_tail isHead
    refine inv.receive isLink rfl ?_
    simp only [coming, Link.messages]
    rw [← split]
    rfl
  | receiveReplay =>
    obtain ⟨link, isLink, rest⟩ := Option.bind_eq_some_iff.mp taken
    split at rest
    · cases rest
    · next message replay isReplay =>
      cases rest
      refine inv.receive isLink rfl ?_
      simp only [coming, Link.messages, isReplay]
      rw [append_assoc, append_assoc]
      exact perm_middle
    · next mark more replay isReplay =>
      cases rest
      exact inv.skipDone isLink isReplay

theorem Inv.noHole (quiet : w.Quiet) : w.NoHole channelId := by
  obtain ⟨isLink, isEmpty⟩ := quiet
  have covered := inv.connected _ isLink
  have none : w.coming ⟨[], [], []⟩ = [] := by simp [coming, Link.messages, isEmpty]
  intro id
  refine ⟨fun known => ⟨inv.held id known, id, known, Nat.le_refl id⟩, ?_⟩
  rintro ⟨posted, first, known, later⟩
  rcases covered.closed first id (.inl known) posted later with (held | ⟨message, member, -⟩) | asked
  · exact held
  · rw [none] at member
    cases member
  · obtain ⟨request, listed, -⟩ := asked
    cases listed

end World

/-- Every run of one client process, whatever is posted and however often it reconnects. -/
theorem reconnect_no_hole {isPublic : Nat → Bool} {members : List Nat} {model : Model}
    {channelId : Nat} {events : List Event} {w : World} (member : channelId ∈ members)
    (run : Machine.Run (step isPublic) (fun w event => event.Given channelId w ∧ event.Safe isPublic channelId w)
      (start members model) events w)
    (quiet : w.Quiet) : w.NoHole channelId := by
  have inv : w.Inv channelId := run.invariant (fun _ w => w.Inv channelId) (inv_start members model member)
    (fun _ _ _ _ inv permitted taken => inv.step permitted.1 permitted.2 taken)
  exact inv.noHole quiet

def note (messageId : Nat) : StoredMessage :=
  { messageId, channelId := 1, authorId := 2, createdAt := 0, kind := 0, broadcastStored := false
    authorName := text "ada", body := text "hello" }

def firstVisit : List Event := [.post (note 1), .passOn, .connect, .serve, .passOn, .receiveReplay, .receiveReplay]

def secondVisit : List Event :=
  firstVisit ++ [.disconnect, .post (note 2), .passOn, .connect, .serve, .passOn, .receiveReplay, .receiveReplay]

/-- Message 3 comes live before the backfill for message 2 is answered, and the connection
breaks there. -/
def overtaken : List Event :=
  firstVisit ++ [.disconnect, .post (note 2), .passOn, .connect, .post (note 3), .passOn,
    .receiveLive, .disconnect, .connect, .serve, .passOn, .receiveReplay]

def reached (events : List Event) : World :=
  let start := start [1] oneHeld
  (Machine.follow (step fun _ => false) (fun _ _ => true) start events).getD start

theorem reconnect_no_hole_second_visit :
    let w := reached secondVisit
    w.model.held 1 = [1, 2] ∧ w.Quiet ∧ w.NoHole 1 := by
  have followed : Machine.follow (step fun _ => false)
      (fun w event => decide (event.Given 1 w ∧ event.Safe (fun _ => false) 1 w))
      (start [1] oneHeld) secondVisit = some (reached secondVisit) := rfl
  have run := Machine.Run.nil.of_follow (fun _ _ permitted => of_decide_eq_true permitted) followed
  exact ⟨rfl, ⟨rfl, rfl⟩, reconnect_no_hole (by decide) run ⟨rfl, rfl⟩⟩

/-- The next backfill starts after message 3, so message 2 is never asked for again. -/
theorem overtaken_hole :
    let w := reached overtaken
    Machine.Run (step fun _ => false) (fun w event => event.Given 1 w) (start [1] oneHeld) overtaken w ∧
    w.Quiet ∧ w.model.held 1 = [1, 3] ∧ w.Posted 1 2 ∧ ¬w.NoHole 1 := by
  have followed : Machine.follow (step fun _ => false)
      (fun w event => decide (event.Given 1 w)) (start [1] oneHeld) overtaken = some (reached overtaken) := rfl
  have run := Machine.Run.nil.of_follow (fun _ _ permitted => of_decide_eq_true permitted) followed
  have held : (reached overtaken).model.held 1 = [1, 3] := rfl
  have posted : (reached overtaken).Posted 1 2 := ⟨note 2, .tail _ (.head _), rfl, rfl⟩
  refine ⟨run, ⟨rfl, rfl⟩, held, posted, fun noHole => ?_⟩
  have missing := (noHole 2).mpr ⟨posted, 1, held ▸ .head _, by decide⟩
  exact absurd missing (by decide)

end OpenChime.Client
