import OpenChime.Client.PrivateDm

/-! Who a private DM is sent to. `SlotMove` says all that one event can do to the session
in one slot; a session opens only where its key was checked or the user trusted it. -/

set_option autoImplicit false

namespace OpenChime.Client

open Shared Option

namespace Pdm

variable {Hs Ratchet : Type} {codec : PdmCodec}
  {calls : PdmCalls Hs Ratchet} {d : Pdm Hs Ratchet}
  {event : PdmEvent} {i j : Fin pdmClientMax} {s t : PdmSess Hs Ratchet}
  {fits : PdmSess Hs Ratchet → Bool}

theorem first_spec (found : d.first fits = some (i, s)) : d.s i = some s ∧ fits s = true := by
  obtain ⟨k, -, here⟩ := List.exists_of_findSome?_eq_some found
  obtain ⟨u, isHere, same⟩ := map_eq_some_iff.mp here
  cases same
  obtain ⟨isSess, holds⟩ := filter_eq_some_iff.mp isHere
  exact ⟨isSess, holds⟩

theorem first_none (missing : d.first fits = none) (here : d.s i = some s) : fits s = false := by
  have none := List.findSome?_eq_none_iff.mp missing i (List.mem_finRange i)
  rw [here] at none
  simpa using none

theorem byId_spec {id : Nat} (found : d.byId id = some (i, s)) : d.s i = some s ∧ s.id = id ∧ id ≠ 0 := by
  unfold byId at found
  split at found
  · cases found
  next nonzero =>
  obtain ⟨here, isId⟩ := first_spec found
  exact ⟨here, by simpa using isId, nonzero⟩

theorem newSess_spec (found : d.newSess = some i) : d.s i = none := by
  simpa [isNone_iff_eq_none] using List.find?_some found

def Differs (codec : PdmCodec) (d : Pdm Hs Ratchet) (s : PdmSess Hs Ratchet) : Prop :=
  ∃ fp, d.store.remembered s.peer = some fp ∧ fp ≠ codec.fingerprint s.peerPk

/-- The ratchet a session starts with: as the handshake left it, after the opener's first message, or
after that message was heard. -/
inductive Starts (calls : PdmCalls Hs Ratchet) (s : PdmSess Hs Ratchet) : Ratchet → Prop where
  | split {hs : Hs} {peerPk : List UInt8} {r : Ratchet} (isSplit : calls.noiseSplit hs = some (peerPk, some r)) :
      Starts calls s r
  | spoke {hs : Hs} {peerPk body : List UInt8} {r after : Ratchet}
      (isSplit : calls.noiseSplit hs = some (peerPk, some r))
      (speaks : calls.encrypt r [] = some (after, body)) : Starts calls s after
  | heard {r after : Ratchet} {body pt : List UInt8} (has : s.r = some r)
      (hears : calls.decrypt r body = some (after, pt)) : Starts calls s after

def Usable (s : PdmSess Hs Ratchet) : Prop :=
  s.state = .open_ ∨ s.state = .held

/-- All that one event can do to the session in a slot. -/
inductive SlotMove (codec : PdmCodec) (calls : PdmCalls Hs Ratchet)
    (d : Pdm Hs Ratchet) (event : PdmEvent) :
    Option (PdmSess Hs Ratchet) → Option (PdmSess Hs Ratchet) → Prop where
  | same (slot : Option (PdmSess Hs Ratchet)) : SlotMove codec calls d event slot slot
  | ended (s : PdmSess Hs Ratchet) : SlotMove codec calls d event (some s) none
  | fresh {t : PdmSess Hs Ratchet} (state : t.state = .opening ∨ t.state = .invited)
      (id : t.id = 0 ∨ d.byId t.id = none) (silent : t.r = none) (plain : t.plain = []) :
      SlotMove codec calls d event none (some t)
  | named {s : PdmSess Hs Ratchet} {id peer : Nat} (state : s.state = .opening)
      (isEvent : event = .frame (.opened id peer)) (found : (d.first fun s => waiting s && s.peer = peer).isSome) :
      SlotMove codec calls d event (some s) (some { s with id })
  | answered {s : PdmSess Hs Ratchet} {hs : Option Hs} (state : s.state = .invited) :
      SlotMove codec calls d event (some s) (some { s with hs, state := .answered })
  | starting {s : PdmSess Hs Ratchet} {r : Ratchet} {peerPk : List UInt8} {openedMs : Nat}
      (state : s.state = .answered) (starts : Starts calls s r) : SlotMove codec calls d event (some s)
        (some { s with hs := none, r := some r, peerPk, openedMs, state := .starting })
  | announced {s : PdmSess Hs Ratchet} {hs : Option Hs} {r : Ratchet} {peerPk : List UInt8}
      {openedMs : Nat} {after : PdmState} (state : s.state = .opening ∨ s.state = .starting) (starts : Starts calls s r)
      (known : after = .held ∨ after = .open_ ∧ (calls.read = false ∨ ¬Differs codec d { s with peerPk })) :
      SlotMove codec calls d event (some s) (some { s with hs, r := some r, peerPk, openedMs, state := after })
  | trusted {s : PdmSess Hs Ratchet} (state : s.state = .held) (isEvent : event = .command (.trust s.id)) :
      SlotMove codec calls d event (some s) (some { s with state := .open_ })
  | used {s : PdmSess Hs Ratchet} {r : Option Ratchet} {plain : List (List UInt8 × Text)} {msgs : Nat}
      (usable : Usable s) (isEvent : (∃ said, event = .seal_ s.id said) ∨ ∃ body, event = .unseal_ s.id body) :
      SlotMove codec calls d event (some s) (some { s with r, plain, msgs })

theorem SlotMove.of_stays {old new : Option (PdmSess Hs Ratchet)} (stays : new = old ∨ new = none) :
    SlotMove codec calls d event old new := by
  rcases stays with rfl | rfl
  · exact .same _
  cases old with
  | none => exact .same _
  | some s => exact .ended s

/-- One slot moves; the other sessions stay, or end. -/
def Moves (codec : PdmCodec) (calls : PdmCalls Hs Ratchet) (event : PdmEvent)
    (d after : Pdm Hs Ratchet) : Prop :=
  ∃ i, SlotMove codec calls d event (d.s i) (after.s i) ∧ ∀ j ≠ i, after.s j = d.s j ∨ after.s j = none

namespace Moves

variable {after : Pdm Hs Ratchet}

theorem slot (moves : Moves codec calls event d after) (j : Fin pdmClientMax) :
    SlotMove codec calls d event (d.s j) (after.s j) := by
  obtain ⟨i, move, others⟩ := moves
  by_cases here : j = i
  · exact here ▸ move
  · exact .of_stays (others j here)

theorem of_stays (stays : ∀ j, after.s j = d.s j ∨ after.s j = none) : Moves codec calls event d after :=
  ⟨⟨0, Nat.zero_lt_succ _⟩, .of_stays (stays _), fun j _ => stays j⟩

theorem of_eq (same : after.s = d.s) : Moves codec calls event d after :=
  of_stays fun j => .inl (congrFun same j)

theorem same : Moves codec calls event d d :=
  of_eq rfl

theorem update {slots : Fin pdmClientMax → Option (PdmSess Hs Ratchet)}
    {old slot : Option (PdmSess Hs Ratchet)} (isAfter : after.s = Function.update slots i slot) (others : slots = d.s)
    (here : d.s i = old) (move : SlotMove codec calls d event old slot) : Moves codec calls event d after := by
  refine ⟨i, ?_, fun j other => .inl ?_⟩
  · rw [isAfter, Function.update_self, here]
    exact move
  · rw [isAfter, Function.update_of_ne other, others]

theorem ends (isAfter : after.s = Function.update d.s i none) (here : d.s i = some s) :
    Moves codec calls event d after :=
  update isAfter rfl here (.ended s)

end Moves

theorem check_differs {book : PeerBook} {user : Nat} {fp : List UInt8} {read reread saved : Bool} :
    (book.check user fp read reread saved).1 = .differs ↔
      read = true ∧ ∃ known, book.remembered user = some known ∧ known ≠ fp := by
  unfold PeerBook.check PeerBook.loaded PeerBook.remembered
  by_cases usable : book.usable ∧ user ≠ 0
  · rw [if_neg (by simpa using usable), if_pos usable]
    cases read with
    | false => simp
    | true =>
      simp only [if_true, if_pos usable, true_and]
      split
      · next known isKnown => simp [isKnown]
      · next isKnown => simp [isKnown]
  · rw [if_pos (by simpa [imp_iff_not_or] using usable), if_neg usable]
    simp

theorem announce_moves {hs : Option Hs} {r : Ratchet} {peerPk : List UInt8} {openedMs : Nat} (here : d.s i = some s)
    (state : s.state = .opening ∨ s.state = .starting) (starts : Starts calls s r) : Moves codec calls event d
      (announce codec calls d i { s with hs, r := some r, peerPk, openedMs }).1 := by
  refine .update rfl rfl here (.announced state starts ?_)
  by_cases differs : calls.read = true ∧ Differs codec d { s with peerPk }
  · left
    exact if_pos (check_differs.mpr differs)
  right
  refine ⟨if_neg fun found => differs (check_differs.mp found), ?_⟩
  rw [← Bool.not_eq_true, ← not_and_or]
  exact differs

theorem hsDone_moves {out : List PdmOut} {hs : Option Hs} (here : d.s i = some s)
    (asked : s.initiator = true ∧ s.state = .opening ∨ s.initiator = false ∧ s.state = .answered) :
    Moves codec calls event d (hsDone codec calls d i { s with hs } out).1 := by
  unfold hsDone
  split
  · next after more ui opened =>
    obtain ⟨noise, -, rest⟩ := bind_eq_some_iff.mp opened
    obtain ⟨⟨peerPk, ratchet⟩, isSplit, rest⟩ := bind_eq_some_iff.mp rest
    obtain ⟨r, isRatchet, rest⟩ := bind_eq_some_iff.mp rest
    rw [isRatchet] at isSplit
    rcases asked with ⟨initiator, state⟩ | ⟨responder, state⟩
    · rw [if_pos initiator] at rest
      obtain ⟨⟨r, body⟩, spoken, rest⟩ := bind_eq_some_iff.mp rest
      dsimp only at rest
      split at rest
      · cases rest
        exact announce_moves here (.inl state) (.spoke isSplit spoken)
      · cases rest
    · rw [if_neg (by simp [responder])] at rest
      cases rest
      exact .update rfl rfl here (.starting state (.split isSplit))
  · exact Moves.ends rfl here

theorem frame_moves (frame : PdmFrame) : Moves codec calls (.frame frame) d (pdmFrame codec calls d frame).1 := by
  cases frame <;> unfold pdmFrame <;> dsimp only
  case opened id peer =>
    split
    · next i s found =>
      obtain ⟨here, fits⟩ := first_spec found
      have state : s.state = .opening := by
        simp only [waiting, Bool.and_eq_true, decide_eq_true_eq] at fits
        exact fits.1.1
      exact .update rfl rfl here (.named state rfl (by rw [found]; rfl))
    · exact .same
  case invite id sender hs =>
    split
    · exact .same
    next unknown =>
    split
    · exact .same
    next i free =>
    exact .update rfl rfl (newSess_spec free) (.fresh (.inr rfl) (.inr unknown) rfl rfl)
  case hsFor id hs =>
    split
    · exact .same
    next i s found =>
    obtain ⟨here, -, -⟩ := byId_spec found
    split
    · next opener =>
      split
      · split
        · exact hsDone_moves here (.inl opener)
        · exact .ends rfl here
      · exact .ends rfl here
    · split
      · next answerer =>
        split
        · exact hsDone_moves here (.inr (by simpa using answerer))
        · exact .ends rfl here
      · exact .ends rfl here
  case msg id body =>
    split
    · exact .same
    next i s found =>
    obtain ⟨here, -, -⟩ := byId_spec found
    split
    · exact .ends rfl here
    next r has =>
    split
    · exact .same
    next fits =>
    split
    · exact .ends rfl here
    next heard =>
    have starting : s.state = .starting := by
      by_contra other
      exact fits (.inl other)
    exact announce_moves here (.inr starting) (.heard has heard)
  case ended id reason =>
    split
    · next i s found =>
      have here : d.s i = some s := by
        rcases or_eq_some_iff.mp found with named | ⟨-, nameless⟩
        · exact (byId_spec named).1
        split at nameless
        · exact (first_spec nameless).1
        · cases nameless
      exact .ends rfl here
    · exact .same
  case malformed => exact .same

theorem ensureKey_s {after : Pdm Hs Ratchet} {key : List UInt8}
    (found : d.ensureKey calls = some (after, key)) : after.s = d.s := by
  unfold ensureKey at found
  split at found
  · cases found
    rfl
  obtain ⟨_, -, same⟩ := map_eq_some_iff.mp found
  cases same
  rfl

theorem command_moves (command : PdmCommand) :
    Moves codec calls (.command command) d (pdmCommand codec calls d command).1 := by
  cases command <;> unfold pdmCommand <;> dsimp only
  case open_ peer =>
    split
    · exact .same
    split
    · exact .same
    next keyed key found =>
    have sessions : keyed.s = d.s := by
      split at found
      · exact ensureKey_s found
      · cases found
    split
    · exact .of_eq sessions
    next i free =>
    have empty : d.s i = none := sessions ▸ newSess_spec free
    split
    · split
      · exact .update rfl sessions empty (.fresh (.inl rfl) (.inl rfl) rfl rfl)
      · exact .update rfl sessions empty (.same _)
    · exact .update rfl sessions empty (.same _)
  case accept id =>
    split
    · exact .same
    next i s found =>
    obtain ⟨here, -, -⟩ := byId_spec found
    split
    · exact .same
    next invited =>
    split
    · exact .ends rfl here
    next keyed key hasKey =>
    have sessions := ensureKey_s hasKey
    split
    · split
      · exact .update rfl sessions here (.answered (not_not.mp invited))
      · exact .update rfl sessions here (.ended s)
    · exact .update rfl sessions here (.ended s)
  case decline id =>
    split
    · exact .same
    next i s found =>
    split
    · exact .same
    · exact .ends rfl (byId_spec found).1
  case close id =>
    split
    · exact .same
    · next i s found => exact .ends rfl (byId_spec found).1
  case trust id =>
    split
    · exact .same
    next i s found =>
    obtain ⟨here, isId, -⟩ := byId_spec found
    split
    · exact .same
    next held =>
    exact .update rfl rfl here (.trusted (not_not.mp held) (by rw [isId]))

theorem seal_moves (id : Nat) (said : Text) : Moves codec calls (.seal_ id said) d
    (pdmSeal codec calls d id said).2 := by
  unfold pdmSeal
  split
  · exact .same
  next i s found =>
  obtain ⟨here, rfl, -⟩ := byId_spec found
  split
  · exact .same
  split
  · exact .same
  next fits =>
  have usable : Usable s := by
    by_contra other
    exact fits (.inl fun isOpen => other (.inl isOpen))
  split
  · exact .same
  split
  · exact .update rfl rfl here (.used usable (.inl ⟨said, rfl⟩))
  · exact .update rfl rfl here (.used usable (.inl ⟨said, rfl⟩))

theorem open_of_seal {c : Nat} {said body : Text} (sealed : (pdmSeal codec calls d c said).1 = some body) :
    (∃ i s, d.byId c = some (i, s) ∧ s.state = .open_) ∧ said.length ≤ pdmMaxText := by
  unfold pdmSeal at sealed
  split at sealed
  · cases sealed
  next i s found =>
  split at sealed
  · cases sealed
  split at sealed
  · cases sealed
  next fits =>
  refine ⟨⟨i, s, found, ?_⟩, ?_⟩
  · by_contra other
    exact fits (.inl other)
  · by_contra long
    exact fits (.inr (.inr (Nat.lt_of_not_le long)))

theorem unseal_moves (id : Nat) (body : List UInt8) :
    Moves codec calls (.unseal_ id body) d (pdmUnseal codec calls d id body).2 := by
  unfold pdmUnseal
  split
  · exact .same
  split
  · exact .same
  next i s found =>
  obtain ⟨here, rfl, -⟩ := byId_spec found
  split
  · exact .same
  split
  · exact .same
  dsimp only
  split
  · exact .same
  next fits =>
  have usable : Usable s := by
    by_contra other
    exact fits (.inl (not_or.mp other))
  split
  · exact .same
  split
  · exact .same
  split
  · exact .same
  split
  · exact .update rfl rfl here (.used usable (.inr ⟨body, rfl⟩))
  · exact .update rfl rfl here (.used usable (.inr ⟨body, rfl⟩))

theorem step_moves (calls : PdmCalls Hs Ratchet) (event : PdmEvent) :
    Moves codec calls event d (step codec calls d event) := by
  cases event with
  | frame frame => exact frame_moves frame
  | command command => exact command_moves command
  | tick now =>
    refine .of_stays fun j => ?_
    change (d.s j).filter (fun s => !expired now s) = d.s j ∨ (d.s j).filter (fun s => !expired now s) = none
    cases d.s j with
    | none => exact .inl rfl
    | some s => exact (ite_eq_or_eq ..)
  | seal_ id said => exact seal_moves id said
  | unseal_ id body => exact unseal_moves id body

def next (codec : PdmCodec) (d : Pdm Hs Ratchet)
    (event : PdmCalls Hs Ratchet × PdmEvent) : Option (Pdm Hs Ratchet) :=
  some (step codec event.1 d event.2)

/-- The remembered peers are read whenever a key is checked, if there are any. -/
def Consults (d : Pdm Hs Ratchet) (event : PdmCalls Hs Ratchet × PdmEvent) : Prop :=
  event.1.read = true ∨ d.store.peers = []

/-- The event that opened the session in a slot: the user's trust, or the first look at a key
that is not another than the one remembered. -/
def Admitted (codec : PdmCodec) (start : Pdm Hs Ratchet)
    (events : List (PdmCalls Hs Ratchet × PdmEvent)) (i : Fin pdmClientMax)
    (s : PdmSess Hs Ratchet) : Prop :=
  ∃ front calls event back before, events = front ++ (calls, event) :: back ∧
    Machine.Run (next codec) Consults start front before ∧
    (∃ t, (step codec calls before event).s i = some t ∧ t.state = .open_ ∧ t.id = s.id ∧
      t.peer = s.peer ∧ t.peerPk = s.peerPk) ∧
    (event = .command (.trust s.id) ∨ (∀ t, before.s i = some t → t.state ≠ .held) ∧ ¬Differs codec before s)

variable {events : List (PdmCalls Hs Ratchet × PdmEvent)}

theorem Admitted.later {start : Pdm Hs Ratchet}
    (admitted : Admitted codec start events i s)
    (event : PdmCalls Hs Ratchet × PdmEvent) (id : t.id = s.id) (peer : t.peer = s.peer)
    (peerPk : t.peerPk = s.peerPk) : Admitted codec start (events ++ [event]) i t := by
  obtain ⟨front, calls, other, back, before, split, run, ⟨u, here, isOpen, sameId, samePeer, sameKey⟩, why⟩ := admitted
  refine ⟨front, calls, other, back ++ [event], before, by rw [split]; simp, run,
    ⟨u, here, isOpen, sameId.trans id.symm, samePeer.trans peer.symm, sameKey.trans peerPk.symm⟩, ?_⟩
  rw [id]
  refine why.imp_right fun reasons => ⟨reasons.1, ?_⟩
  unfold Differs
  rw [peer, peerPk]
  exact reasons.2

theorem admitted_of_run {start d : Pdm Hs Ratchet} (unused : ∀ i, start.s i = none)
    (run : Machine.Run (next codec) Consults start events d) :
    ∀ i s, d.s i = some s → s.state = .open_ → Admitted codec start events i s := by
  induction run with
  | nil =>
    intro i s here
    simp [unused i] at here
  | @snoc events event before after run permitted taken ih =>
    cases taken
    intro i t here isOpen
    have move := (@step_moves _ _ codec before event.1 event.2).slot i
    have opens : ∀ why, Admitted codec start (events ++ [event]) i t := fun why =>
      ⟨events, event.1, event.2, [], before, rfl, run, ⟨t, here, isOpen, rfl, rfl, rfl⟩, why⟩
    rw [here] at move
    generalize isBefore : before.s i = old at move
    cases move with
    | same => exact (ih i t isBefore isOpen).later event rfl rfl rfl
    | fresh state =>
      rw [isOpen] at state
      rcases state with other | other <;> cases other
    | named state =>
      have clash := isOpen.symm.trans state
      cases clash
    | answered state => cases isOpen
    | starting state => cases isOpen
    | announced state starts known =>
      refine opens (.inr ⟨fun u isHere => ?_, ?_⟩)
      · cases isBefore.symm.trans isHere
        rcases state with state | state <;> simp [state]
      · rcases known with held | ⟨-, unread | same⟩
        · cases isOpen.symm.trans held
        · rintro ⟨fp, isKnown, -⟩
          have empty := permitted.resolve_left (by simp [unread])
          simp [PeerBook.remembered, empty] at isKnown
        · exact same
    | trusted state isEvent => exact opens (.inl isEvent)
    | used usable isEvent => exact (ih i _ isBefore isOpen).later event rfl rfl rfl

end Pdm

end OpenChime.Client
