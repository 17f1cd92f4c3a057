import OpenChime.Client.PrivateDmTrust

/-! Two clients in one private DM, their ratchets a perfect channel: what one seals the
other opens, once. A body that came before is found by its digest, so each body reads the
same whenever it comes. -/

set_option autoImplicit false

namespace OpenChime.Client

open Shared List Function Option

structure Whisper where
  fromLeft : Bool
  raw : List UInt8
  said : Text

structure PerfectRatchet where
  left : Bool
  opened : List (List UInt8)
  deriving DecidableEq

def PerfectRatchet.decrypt (log : List Whisper) (r : PerfectRatchet) (raw : List UInt8) :
    Option (PerfectRatchet × Text) :=
  if raw ∈ r.opened then none
  else (log.find? fun m => m.fromLeft ≠ r.left ∧ m.raw = raw).map fun m =>
    ({ r with opened := raw :: r.opened }, m.said)

section

variable {Hs : Type} (codec : PdmCodec)

/-- The calls a client's seals and unseals make; the next message it seals is `raw`. -/
def perfectCalls (log : List Whisper) (raw : List UInt8) : PdmCalls Hs PerfectRatchet where
  deviceKey := none
  noiseInit _ _ _ := none
  noiseRead _ _ := none
  noiseWrite _ := none
  noiseSplit _ := none
  encrypt r _ := some (r, raw)
  decrypt := PerfectRatchet.decrypt log
  write _ := true
  read := true
  reread := true
  saved := true
  keyBeside := true
  now := 0

/-- After an honest handshake a ratchet starts at its own end of the channel, and the opener's first
message, which says nothing, leaves it there. -/
def PdmCalls.honest (calls : PdmCalls Hs PerfectRatchet) (left : Bool) : PdmCalls Hs PerfectRatchet :=
  { calls with
    noiseSplit := fun hs => (calls.noiseSplit hs).map fun p => (p.1, p.2.map fun _ => ⟨left, []⟩)
    encrypt := fun r said => (calls.encrypt r said).map fun p => (r, p.2)
    decrypt := fun r raw => (calls.decrypt r raw).map fun p => (r, p.2) }

def PdmEvent.speaksIn (c : Nat) : PdmEvent → Bool
  | .seal_ id _ | .unseal_ id _ => id = c
  | _ => false

structure PdmPair (Hs : Type) where
  client : Bool → Pdm Hs PerfectRatchet
  log : List Whisper

inductive PairEvent (Hs : Type) where
  | seal_ (left : Bool) (said : Text) (raw : List UInt8)
  | unseal_ (left : Bool) (body : List UInt8)
  | other (left : Bool) (calls : PdmCalls Hs PerfectRatchet) (event : PdmEvent)

def sealedBody (raw : List UInt8) : Text :=
  sealPrefix ++ codec.base64 raw

namespace PdmPair

variable (c : Nat) (w : PdmPair Hs)

/-- What a client says and reads in channel `c`. -/
def sealAt (left : Bool) (said : Text) (raw : List UInt8) :=
  (w.client left).pdmSeal codec (perfectCalls w.log raw) c said

def unsealAt (left : Bool) (body : List UInt8) :=
  (w.client left).pdmUnseal codec (perfectCalls w.log []) c body

def step : PairEvent Hs → PdmPair Hs
  | .seal_ left said raw =>
    let (body, d) := w.sealAt codec c left said raw
    { client := update w.client left d
      log := if body.isSome then w.log ++ [⟨left, raw, said⟩] else w.log }
  | .unseal_ left body =>
    { w with client := update w.client left (w.unsealAt codec c left body).2 }
  | .other left calls event =>
    if event.speaksIn c then w
    else { w with client := update w.client left ((w.client left).step codec (calls.honest left) event) }

/-- Both have signed in, and neither is in an encrypted DM. -/
structure New : Prop where
  silent : w.log = []
  unused : ∀ left i, (w.client left).s i = none

/-- A new ciphertext is one that was not there, and texts have no NUL. -/
def Perfect : PairEvent Hs → Prop
  | .seal_ _ said raw => raw.length = ratchetOverhead + said.length ∧ 0 ∉ said ∧ ∀ m ∈ w.log, m.raw ≠ raw
  | _ => True

/-- The daemon respells no body of the other side, and names no second session by the DM's id. -/
def Relayed : PairEvent Hs → Prop
  | .unseal_ left body => ∀ m ∈ w.log, m.fromLeft ≠ left → body.take sealPrefix.length = sealPrefix →
      codec.unbase64 (body.drop sealPrefix.length) = some m.raw → body.drop sealPrefix.length = codec.base64 m.raw
  | .other left _ (.frame (.opened id peer)) => id = c →
      ((w.client left).first fun s => Pdm.waiting s && s.peer = peer).isSome → (w.client left).byId c = none
  | _ => True

/-- The DM's sessions at these sides do not end. -/
def GoesOn (sides : List Bool) (event : PairEvent Hs) : Prop :=
  ∀ left ∈ sides, ∀ j, ((w.client left).s j).any (·.id = c) → (((w.step codec c event).client left).s j).isSome

instance (event : PairEvent Hs) : Decidable (w.Perfect event) := by
  cases event <;> unfold Perfect <;> infer_instance

instance [DecidableEq Hs] (event : PairEvent Hs) : Decidable (w.Relayed codec c event) := by
  unfold Relayed
  split <;> infer_instance

instance (sides : List Bool) (event : PairEvent Hs) : Decidable (w.GoesOn codec c sides event) := by
  unfold GoesOn
  infer_instance

def next (event : PairEvent Hs) : Option (PdmPair Hs) :=
  some (w.step codec c event)

end PdmPair

namespace Pdm

variable {codec} {calls : PdmCalls Hs PerfectRatchet}
  {d : Pdm Hs PerfectRatchet} {i : Fin pdmClientMax}
  {s : PdmSess Hs PerfectRatchet} {c : Nat} {r : PerfectRatchet} {body : List UInt8}

theorem byId_none (named : c ≠ 0) (missing : d.byId c = none) (here : d.s i = some s) : s.id ≠ c := by
  rw [byId, if_neg named] at missing
  simpa using first_none missing here

theorem not_usable {state : PdmState} (isState : s.state = state)
    (early : state ≠ .open_ ∧ state ≠ .held := by decide) : ¬Usable s := by
  rintro (isOpen | isHeld)
  · exact early.1 (isState.symm.trans isOpen)
  · exact early.2 (isState.symm.trans isHeld)

theorem Starts.honest {side : Bool} (starts : Starts (calls.honest side) s r)
    (begun : ∀ r, s.r = some r → r = ⟨side, []⟩) : r = ⟨side, []⟩ := by
  cases starts with
  | split isSplit =>
    obtain ⟨p, -, same⟩ := map_eq_some_iff.mp isSplit
    obtain ⟨-, -, rfl⟩ := map_eq_some_iff.mp (congrArg Prod.snd same)
    rfl
  | spoke isSplit spoken =>
    obtain ⟨p, -, same⟩ := map_eq_some_iff.mp isSplit
    obtain ⟨-, -, rfl⟩ := map_eq_some_iff.mp (congrArg Prod.snd same)
    obtain ⟨q, -, same⟩ := map_eq_some_iff.mp spoken
    exact (congrArg Prod.fst same).symm
  | heard has hears =>
    obtain ⟨q, -, same⟩ := map_eq_some_iff.mp hears
    cases same
    exact begun _ has

theorem unseal_had {had : Text} (nonempty : body ≠ []) (found : d.byId c = some (i, s))
    (kept : plainFind s (codec.digest body) = some had) : pdmUnseal codec calls d c body = (had, d) := by
  unfold pdmUnseal
  rw [if_neg (by simpa using nonempty)]
  simp only [found, kept]

theorem unseal_opens {raw : List UInt8} {r' : PerfectRatchet} {said : Text} (found : d.byId c = some (i, s))
    (hasRatchet : s.r = some r) (usable : Usable s) (unknown : plainFind s (codec.digest (sealedBody codec raw)) = none)
    (length : raw.length = ratchetOverhead + said.length) (short : said.length ≤ pdmMaxText)
    (decrypts : calls.decrypt r raw = some (r', said)) (noNul : 0 ∉ said) :
    (pdmUnseal codec calls d c (sealedBody codec raw)).1 = said := by
  have prefixLength : sealPrefix.length = 9 := by decide
  have bodyLength : (sealedBody codec raw).length = 9 + 4 * ((raw.length + 2) / 3) := by
    rw [sealedBody, length_append, codec.length_base64, prefixLength]
  have overhead : ratchetOverhead = 56 := rfl
  have encoded : (sealedBody codec raw).drop sealPrefix.length = codec.base64 raw := drop_left
  have decodes : codec.decode (codec.base64 raw) ((codec.base64 raw).length / 4 * 3 + 3) = some raw := by
    unfold PdmCodec.decode
    rw [codec.unbase64_base64, codec.length_base64, filter_some, if_pos]
    simp only [decide_eq_true_eq]
    omega
  unfold pdmUnseal
  rw [if_neg (by omega)]
  simp only [found, unknown, hasRatchet]
  rw [if_neg]
  · rw [encoded]
    simp only [decodes]
    rw [if_neg (by omega)]
    simp only [decrypts]
    rw [if_neg noNul]
  · rintro (⟨notOpen, notHeld⟩ | tooShort | other)
    · exact usable.elim notOpen notHeld
    · omega
    · exact other take_left

theorem unseal_cases : (pdmUnseal codec calls d c body).2 = d ∨
    ∃ i s r raw r' said, d.byId c = some (i, s) ∧ s.r = some r ∧ Usable s ∧ body.take sealPrefix.length = sealPrefix ∧
      codec.unbase64 (body.drop sealPrefix.length) = some raw ∧ calls.decrypt r raw = some (r', said) ∧
      (0 ∈ said ∨ (pdmUnseal codec calls d c body).2 = d.set i (some { s with
        r := some r', plain := s.plain ++ [(codec.digest body, said)], msgs := s.msgs + 1 })) := by
  unfold pdmUnseal
  split
  · exact .inl rfl
  split
  · exact .inl rfl
  next i s found =>
  split
  · exact .inl rfl
  split
  · exact .inl rfl
  next r has =>
  dsimp only
  split
  · exact .inl rfl
  next fits =>
  rw [not_or, not_or, not_not] at fits
  split
  · exact .inl rfl
  next raw decodes =>
  split
  · exact .inl rfl
  split
  · exact .inl rfl
  next r' said decrypts =>
  right
  refine ⟨i, s, r, raw, r', said, found, has, ?_, fits.2.2, (filter_eq_some_iff.mp decodes).1, decrypts, ?_⟩
  · by_contra other
    exact fits.1 (not_or.mp other)
  · split
    · next nul => exact .inl nul
    · exact .inr rfl

end Pdm

theorem sealedBody_injective : Function.Injective (sealedBody codec) := by
  intro raw other same
  have encoded := append_cancel_left same
  have decoded := congrArg codec.unbase64 encoded
  rw [codec.unbase64_base64, codec.unbase64_base64] at decoded
  exact some.inj decoded

structure LogOk (log : List Whisper) : Prop where
  once : ∀ m ∈ log, ∀ other ∈ log, m.raw = other.raw → m = other
  length : ∀ m ∈ log, m.raw.length = ratchetOverhead + m.said.length
  short : ∀ m ∈ log, m.said.length ≤ pdmMaxText
  noNul : ∀ m ∈ log, 0 ∉ m.said

theorem PerfectRatchet.decrypt_spec {log : List Whisper} {r r' : PerfectRatchet}
    {raw : List UInt8} {said : Text} (decrypts : r.decrypt log raw = some (r', said)) :
    (∃ m ∈ log, m.fromLeft ≠ r.left ∧ m.raw = raw ∧ m.said = said) ∧ r' = ⟨r.left, raw :: r.opened⟩ := by
  unfold PerfectRatchet.decrypt at decrypts
  split at decrypts
  · cases decrypts
  obtain ⟨m, found, same⟩ := map_eq_some_iff.mp decrypts
  cases same
  have fits := find?_some found
  simp only [decide_eq_true_eq] at fits
  exact ⟨⟨m, mem_of_find?_eq_some found, fits.1, fits.2, rfl⟩, rfl⟩

theorem PerfectRatchet.decrypt_of_mem {log : List Whisper} {r : PerfectRatchet} {m : Whisper}
    (ok : LogOk log) (mem : m ∈ log) (other : m.fromLeft ≠ r.left) (new : m.raw ∉ r.opened) :
    r.decrypt log m.raw = some (⟨r.left, m.raw :: r.opened⟩, m.said) := by
  unfold PerfectRatchet.decrypt
  rw [if_neg new]
  cases found : log.find? fun n => n.fromLeft ≠ r.left ∧ n.raw = m.raw with
  | none =>
    have missing := find?_eq_none.mp found m mem
    simp [other] at missing
  | some n =>
    have fits := find?_some found
    simp only [decide_eq_true_eq] at fits
    rw [ok.once n (mem_of_find?_eq_some found) m mem fits.2]
    rfl

namespace PdmPair

variable {codec} {c : Nat} {w : PdmPair Hs} {i : Fin pdmClientMax}
  {left side : Bool} {said : Text} {raw : List UInt8}

/-- What a side knows of the channel: it keeps the texts it sealed and those it opened. -/
structure Knows (codec : PdmCodec) (log : List Whisper) (side : Bool)
    (opened : List (List UInt8)) (plain : List (List UInt8 × Text)) : Prop where
  heard : ∀ raw ∈ opened, ∃ m ∈ log, m.raw = raw
  sound : ∀ entry ∈ plain, ∃ m ∈ log, entry = (codec.digest (sealedBody codec m.raw), m.said)
  kept : ∀ m ∈ log, m.fromLeft = side ∨ m.raw ∈ opened → (codec.digest (sealedBody codec m.raw), m.said) ∈ plain

variable {d : Pdm Hs PerfectRatchet} {log : List Whisper} {opened : List (List UInt8)}
  {plain : List (List UInt8 × Text)} {s : PdmSess Hs PerfectRatchet} {m : Whisper}

theorem Knows.spoken {plain : List (List UInt8 × Text)} {log : List Whisper} (knows : Knows codec log side opened plain)
    (fresh : ∀ n ∈ log, n.raw ≠ m.raw) (more : List (List UInt8 × Text))
    (own : more = if m.fromLeft = side then [(codec.digest (sealedBody codec m.raw), m.said)] else []) :
    Knows codec (log ++ [m]) side opened (plain ++ more) := by
  constructor
  · intro raw isOpened
    obtain ⟨n, isMessage, same⟩ := knows.heard raw isOpened
    exact ⟨n, mem_append_left _ isMessage, same⟩
  · intro entry isEntry
    rcases mem_append.mp isEntry with old | new
    · obtain ⟨n, isMessage, same⟩ := knows.sound entry old
      exact ⟨n, mem_append_left _ isMessage, same⟩
    rw [own] at new
    split at new
    · exact ⟨m, by simp, mem_singleton.mp new⟩
    · cases new
  · intro n isMessage known
    rcases mem_append.mp isMessage with old | new
    · exact mem_append_left _ (knows.kept n old known)
    obtain rfl := mem_singleton.mp new
    rcases known with mine | isOpened
    · rw [own, if_pos mine]
      exact mem_concat_self
    · obtain ⟨other, isOther, same⟩ := knows.heard _ isOpened
      exact absurd same (fresh other isOther)

theorem Knows.hears {plain : List (List UInt8 × Text)} {log : List Whisper}
    (knows : Knows codec log side opened plain) (ok : LogOk log) (mem : m ∈ log) :
    Knows codec log side (m.raw :: opened) (plain ++ [(codec.digest (sealedBody codec m.raw), m.said)]) := by
  constructor
  · intro raw isOpened
    rcases mem_cons.mp isOpened with rfl | old
    · exact ⟨m, mem, rfl⟩
    · exact knows.heard raw old
  · intro entry isEntry
    rcases mem_append.mp isEntry with old | new
    · exact knows.sound entry old
    · exact ⟨m, mem, mem_singleton.mp new⟩
  · intro n isMessage known
    by_cases same : n.raw = m.raw
    · rw [ok.once n isMessage m mem same]
      exact mem_concat_self
    · refine mem_append_left _ (knows.kept n isMessage (known.imp_right fun isOpened => ?_))
      exact (mem_cons.mp isOpened).resolve_left same

/-- One side of the DM: one session at most, and once it can be used, the ratchet and the texts of what
was said so far. Before that nothing is kept. -/
structure Holds (codec : PdmCodec) (c : Nat) (log : List Whisper) (side : Bool)
    (d : Pdm Hs PerfectRatchet) (opened : List (List UInt8)) (plain : List (List UInt8 × Text)) : Prop where
  named : c ≠ 0
  only : ∀ i j s t, d.s i = some s → d.s j = some t → s.id = c → t.id = c → i = j
  each : ∀ j s, d.s j = some s → (¬Pdm.Usable s → s.plain = [] ∧ ∀ r, s.r = some r → r = ⟨side, []⟩) ∧
    (s.id = c → Pdm.Usable s → s.plain = plain ∧ s.r = some ⟨side, opened⟩)
  before : (∀ j s, d.s j = some s → s.id = c → ¬Pdm.Usable s) → opened = [] ∧ plain = []
  knows : Knows codec log side opened plain

namespace Holds

theorem found (holds : Holds codec c log side d opened plain) (found : d.byId c = some (i, s)) (usable : Pdm.Usable s) :
    d.s i = some s ∧ s.id = c ∧ s.plain = plain ∧ s.r = some ⟨side, opened⟩ := by
  obtain ⟨isHere, isId, -⟩ := Pdm.byId_spec found
  exact ⟨isHere, isId, (holds.each i s isHere).2 isId usable⟩

/-- The session that is used has another ratchet and other texts, and nothing else has changed. -/
theorem set (holds : Holds codec c log side d opened plain) (isHere : d.s i = some s) (isId : s.id = c)
    (usable : Pdm.Usable s) {log' : List Whisper} {opened' : List (List UInt8)} {plain' : List (List UInt8 × Text)}
    {msgs : Nat} (knows : Knows codec log' side opened' plain') : Holds codec c log' side
      (d.set i (some { s with r := some ⟨side, opened'⟩, plain := plain', msgs })) opened' plain' := by
  have slots : ∀ j t, (d.set i (some { s with r := some ⟨side, opened'⟩, plain := plain', msgs })).s j = some t →
      j = i ∧ t = { s with r := some ⟨side, opened'⟩, plain := plain', msgs } ∨ j ≠ i ∧ d.s j = some t := by
    intro j t isThere
    change update d.s i _ j = some t at isThere
    by_cases at_ : j = i
    · subst at_
      rw [update_self] at isThere
      exact .inl ⟨rfl, (some.inj isThere).symm⟩
    · rw [update_of_ne at_] at isThere
      exact .inr ⟨at_, isThere⟩
  have stays : ∀ j t, (d.set i (some { s with r := some ⟨side, opened'⟩, plain := plain', msgs })).s j = some t →
      t.id = c → ∃ u, d.s j = some u ∧ u.id = c := by
    intro j t isThere named
    rcases slots j t isThere with ⟨rfl, rfl⟩ | ⟨-, same⟩
    · exact ⟨s, isHere, isId⟩
    · exact ⟨t, same, named⟩
  refine ⟨holds.named, ?_, ?_, ?_, knows⟩
  · intro a b t u isA isB namedA namedB
    obtain ⟨t', isA', namedA'⟩ := stays a t isA namedA
    obtain ⟨u', isB', namedB'⟩ := stays b u isB namedB
    exact holds.only a b t' u' isA' isB' namedA' namedB'
  · intro j t isThere
    rcases slots j t isThere with ⟨rfl, rfl⟩ | ⟨other, same⟩
    · exact ⟨absurd usable, fun _ _ => ⟨rfl, rfl⟩⟩
    · exact ⟨(holds.each j t same).1, fun named => absurd (holds.only j i t s same isHere named isId) other⟩
  · intro early
    have late : ¬Pdm.Usable _ := early i _ (update_self ..) isId
    exact absurd usable late

/-- Events that are not about the DM's texts leave the session as it is, but that it comes to be, is
opened, and the user may trust its key. -/
theorem other {calls : PdmCalls Hs PerfectRatchet} {event : PdmEvent}
    (holds : Holds codec c log side d opened plain) (silent : event.speaksIn c = false)
    (namedOnce : ∀ peer, event = .frame (.opened c peer) →
      (d.first fun s => Pdm.waiting s && s.peer = peer).isSome → d.byId c = none)
    (goesOn : ∀ j s, d.s j = some s → s.id = c → (d.step codec (calls.honest side) event).s j ≠ none) :
    Holds codec c log side (d.step codec (calls.honest side) event) opened plain := by
  have moves : Pdm.Moves codec (calls.honest side) event d (d.step codec (calls.honest side) event) := Pdm.step_moves ..
  generalize d.step codec (calls.honest side) event = after at goesOn moves
  have unspoken : ∀ s : PdmSess Hs PerfectRatchet, s.id = c →
      ¬((∃ said, event = .seal_ s.id said) ∨ ∃ body, event = .unseal_ s.id body) := by
    rintro s rfl (⟨said, rfl⟩ | ⟨body, rfl⟩)
    · simp [PdmEvent.speaksIn] at silent
    · simp [PdmEvent.speaksIn] at silent
  have slot := moves.slot
  refine ⟨holds.named, ?_, ?_, ?_, holds.knows⟩
  · obtain ⟨i, move, others⟩ := moves
    have old : ∀ j t, after.s j = some t → t.id = c → (∃ s, d.s j = some s ∧ s.id = c) ∨ j = i ∧ d.byId c = none := by
      intro j t isThere isId
      by_cases at_ : j = i
      · subst at_
        rw [isThere] at move
        generalize isBefore : d.s j = slot at move
        cases move with
        | same => exact .inl ⟨t, rfl, isId⟩
        | fresh _ id =>
          rw [isId] at id
          exact .inr ⟨rfl, id.resolve_left holds.named⟩
        | named _ isEvent found =>
          cases isId
          exact .inr ⟨rfl, namedOnce _ isEvent found⟩
        | answered => exact .inl ⟨_, rfl, isId⟩
        | starting => exact .inl ⟨_, rfl, isId⟩
        | announced => exact .inl ⟨_, rfl, isId⟩
        | trusted => exact .inl ⟨_, rfl, isId⟩
        | used => exact .inl ⟨_, rfl, isId⟩
      · rcases others j at_ with stays | ends
        · exact .inl ⟨t, stays ▸ isThere, isId⟩
        · cases ends.symm.trans isThere
    intro a b s t isA isB namedA namedB
    rcases old a s isA namedA with ⟨s', isA', namedA'⟩ | ⟨rfl, unknown⟩
    · rcases old b t isB namedB with ⟨t', isB', namedB'⟩ | ⟨rfl, unknown⟩
      · exact holds.only a b s' t' isA' isB' namedA' namedB'
      · exact absurd namedA' (Pdm.byId_none holds.named unknown isA')
    · rcases old b t isB namedB with ⟨t', isB', namedB'⟩ | ⟨rfl, -⟩
      · exact absurd namedB' (Pdm.byId_none holds.named unknown isB')
      · rfl
  · intro j t isThere
    have move := slot j
    rw [isThere] at move
    generalize isBefore : d.s j = old at move
    cases move with
    | same => exact holds.each j t isBefore
    | fresh state _ silent plain =>
      refine ⟨fun _ => ⟨plain, fun r has => by cases silent.symm.trans has⟩, fun _ usable => absurd usable ?_⟩
      rcases state with state | state <;> exact Pdm.not_usable state
    | @named s _ _ state =>
      have early := Pdm.not_usable state
      exact ⟨(holds.each j s isBefore).1, fun _ usable => absurd usable early⟩
    | @answered s _ state =>
      have begun := (holds.each j s isBefore).1 (Pdm.not_usable state)
      exact ⟨fun _ => begun, fun _ usable => absurd usable (by simp [Pdm.Usable])⟩
    | starting state starts =>
      obtain ⟨isPlain, begun⟩ := (holds.each j _ isBefore).1 (Pdm.not_usable state)
      refine ⟨fun _ => ⟨isPlain, fun r has => ?_⟩, fun _ usable => absurd usable (by simp [Pdm.Usable])⟩
      cases has
      exact starts.honest begun
    | @announced s _ _ _ _ _ state starts known =>
      have early : ¬Pdm.Usable s := by
        rcases state with state | state <;> exact Pdm.not_usable state
      refine ⟨absurd (known.symm.imp And.left id), fun isId _ => ?_⟩
      obtain ⟨isPlain, begun⟩ := (holds.each j _ isBefore).1 early
      obtain ⟨rfl, rfl⟩ := holds.before fun k u isK named => by
        obtain rfl := holds.only k j u s isK isBefore named isId
        cases isBefore.symm.trans isK
        exact early
      exact ⟨isPlain, congrArg some (starts.honest begun)⟩
    | @trusted s state =>
      exact ⟨absurd (.inl rfl), fun isId _ => (holds.each j s isBefore).2 isId (.inr state)⟩
    | used usable isEvent => exact ⟨absurd usable, fun isId => absurd isEvent (unspoken _ isId)⟩
  · intro early
    refine holds.before fun j s isHere isId usable => ?_
    have move := slot j
    have ends := goesOn j s isHere isId
    rw [isHere] at move
    generalize isAfter : after.s j = new at move ends
    cases move with
    | same => exact early j s isAfter isId usable
    | ended => exact ends rfl
    | named state => exact absurd usable (Pdm.not_usable state)
    | answered state => exact absurd usable (Pdm.not_usable state)
    | starting state => exact absurd usable (Pdm.not_usable state)
    | announced state => rcases state with state | state <;> exact absurd usable (Pdm.not_usable state)
    | trusted => exact early j _ isAfter isId (.inl rfl)
    | used _ isEvent => exact unspoken s isId isEvent

/-- What was said, by whichever side, is read from its body. -/
theorem reads (holds : Holds codec c w.log side (w.client side) opened plain) (ok : LogOk w.log)
    (collisionFree : Function.Injective codec.digest) (mem : m ∈ w.log) (isFound : (w.client side).byId c = some (i, s))
    (usable : Pdm.Usable s) : (w.unsealAt codec c side (sealedBody codec m.raw)).1 = m.said := by
  obtain ⟨-, -, rfl, ratchet⟩ := holds.found isFound usable
  unfold unsealAt
  cases isKept : Pdm.plainFind s (codec.digest (sealedBody codec m.raw)) with
  | some had =>
    have nonempty : sealedBody codec m.raw ≠ [] := by
      intro empty
      have noPrefix := (append_eq_nil_iff.mp empty).1
      exact absurd noPrefix (by decide)
    rw [Pdm.unseal_had nonempty isFound isKept]
    obtain ⟨entry, isEntry, isHad⟩ := map_eq_some_iff.mp isKept
    have digest := find?_some isEntry
    simp only [decide_eq_true_eq] at digest
    obtain ⟨n, isMessage, same⟩ := holds.knows.sound entry (mem_reverse.mp (mem_of_find?_eq_some isEntry))
    rw [same] at digest isHad
    have raws := sealedBody_injective codec (collisionFree digest)
    rw [ok.once n isMessage m mem raws] at isHad
    exact isHad.symm
  | none =>
    have notKept : ¬(m.fromLeft = side ∨ m.raw ∈ opened) := by
      intro known
      have missing := find?_eq_none.mp (map_eq_none_iff.mp isKept) _ (mem_reverse.mpr (holds.knows.kept m mem known))
      simp at missing
    rw [not_or] at notKept
    exact Pdm.unseal_opens isFound ratchet usable isKept (ok.length m mem) (ok.short m mem)
      (PerfectRatchet.decrypt_of_mem ok mem notKept.1 notKept.2) (ok.noNul m mem)

end Holds

/-- A seal does nothing, or its body is that of `raw` and the text is kept. -/
theorem sealAt_cases (codec : PdmCodec) (c : Nat) (w : PdmPair Hs) (left : Bool)
    (length : raw.length = ratchetOverhead + said.length) :
    w.sealAt codec c left said raw = (none, w.client left) ∧ (∀ i s r, (w.client left).byId c = some (i, s) →
        s.r = some r → s.state = .open_ → said ≠ [] → said.length > pdmMaxText) ∨
    ∃ i s r, (w.client left).byId c = some (i, s) ∧ s.r = some r ∧ s.state = .open_ ∧
      w.sealAt codec c left said raw = (some (sealedBody codec raw), (w.client left).set i (some { s with
        r := some r, plain := s.plain ++ [(codec.digest (sealedBody codec raw), said)], msgs := s.msgs + 1 })) := by
  have encodes : codec.encode raw (4 * ((ratchetOverhead + said.length + 2) / 3) + 1) = some (codec.base64 raw) := by
    unfold PdmCodec.encode
    rw [codec.length_base64, length, if_neg (Nat.lt_irrefl _)]
  unfold sealAt Pdm.pdmSeal
  cases found : (w.client left).byId c with
  | none => exact .inl ⟨rfl, nofun⟩
  | some pair =>
    obtain ⟨i, s⟩ := pair
    dsimp only
    cases has : s.r with
    | none =>
      refine .inl ⟨rfl, fun j t r same isRatchet => ?_⟩
      cases same
      cases has.symm.trans isRatchet
    | some r =>
      dsimp only
      split
      · next refused =>
        refine .inl ⟨rfl, fun j t _ same _ isOpen nonempty => ?_⟩
        cases same
        rcases refused with notOpen | empty | long
        · exact absurd isOpen notOpen
        · exact absurd (length_eq_zero_iff.mp empty) nonempty
        · exact long
      · next fits =>
        rw [not_or, not_not] at fits
        refine .inr ⟨i, s, r, rfl, has, fits.1, ?_⟩
        simp only [perfectCalls, encodes]
        rfl

variable {event : PairEvent Hs}

theorem LogOk.step (ok : LogOk w.log) (perfect : w.Perfect event) : LogOk (w.step codec c event).log := by
  cases event with
  | seal_ left said raw =>
    obtain ⟨length, noNul, fresh⟩ := perfect
    cases sealed : (w.sealAt codec c left said raw).1 with
    | none =>
      simp only [PdmPair.step, sealed]
      exact ok
    | some body =>
      have short := (Pdm.open_of_seal sealed).2
      simp only [PdmPair.step, sealed, isSome_some, if_true]
      constructor
      · intro m isMessage other isOther same
        rcases mem_append.mp isMessage with old | new
        · rcases mem_append.mp isOther with old' | new'
          · exact ok.once m old other old' same
          · rw [mem_singleton.mp new'] at same
            exact absurd same (fresh m old)
        rcases mem_append.mp isOther with old' | new'
        · rw [mem_singleton.mp new] at same
          exact absurd same.symm (fresh other old')
        · exact (mem_singleton.mp new).trans (mem_singleton.mp new').symm
      · exact forall_mem_append.mpr ⟨ok.length, by simpa using length⟩
      · exact forall_mem_append.mpr ⟨ok.short, by simpa using short⟩
      · exact forall_mem_append.mpr ⟨ok.noNul, by simpa using noNul⟩
  | unseal_ left body => exact ok
  | other left calls event =>
    unfold PdmPair.step
    dsimp only
    split <;> exact ok

/-- A side of the pair after some events. -/
def Follows (codec : PdmCodec) (c : Nat) (w : PdmPair Hs) (side : Bool) : Prop :=
  ∃ opened plain, Holds codec c w.log side (w.client side) opened plain

namespace Follows

theorem sealed (follows : Follows codec c w side) (perfect : w.Perfect (.seal_ left said raw)) :
    Follows codec c (w.step codec c (.seal_ left said raw)) side := by
  obtain ⟨opened, plain, holds⟩ := follows
  obtain ⟨length, -, fresh⟩ := perfect
  rcases sealAt_cases codec c w left length with ⟨nothing, -⟩ | ⟨i, s, r, found, has, isOpen, sealed⟩
  · refine ⟨opened, plain, ?_⟩
    simp only [PdmPair.step, nothing, update_eq_self]
    exact holds
  simp only [Follows, PdmPair.step, sealed, isSome_some, if_true]
  by_cases mine : left = side
  · subst mine
    obtain ⟨isHere, isId, rfl, ratchet⟩ := holds.found found (.inl isOpen)
    cases has.symm.trans ratchet
    rw [update_self]
    exact ⟨_, _, holds.set isHere isId (.inl isOpen) (holds.knows.spoken fresh _ (if_pos rfl).symm)⟩
  · have told : Knows codec (w.log ++ [⟨left, raw, said⟩]) side opened (plain ++ []) :=
      holds.knows.spoken fresh [] (if_neg mine).symm
    rw [append_nil] at told
    rw [update_of_ne (Ne.symm mine)]
    exact ⟨_, _, { holds with knows := told }⟩

theorem unsealed {body : List UInt8} (follows : Follows codec c w side) (ok : LogOk w.log)
    (relayed : w.Relayed codec c (.unseal_ left body)) :
    Follows codec c (w.step codec c (.unseal_ left body)) side := by
  obtain ⟨opened, plain, holds⟩ := follows
  simp only [Follows, PdmPair.step]
  by_cases mine : left = side
  · subst mine
    rw [update_self]
    have spec := @Pdm.unseal_cases _ codec (perfectCalls w.log []) (w.client left) c body
    rcases spec with same | ⟨i, s, r, raw, r', said, found, has, usable, isPrefix, decodes, decrypts, after⟩
    · rw [unsealAt, same]
      exact ⟨opened, plain, holds⟩
    obtain ⟨isHere, isId, rfl, ratchet⟩ := holds.found found usable
    cases has.symm.trans ratchet
    obtain ⟨⟨m, mem, theirs, rfl, rfl⟩, rfl⟩ := PerfectRatchet.decrypt_spec decrypts
    have isBody : body = sealedBody codec m.raw := by
      have coded := relayed m mem theirs isPrefix decodes
      rw [sealedBody, ← coded]
      nth_rewrite 1 [← take_append_drop sealPrefix.length body]
      rw [isPrefix]
    rcases after with nul | after
    · exact absurd nul (ok.noNul m mem)
    rw [unsealAt, after, isBody]
    exact ⟨_, _, holds.set isHere isId usable (holds.knows.hears ok mem)⟩
  · rw [update_of_ne (Ne.symm mine)]
    exact ⟨opened, plain, holds⟩

theorem other {calls : PdmCalls Hs PerfectRatchet} {event : PdmEvent} (follows : Follows codec c w side)
    (relayed : w.Relayed codec c (.other left calls event))
    (goesOn : ∀ j, ((w.client side).s j).any (·.id = c) →
      (((w.step codec c (.other left calls event)).client side).s j).isSome) :
    Follows codec c (w.step codec c (.other left calls event)) side := by
  obtain ⟨opened, plain, holds⟩ := follows
  refine ⟨opened, plain, ?_⟩
  unfold PdmPair.step at goesOn ⊢
  by_cases speaks : event.speaksIn c = true
  · simp only [if_pos speaks]
    exact holds
  simp only [if_neg speaks] at goesOn ⊢
  by_cases mine : left = side
  · subst mine
    rw [update_self] at goesOn ⊢
    refine holds.other (Bool.not_eq_true _ ▸ speaks) ?_ ?_
    · rintro peer rfl found
      exact relayed rfl found
    · intro j s isHere isId ends
      have still := goesOn j (by simp [isHere, isId])
      rw [ends] at still
      cases still
  · rw [update_of_ne (Ne.symm mine)]
    exact holds

end Follows

theorem mem_log_step (mem : m ∈ w.log) : m ∈ (w.step codec c event).log := by
  cases event with
  | seal_ left said raw =>
    simp only [PdmPair.step]
    split
    · exact mem_append_left _ mem
    · exact mem
  | unseal_ left body => exact mem
  | other left calls event =>
    unfold PdmPair.step
    dsimp only
    split <;> exact mem

abbrev Talk (codec : PdmCodec) (c : Nat) (sides : List Bool) :=
  @Machine.Run (PdmPair Hs) (PairEvent Hs) (next codec c) fun w event =>
    w.Perfect event ∧ w.Relayed codec c event ∧ w.GoesOn codec c sides event

theorem Talk.follows {sides : List Bool} {start : PdmPair Hs} {events : List (PairEvent Hs)}
    (run : Talk codec c sides start events w) (ok : LogOk start.log)
    (follows : ∀ side ∈ sides, Follows codec c start side) : LogOk w.log ∧ ∀ side ∈ sides, Follows codec c w side := by
  refine run.invariant (fun _ w => LogOk w.log ∧ ∀ side ∈ sides, Follows codec c w side) ⟨ok, follows⟩ ?_
  rintro _ event w after ⟨ok, follows⟩ ⟨perfect, relayed, goesOn⟩ ⟨⟩
  refine ⟨LogOk.step ok perfect, fun side mem => ?_⟩
  cases event with
  | seal_ left said raw => exact (follows side mem).sealed perfect
  | unseal_ left body => exact (follows side mem).unsealed ok relayed
  | other left calls event => exact (follows side mem).other relayed (goesOn side mem)

theorem New.follows (new : w.New) (named : c ≠ 0) (side : Bool) : Follows codec c w side := by
  have empty : ∀ {j s}, (w.client side).s j ≠ some s := by
    intro j s isHere
    cases (new.unused side j).symm.trans isHere
  refine ⟨[], [], named, ?_, ?_, fun _ => ⟨rfl, rfl⟩, ?_⟩
  · exact fun _ _ _ _ isHere => absurd isHere empty
  · exact fun _ _ isHere => absurd isHere empty
  · rw [new.silent]
    exact ⟨nofun, nofun, nofun⟩

/-- Whoever seals a text, each side whose session goes on reads it from its body. -/
theorem Follows.reads_back {after : PdmPair Hs} {more : List (PairEvent Hs)} {body : Text}
    (ok : LogOk w.log) (follows : ∀ side, Follows codec c w side) (collisionFree : Function.Injective codec.digest)
    (perfect : w.Perfect (.seal_ left said raw)) (sealed : (w.sealAt codec c left said raw).1 = some body)
    (rest : Talk codec c [side] (w.step codec c (.seal_ left said raw)) more after)
    (found : (after.client side).byId c = some (i, s)) (usable : Pdm.Usable s) :
    (after.unsealAt codec c side body).1 = said := by
  have isBody : body = sealedBody codec raw := by
    rcases sealAt_cases codec c w left perfect.1 with ⟨nothing, -⟩ | ⟨_, _, _, -, -, -, isSealed⟩
    · rw [nothing] at sealed
      cases sealed
    · rw [isSealed] at sealed
      exact (some.inj sealed).symm
  obtain ⟨okAfter, followsAfter⟩ := rest.follows (LogOk.step ok perfect) fun other _ => (follows other).sealed perfect
  obtain ⟨opened, plain, holds⟩ := followsAfter side (mem_singleton_self _)
  have mem : ⟨left, raw, said⟩ ∈ after.log := by
    refine rest.invariant (fun _ w => ⟨left, raw, said⟩ ∈ w.log) ?_ ?_
    · simp [PdmPair.step, sealed]
    · rintro _ event w after here - ⟨⟩
      exact mem_log_step here
  rw [isBody]
  exact holds.reads okAfter collisionFree mem found usable

end PdmPair

/-- An encrypted DM is said to a confirmed peer only: a body comes only from an open session,
and where the remembered keys are read, a session opens only with the key that is remembered, with a
first one, or by the user's trust. And both clients read what either sealed, as often as the body comes. -/
theorem private_dm {Ratchet : Type} :
    (∀ (calls : PdmCalls Hs Ratchet) (d : Pdm Hs Ratchet) (c : Nat)
      (said body : Text), (d.pdmSeal codec calls c said).1 = some body →
      ∃ i s, d.byId c = some (i, s) ∧ s.state = .open_) ∧
    (∀ (start d : Pdm Hs Ratchet) events, (∀ i, start.s i = none) →
      Machine.Run (Pdm.next codec) Pdm.Consults start events d →
      ∀ i s, d.s i = some s → s.state = .open_ → Pdm.Admitted codec start events i s) ∧
    (Function.Injective codec.digest →
      ∀ (start w : PdmPair Hs) (c : Nat) events left said raw, start.New → c ≠ 0 →
      PdmPair.Talk codec c [true, false] start events w → w.Perfect (.seal_ left said raw) →
      (∀ i s, (w.client left).byId c = some (i, s) → s.state = .open_ → said ≠ [] →
        said.length ≤ pdmMaxText → (w.sealAt codec c left said raw).1.isSome) ∧
      ∀ body, (w.sealAt codec c left said raw).1 = some body → ∀ side more after,
        PdmPair.Talk codec c [side] (w.step codec c (.seal_ left said raw)) more after →
        ∀ i s, (after.client side).byId c = some (i, s) → Pdm.Usable s → (after.unsealAt codec c side body).1 =
          said) := by
  refine ⟨?_, ?_, ?_⟩
  · intro calls d c said body sealed
    exact (Pdm.open_of_seal sealed).1
  · intro start d events unused run
    exact Pdm.admitted_of_run unused run
  · intro collisionFree start w c events left said raw new named run perfect
    have silent : LogOk start.log := by
      rw [new.silent]
      exact ⟨nofun, nofun, nofun, nofun⟩
    obtain ⟨ok, follows⟩ := run.follows silent fun side _ => new.follows named side
    have both : ∀ side, side ∈ [true, false] := by decide
    constructor
    · intro i s found isOpen nonempty short
      obtain ⟨opened, plain, holds⟩ := follows left (both left)
      obtain ⟨-, -, -, ratchet⟩ := holds.found found (.inl isOpen)
      rcases PdmPair.sealAt_cases codec c w left perfect.1 with ⟨-, long⟩ | ⟨_, _, _, -, -, -, sealed⟩
      · exact absurd short (not_le.mpr (long i s _ found ratchet isOpen nonempty))
      · rw [sealed]
        rfl
    · intro body sealed side more after rest i s found usable
      exact PdmPair.Follows.reads_back ok (fun side => follows side (both side)) collisionFree perfect sealed rest
        found usable

end

/-! A conversation. The texts are not hidden and the handshake is empty, but lengths are
those of the real ones. -/

/-- Bytes with the room of base64: each three with their number before them. -/
def plainBase64 : List UInt8 → Text
  | [] => []
  | [a] => [1, a, 0, 0]
  | [a, b] => [2, a, b, 0]
  | a :: b :: c :: rest => 3 :: a :: b :: c :: plainBase64 rest

def plainUnbase64 : Text → Option (List UInt8)
  | count :: a :: b :: c :: rest => (plainUnbase64 rest).map ([a, b, c].take count.toNat ++ ·)
  | _ => some []

theorem length_plainBase64 (raw : List UInt8) : (plainBase64 raw).length = 4 * ((raw.length + 2) / 3) := by
  fun_induction plainBase64 raw with
  | case4 a b c rest ih =>
    simp only [length_cons, ih]
    omega
  | _ => simp

theorem plainUnbase64_plainBase64 (raw : List UInt8) : plainUnbase64 (plainBase64 raw) = some raw := by
  fun_induction plainBase64 raw with
  | case4 a b c rest ih => simp [plainUnbase64, ih]
  | _ => rfl

def plainCodec : PdmCodec where
  digest := id
  fingerprint := id
  base64 := plainBase64
  unbase64 := plainUnbase64
  length_base64 := length_plainBase64
  unbase64_base64 := plainUnbase64_plainBase64

def handshakeCalls : PdmCalls Unit PerfectRatchet :=
  { @perfectCalls Unit [] (replicate ratchetOverhead 0) with
    deviceKey := some []
    noiseInit := fun _ _ _ => some ()
    noiseRead := fun _ _ => some ()
    noiseWrite := fun _ => some ((), [1])
    noiseSplit := fun _ => some ([7], some ⟨true, []⟩)
    decrypt := fun r _ => some (r, [])
    now := 1 }

def newClient (self : Nat) : Pdm Unit PerfectRatchet :=
  { enabled := true, self, store := ⟨true, []⟩, key := none, s := fun _ => none }

def signedIn : PdmPair Unit :=
  ⟨fun left => newClient (if left then 1 else 2), []⟩

theorem signedIn_new : signedIn.New :=
  ⟨rfl, fun _ _ => rfl⟩

def joining : List (PairEvent Unit) :=
  [.other true handshakeCalls (.command (.open_ 2)), .other true handshakeCalls (.frame (.opened 5 2)),
    .other false handshakeCalls (.frame (.invite 5 1 [1])), .other false handshakeCalls (.command (.accept 5)),
    .other true handshakeCalls (.frame (.hsFor 5 [1])), .other false handshakeCalls (.frame (.hsFor 5 [1])),
    .other false handshakeCalls (.frame (.msg 5 (replicate ratchetOverhead 0)))]

def joined : PdmPair Unit :=
  joining.foldl (PdmPair.step plainCodec 5) signedIn

def greeting : List UInt8 :=
  replicate ratchetOverhead 0 ++ text "hi"

def greeted : PdmPair Unit :=
  joined.step plainCodec 5 (.seal_ true (text "hi") greeting)

theorem private_dm_greeting : ∃ body, (joined.sealAt plainCodec 5 true (text "hi") greeting).1 = some body ∧
    ∀ side, (greeted.unsealAt plainCodec 5 side body).1 = text "hi" := by
  have run : PdmPair.Talk plainCodec 5 [true, false] signedIn joining joined :=
    Machine.Run.nil.of_follow (fun _ _ => of_decide_eq_true) rfl
  have dm := (@private_dm Unit plainCodec Unit).2.2 injective_id signedIn joined 5 joining true
    (text "hi") greeting signedIn_new (by decide) run ⟨rfl, by decide, nofun⟩
  have isOpen : ∀ side, ((greeted.client side).byId 5).map (·.2.state) = some .open_ := by decide +kernel
  obtain ⟨body, sealed⟩ := isSome_iff_exists.mp (dm.1 _ _ rfl rfl (by decide) (by decide))
  refine ⟨body, sealed, fun side => ?_⟩
  obtain ⟨⟨i, s⟩, found, state⟩ := map_eq_some_iff.mp (isOpen side)
  exact dm.2 body sealed side [] _ .nil i s found (.inl state)

/-- A peer is remembered by another key than the one of the handshake to come. -/
def knowing : Pdm Unit PerfectRatchet :=
  { newClient 1 with store := ⟨true, [(2, [9])]⟩ }

def opening : List (PdmCalls Unit PerfectRatchet × PdmEvent) :=
  [(handshakeCalls, .command (.open_ 2)), (handshakeCalls, .frame (.opened 5 2))]

def opened : Pdm Unit PerfectRatchet :=
  opening.foldl (fun d event => d.step plainCodec event.1 event.2) knowing

/-- The stand-in for base64 decodes this to the same message. -/
def respelled : Text :=
  (sealedBody plainCodec greeting).dropLast ++ [1]

/-- Another DM is opened before and ends after, and a second one is then named by the id of the first. -/
def namedTwice : List (PairEvent Unit) :=
  [.other true handshakeCalls (.command (.open_ 3)), .other true handshakeCalls (.frame (.opened 4 3))] ++
    joining ++ [.seal_ true (text "hi") greeting, .other true handshakeCalls (.frame (.ended 4 .closed)),
      .other true handshakeCalls (.command (.open_ 3)), .other true handshakeCalls (.frame (.opened 5 3))]

/-- Where the remembered keys cannot be read, a session opens with another one than is remembered and
nobody trusted it. And a message is not readable any more once it was read from another spelling of its
body, or when another session goes by the DM's id. -/
theorem private_dm_untrusted :
    (Machine.Run (Pdm.next plainCodec) (fun _ _ => True) knowing opening opened ∧
      (∀ event ∈ opening, ∀ id, event.2 ≠ .command (.trust id)) ∧
      ∃ t, (opened.step plainCodec { handshakeCalls with read := false } (.frame (.hsFor 5 [1]))).s ⟨0, by decide⟩ =
        some t ∧ t.state = .open_ ∧ Pdm.Differs plainCodec opened t) ∧
    ((greeted.step plainCodec 5 (.unseal_ false respelled)).unsealAt plainCodec 5 false
      (sealedBody plainCodec greeting)).1 = pdmUnreadable ∧
    ((namedTwice.foldl (PdmPair.step plainCodec 5) signedIn).unsealAt plainCodec 5 true
      (sealedBody plainCodec greeting)).1 = pdmUnreadable := by
  refine ⟨⟨?_, ?_, _, rfl, rfl, [9], rfl, by decide⟩, by decide +kernel, by decide +kernel⟩
  · exact (Machine.Run.nil.snoc trivial rfl).snoc trivial rfl
  · simp [opening]

end OpenChime.Client
