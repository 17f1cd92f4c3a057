import OpenChime.Lib.BigEndian
import OpenChime.Lib.Run
import OpenChime.Shared.Mention

/-! Encrypted DMs on the client (`client/core/pdm.c`, and the remembered peers of
`client/core/store.c`). What the handshake, the ratchet, the clock and the connection answer to
a call, and whether the credential store is read and takes a change, is given with each event, so
nothing is assumed of them here. The safety number, which is only shown, and the list of channels known
to be encrypted, which nothing here reads, are left out. -/

set_option autoImplicit false

namespace OpenChime.Client

open Shared

def pdmClientMax : Nat := 16

def pdmMaxText : Nat := 16384

def pdmLimitMsgs : Nat := 10000

def pdmLimitMs : Nat := 24 * 60 * 60 * 1000

/-- `OC_RATCHET_HEADERLEN + OC_RATCHET_TAGLEN` -/
def ratchetOverhead : Nat := 40 + 16

def sealPrefix : Text := text "oc-e2e:1:"

def pdmUnreadable : Text := [0xF0, 0x9F, 0x94, 0x92] ++ text
  " Encrypted message: only the device that took part in this conversation can read it."

/-- `prologue` -/
def pdmPrologue (opener peer : Nat) : List UInt8 :=
  text "OpenChime private DM v1" ++ BigEndian.encode 8 opener ++ BigEndian.encode 8 peer

/-- The fingerprints remembered, oldest first; without a credential store or a workspace
`usable` is false. -/
structure PeerBook where
  usable : Bool
  peers : List (Nat × List UInt8)

namespace PeerBook

variable (book : PeerBook)

/-- `SEC_PEER_N` -/
def peerMax : Nat := 16

def remembered (user : Nat) : Option (List UInt8) :=
  if book.usable ∧ user ≠ 0 then (book.peers.find? (·.1 = user)).map (·.2) else none

/-- `sec_load`: a credential that cannot be read has no peers. -/
def loaded (read : Bool) : PeerBook :=
  if read then book else { book with peers := [] }

/-- `oc_store_peer_accept`; `saved` says whether the credential store took the change. -/
def accept (user : Nat) (fp : List UInt8) (read saved : Bool) : PeerBook :=
  if !book.usable ∨ user = 0 ∨ !saved then book
  else
    let peers := (book.loaded read).peers
    if peers.any (·.1 = user) then
      { book with peers := peers.replaceF fun peer => if peer.1 = user then some (user, fp) else none }
    else { book with peers := (if peers.length < peerMax then peers else peers.tail) ++ [(user, fp)] }

inductive Known where
  | noStore
  | first
  | same
  | differs
  deriving DecidableEq

/-- `oc_store_peer_check`, which reads the book, and again when it adds to it. -/
def check (user : Nat) (fp : List UInt8) (read reread saved : Bool) : Known × PeerBook :=
  if !book.usable ∨ user = 0 then (.noStore, book)
  else match (book.loaded read).remembered user with
    | some known => (if known = fp then .same else .differs, book)
    | none => (.first, book.accept user fp reread saved)

end PeerBook

inductive PdmState where
  | opening
  | invited
  | answered
  | held
  | open_
  | starting
  deriving DecidableEq

/-- `oc_pdm_sess` in use; `plain` in the order it was kept. -/
structure PdmSess (Hs Ratchet : Type) where
  (id peer : Nat)
  initiator : Bool
  state : PdmState
  hs : Option Hs
  r : Option Ratchet
  hs1 : List UInt8
  peerPk : List UInt8
  msgs : Nat
  openedMs : Nat
  plain : List (List UInt8 × Text)

structure Pdm (Hs Ratchet : Type) where
  enabled : Bool
  self : Nat
  store : PeerBook
  key : Option (List UInt8)
  s : Fin pdmClientMax → Option (PdmSess Hs Ratchet)

/-- `OC_PDM_END_*` -/
inductive PdmEnd where
  | closed
  | taken
  | gone
  | lost
  | refused
  | declined
  deriving DecidableEq

inductive PdmOut where
  | open_ (peer : Nat) (hs : List UInt8)
  | hs (id : Nat) (hs : List UInt8)
  | send (id : Nat) (body : List UInt8)
  | ended (id : Nat) (reason : PdmEnd)

inductive PdmUi where
  | invited (id peer : Nat)
  | opening (id peer : Nat)
  | open_ (id peer : Nat)
  | keyChanged (id peer : Nat)
  | ended (id peer : Nat) (reason : PdmEnd)

/-- What the libraries, the store, the clock and the connection answer. -/
structure PdmCalls (Hs Ratchet : Type) where
  /-- `oc_store_device_key` -/
  deviceKey : Option (List UInt8)
  noiseInit : Bool → List UInt8 → List UInt8 → Option Hs
  noiseRead : Hs → List UInt8 → Option Hs
  noiseWrite : Hs → Option (Hs × List UInt8)
  /-- `oc_noise_xx_split`: the peer's static key, and the ratchet if it starts. -/
  noiseSplit : Hs → Option (List UInt8 × Option Ratchet)
  /-- `oc_ratchet_encrypt`: the header, then the ciphertext. -/
  encrypt : Ratchet → Text → Option (Ratchet × List UInt8)
  /-- `oc_ratchet_decrypt` -/
  decrypt : Ratchet → List UInt8 → Option (Ratchet × List UInt8)
  write : PdmOut → Bool
  /-- whether the credential store is read by `oc_store_peer_check`, and by `oc_store_peer_accept` -/
  (read reread : Bool)
  saved : Bool
  /-- whether a new device key is stored beside the peers; where it is not, they are lost -/
  keyBeside : Bool
  now : Nat

/-- The digests of mbedTLS, and its base64 as its documentation has it. -/
structure PdmCodec where
  digest : List UInt8 → List UInt8
  fingerprint : List UInt8 → List UInt8
  base64 : List UInt8 → Text
  unbase64 : Text → Option (List UInt8)
  length_base64 : ∀ raw, (base64 raw).length = 4 * ((raw.length + 2) / 3)
  unbase64_base64 : ∀ raw, unbase64 (base64 raw) = some raw

section

variable {Hs Ratchet : Type} (codec : PdmCodec) (calls : PdmCalls Hs Ratchet)

/-- `mbedtls_base64_encode` into `cap` bytes, which hold a NUL too. -/
def PdmCodec.encode (raw : List UInt8) (cap : Nat) : Option Text :=
  if cap < (codec.base64 raw).length + 1 then none else some (codec.base64 raw)

/-- `mbedtls_base64_decode` into `cap` bytes. -/
def PdmCodec.decode (body : Text) (cap : Nat) : Option (List UInt8) := (codec.unbase64 body).filter (·.length ≤ cap)

namespace Pdm

abbrev Effect (Hs Ratchet : Type) := Pdm Hs Ratchet × List PdmOut × List PdmUi

variable (d : Pdm Hs Ratchet)

def first (fits : PdmSess Hs Ratchet → Bool) : Option (Fin pdmClientMax × PdmSess Hs Ratchet) :=
  (List.finRange pdmClientMax).findSome? fun i => ((d.s i).filter fits).map (i, ·)

def byId (id : Nat) : Option (Fin pdmClientMax × PdmSess Hs Ratchet) :=
  if id = 0 then none else d.first (·.id = id)

def newSess : Option (Fin pdmClientMax) := (List.finRange pdmClientMax).find? fun i => (d.s i).isNone

def set (i : Fin pdmClientMax) (s : Option (PdmSess Hs Ratchet)) : Pdm Hs Ratchet :=
  { d with s := Function.update d.s i s }

def send (frame : PdmOut) : List PdmOut :=
  if calls.write frame then [frame] else []

def finish (i : Fin pdmClientMax) (s : PdmSess Hs Ratchet) (wire : Option PdmEnd)
    (reason : PdmEnd) : Effect Hs Ratchet :=
  (d.set i none, match wire with
    | some told => if s.id ≠ 0 then send calls (.ended s.id told) else []
    | none => [],
    [.ended s.id s.peer reason])

def ensureKey : Option (Pdm Hs Ratchet × List UInt8) :=
  match d.key with
  | some key => some (d, key)
  | none => calls.deviceKey.map fun key =>
    ({ d with key := some key, store := d.store.loaded calls.keyBeside }, key)

def announce (i : Fin pdmClientMax) (s : PdmSess Hs Ratchet) :
    Pdm Hs Ratchet × List PdmUi :=
  let (known, store) := d.store.check s.peer (codec.fingerprint s.peerPk) calls.read calls.reread calls.saved
  let state := if known = .differs then PdmState.held else .open_
  ({ d with store }.set i (some { s with state }),
    [if state = .held then .keyChanged s.id s.peer else .open_ s.id s.peer])

/-- `open_session`; `none` is its -1, after which the session is finished. -/
def openSession (i : Fin pdmClientMax) (s : PdmSess Hs Ratchet) :
    Option (Effect Hs Ratchet) := do
  let hs ← s.hs
  let (peerPk, ratchet) ← calls.noiseSplit hs
  let r ← ratchet
  let s := { s with hs := none, r := some r, peerPk, openedMs := calls.now }
  if s.initiator then
    -- the opener speaks first, with nothing
    let (r, body) ← calls.encrypt r []
    if calls.write (.send s.id body) then
      let (d, ui) := announce codec calls d i { s with r := some r }
      some (d, [.send s.id body], ui)
    else none
  else some (d.set i (some { s with state := .starting }), [], [])

def pdmSeal (channelId : Nat) (said : Text) : Option Text × Pdm Hs Ratchet :=
  match d.byId channelId with
  | none => (none, d)
  | some (i, s) =>
    match s.r with
    | none => (none, d)
    | some r =>
      if s.state ≠ .open_ ∨ said.length = 0 ∨ said.length > pdmMaxText then (none, d)
      else match calls.encrypt r said with
        | none => (none, d)
        | some (r, raw) =>
          let s := { s with r := some r }
          -- the room is that of the ciphertext the text makes
          match codec.encode raw (4 * ((ratchetOverhead + said.length + 2) / 3) + 1) with
          | none => (none, d.set i (some s))
          | some encoded =>
            let body := sealPrefix ++ encoded
            (some body, d.set i (some { s with
              plain := s.plain ++ [(codec.digest body, said)], msgs := s.msgs + 1 }))

def plainFind (s : PdmSess Hs Ratchet) (digest : List UInt8) : Option Text :=
  (s.plain.reverse.find? (·.1 = digest)).map (·.2)

def pdmUnseal (channelId : Nat) (body : List UInt8) : Text × Pdm Hs Ratchet :=
  if body.length = 0 then ([], d)
  else match d.byId channelId with
    | none => (pdmUnreadable, d)
    | some (i, s) =>
      match plainFind s (codec.digest body) with
      | some had => (had, d)
      | none =>
        match s.r with
        | none => (pdmUnreadable, d)
        | some r =>
          let encoded := body.drop sealPrefix.length
          if (s.state ≠ .open_ ∧ s.state ≠ .held) ∨ body.length ≤ sealPrefix.length ∨
              body.take sealPrefix.length ≠ sealPrefix then (pdmUnreadable, d)
          else match codec.decode encoded (encoded.length / 4 * 3 + 3) with
            | none => (pdmUnreadable, d)
            | some raw =>
              if raw.length < ratchetOverhead ∨ raw.length - ratchetOverhead > pdmMaxText then
                (pdmUnreadable, d)
              else match calls.decrypt r raw with
                | none => (pdmUnreadable, d)
                | some (r, pt) =>
                  let s := { s with r := some r }
                  -- a text has no NUL
                  if 0 ∈ pt then (pdmUnreadable, d.set i (some s))
                  else (pt, d.set i (some { s with
                    plain := s.plain ++ [(codec.digest body, pt)], msgs := s.msgs + 1 }))

end Pdm

end

/-- The frames from the daemon; one that does not decode changes nothing. -/
inductive PdmFrame where
  | opened (id peer : Nat)
  | invite (id sender : Nat) (hs : List UInt8)
  | hsFor (id : Nat) (hs : List UInt8)
  /-- the header and the ciphertext -/
  | msg (id : Nat) (body : List UInt8)
  | ended (id : Nat) (reason : PdmEnd)
  | malformed

inductive PdmCommand where
  | open_ (peer : Nat)
  | accept (id : Nat)
  | decline (id : Nat)
  | close (id : Nat)
  | trust (id : Nat)

inductive PdmEvent where
  | frame (frame : PdmFrame)
  | command (command : PdmCommand)
  | tick (now : Nat)
  | seal_ (id : Nat) (said : Text)
  | unseal_ (id : Nat) (body : List UInt8)

section

variable {Hs Ratchet : Type}
  (codec : PdmCodec) (calls : PdmCalls Hs Ratchet)

namespace Pdm

variable (d : Pdm Hs Ratchet)

def sessEmpty (peer : Nat) (initiator : Bool) (state : PdmState) : PdmSess Hs Ratchet :=
  { id := 0, peer, initiator, state, hs := none, r := none, hs1 := [], peerPk := [], msgs := 0
    openedMs := 0, plain := [] }

def waiting (s : PdmSess Hs Ratchet) : Bool :=
  s.state = .opening ∧ s.id = 0

/-- The end of `OC_MSG_PDM_HS_FOR`: the session opens or is lost. -/
def hsDone (i : Fin pdmClientMax) (s : PdmSess Hs Ratchet) (out : List PdmOut) :
    Effect Hs Ratchet :=
  match openSession codec calls d i s with
  | some (d, more, ui) => (d, out ++ more, ui)
  | none =>
    let (d, more, ui) := finish calls d i s (some .lost) .lost
    (d, out ++ more, ui)

def pdmFrame : PdmFrame → Effect Hs Ratchet
  | .opened id peer =>
    match d.first fun s => waiting s && s.peer = peer with
    | some (i, s) => (d.set i (some { s with id }), [], [.opening id s.peer])
    | none => (d, [], [])
  | .invite id sender hs =>
    match d.byId id with
    | some _ => (d, [], [])
    | none =>
      match d.newSess with
      | none => (d, send calls (.ended id .declined), [])
      | some i =>
        let s := { sessEmpty sender false .invited with id, hs1 := hs }
        (d.set i (some s), [], [.invited id sender])
  | .hsFor id hs =>
    match d.byId id with
    | none => (d, send calls (.ended id .lost), [])
    | some (i, s) =>
      let lost := finish calls d i s (some .lost) .lost
      if s.initiator ∧ s.state = .opening then
        match s.hs.bind fun noise => (calls.noiseRead noise hs).bind calls.noiseWrite with
        | some (noise, third) =>
          if calls.write (.hs s.id third) then
            hsDone codec calls d i { s with hs := some noise } [.hs s.id third]
          else lost
        | none => lost
      else if !s.initiator ∧ s.state = .answered then
        match s.hs.bind fun noise => calls.noiseRead noise hs with
        | some noise => hsDone codec calls d i { s with hs := some noise } []
        | none => lost
      else lost
  | .msg id body =>
    match d.byId id with
    | none => (d, send calls (.ended id .lost), [])
    | some (i, s) =>
      match s.r with
      | none =>
        let (d, _, ui) := finish calls d i s none .lost
        (d, send calls (.ended id .lost), ui)
      | some r =>
        if s.state ≠ .starting ∨ body.length ≠ ratchetOverhead then (d, [], [])
        else match calls.decrypt r body with
          | none => finish calls d i s (some .lost) .lost
          | some (r, _) =>
            let (d, ui) := announce codec calls d i { s with r := some r }
            (d, [], ui)
  | .ended id reason =>
    match (d.byId id).or (if id = 0 then d.first waiting else none) with
    | some (i, s) => finish calls d i s none reason
    | none => (d, [], [])
  | .malformed => (d, [], [])

def pdmCommand : PdmCommand → Effect Hs Ratchet
  | .open_ peer =>
    if (d.first waiting).isSome then (d, [], [])
    else
      let keyed := if d.enabled ∧ peer ≠ 0 ∧ peer ≠ d.self then d.ensureKey calls else none
      match keyed with
      | none => (d, [], [.ended 0 peer .refused])
      | some (d, key) =>
        match d.newSess with
        | none => (d, [], [.ended 0 peer .refused])
        | some i =>
          let s := sessEmpty peer true .opening
          let started := (calls.noiseInit true (pdmPrologue d.self peer) key).bind calls.noiseWrite
          match started with
          | some (noise, first) =>
            if calls.write (.open_ peer first) then
              (d.set i (some { s with hs := some noise }), [.open_ peer first], [])
            else finish calls d i s none .refused
          | none => finish calls d i s none .refused
  | .accept id =>
    match d.byId id with
    | none => (d, [], [])
    | some (i, s) =>
      if s.state ≠ .invited then (d, [], [])
      else
        match d.ensureKey calls with
        | none => finish calls d i s (some .declined) .lost
        | some (d, key) =>
          let answered := (calls.noiseInit false (pdmPrologue s.peer d.self) key).bind
            fun noise => (calls.noiseRead noise s.hs1).bind calls.noiseWrite
          match answered with
          | some (noise, second) =>
            if calls.write (.hs s.id second) then
              (d.set i (some { s with hs := some noise, state := .answered }),
                [.hs s.id second], [.opening s.id s.peer])
            else finish calls d i s (some .declined) .lost
          | none => finish calls d i s (some .declined) .lost
  | .decline id =>
    match d.byId id with
    | none => (d, [], [])
    | some (i, s) =>
      if s.state ≠ .invited then (d, [], [])
      else finish calls d i s (some .declined) .declined
  | .trust id =>
    match d.byId id with
    | none => (d, [], [])
    | some (i, s) =>
      if s.state ≠ .held then (d, [], [])
      else
        let store := d.store.accept s.peer (codec.fingerprint s.peerPk) calls.reread calls.saved
        ({ d with store }.set i (some { s with state := .open_ }), [], [.open_ s.id s.peer])
  | .close id =>
    match d.byId id with
    | none => (d, [], [])
    | some (i, s) =>
      finish calls d i s (some (if s.state = .invited then .declined else .closed)) .closed

def expired (now : Nat) (s : PdmSess Hs Ratchet) : Bool :=
  s.r.isSome ∧ (s.msgs ≥ pdmLimitMsgs ∨ s.openedMs ≠ 0 ∧ (now + 2 ^ 64 - s.openedMs) % 2 ^ 64 ≥ pdmLimitMs)

def pdmTick (now : Nat) : Effect Hs Ratchet :=
  let past := (List.finRange pdmClientMax).filterMap fun i =>
    ((d.s i).filter (expired now)).map (i, ·)
  ({ d with s := fun i => (d.s i).filter fun s => !expired now s },
    past.flatMap fun (i, s) => (finish calls d i s (some .closed) .closed).2.1,
    past.flatMap fun (i, s) => (finish calls d i s (some .closed) .closed).2.2)

def step : PdmEvent → Pdm Hs Ratchet
  | .frame frame => (pdmFrame codec calls d frame).1
  | .command command => (pdmCommand codec calls d command).1
  | .tick now => (pdmTick calls d now).1
  | .seal_ id said => (pdmSeal codec calls d id said).2
  | .unseal_ id body => (pdmUnseal codec calls d id body).2

end Pdm

end

end OpenChime.Client
