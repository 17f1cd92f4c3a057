import Mathlib.Data.Fin.VecNotation
import OpenChime.Lib.IdealAead

/-! The Noise XX handshake of `shared/noise_xx.c`. What crosses the wire is bytes; digests,
private keys and the handshake hash are types of their own, since nothing looks inside
them. The primitives of mbedTLS are parameters and `NoisePrimitives.Ideal` is what is
assumed of them. A call that fails ends the handshake, as its callers do, so no state is
kept of it. -/

set_option autoImplicit false

namespace OpenChime.Crypto

def noiseDhLen : Nat := 32

def noiseTagLen : Nat := 16

def noiseMaxMsg : Nat := 65535

def noiseSealedKeyLen : Nat := noiseDhLen + noiseTagLen

structure NoisePrimitives (Secret Digest Hash : Type) where
  /-- `oc_x25519_public` -/
  publicKey : Secret → List UInt8
  length_publicKey : ∀ secret, (publicKey secret).length = noiseDhLen
  /-- `oc_x25519`; it refuses a key of small order. -/
  x25519 : Secret → List UInt8 → Option (List UInt8)
  hmac : Digest → List UInt8 → Digest
  bytes : Digest → List UInt8
  /-- `hash2` from one handshake hash to the next. -/
  hash : Hash → List UInt8 → Hash
  /-- `PROTOCOL_NAME` padded, as `h` and as `ck`. -/
  nameHash : Hash
  nameKey : Digest
  gcm : IdealAead.Cipher noiseTagLen Digest Nat Hash UInt8

structure NoisePrimitives.Ideal {Secret Digest Hash : Type}
    (prim : NoisePrimitives Secret Digest Hash) : Prop where
  /-- Both holders of two key pairs find the one secret. -/
  x25519_agree : ∀ mine theirs, ∃ shared, prim.x25519 mine (prim.publicKey theirs) = some shared ∧
    prim.x25519 theirs (prim.publicKey mine) = some shared
  /-- No two transcripts have one hash. -/
  hash_injective : Function.Injective fun parts : List (List UInt8) =>
    parts.foldl prim.hash prim.nameHash

/-- `oc_noise_cipher` with a key -/
structure NoiseCipher (Digest : Type) where
  k : Digest
  n : Nat

/-- SymmetricState (§5.2); without a key `cs` is `none`. -/
structure Symmetric (Digest Hash : Type) where
  ck : Digest
  h : Hash
  cs : Option (NoiseCipher Digest)

abbrev NoiseLog (Digest Hash : Type) := IdealAead.Log Digest Nat Hash UInt8

section

variable {Secret Digest Hash : Type} (prim : NoisePrimitives Secret Digest Hash)

def hkdf2 (ck : Digest) (ikm : List UInt8) : Digest × Digest :=
  let temp := prim.hmac ck ikm
  let o1 := prim.hmac temp [1]
  (o1, prim.hmac temp (prim.bytes o1 ++ [2]))

namespace Symmetric

variable (s : Symmetric Digest Hash)

def mixHash (data : List UInt8) : Symmetric Digest Hash := { s with h := prim.hash s.h data }

def mixKey (ikm : List UInt8) : Symmetric Digest Hash :=
  let (ck, tempK) := hkdf2 prim s.ck ikm
  { s with ck, cs := some ⟨tempK, 0⟩ }

def dhMix (sk : Secret) (pk : List UInt8) : Option (Symmetric Digest Hash) := (prim.x25519 sk pk).map (s.mixKey prim)

/-- `encrypt_and_hash`: the bytes written, and the log with the call of `oc_noise_encrypt`. -/
def encryptAndHash (pt : List UInt8) (cap : Nat) (log : NoiseLog Digest Hash) :
    Option (Symmetric Digest Hash × List UInt8 × NoiseLog Digest Hash) :=
  match s.cs with
  | none => if pt.length > cap then none else some (s.mixHash prim pt, pt, log)
  | some cs =>
    if pt.length + noiseTagLen > cap then none
    else if cs.n = UInt64.size - 1 then none
    else
      let out := prim.gcm.encrypt cs.k cs.n s.h pt
      some ({ s with cs := some { cs with n := cs.n + 1 } }.mixHash prim out, out, log ++ [⟨cs.k, cs.n, s.h, pt⟩])

variable [DecidableEq Digest] [DecidableEq Hash]

/-- `decrypt_and_hash`: the plaintext. -/
def decryptAndHash (data : List UInt8) (cap : Nat)
    (log : NoiseLog Digest Hash) : Option (Symmetric Digest Hash × List UInt8) :=
  match s.cs with
  | none => if data.length > cap then none else some (s.mixHash prim data, data)
  | some cs =>
    if data.length < noiseTagLen ∨ data.length - noiseTagLen > cap then none
    else if cs.n = UInt64.size - 1 then none
    else do
      let pt ← IdealAead.decrypt prim.gcm log cs.k cs.n s.h data
      some ({ s with cs := some { cs with n := cs.n + 1 } }.mixHash prim data, pt)

end Symmetric

end

/-- `oc_noise_hs`; `eSk` is the private key `make_e` finds. -/
structure NoiseHs (Secret Digest Hash : Type) where
  sym : Symmetric Digest Hash
  initiator : Bool
  step : Nat
  (sSk eSk : Secret)
  (sPk ePk rs re : List UInt8)

/-- `oc_noise_result`; `bobSk` is the responder's only. -/
structure NoiseResult (Secret Digest Hash : Type) where
  (send recv : NoiseCipher Digest)
  rs : List UInt8
  hh : Hash
  rk : Digest
  bobSk : Option Secret
  bobPk : List UInt8

namespace NoiseHs

variable {Secret Digest Hash : Type} (prim : NoisePrimitives Secret Digest Hash)

/-- `init_common` -/
def init (initiator : Bool) (prologue : List UInt8) (sSk eSk : Secret) : NoiseHs Secret Digest Hash :=
  let sym : Symmetric Digest Hash := ⟨prim.nameKey, prim.nameHash, none⟩
  { sym := sym.mixHash prim prologue, initiator, step := 0, sSk, eSk, sPk := prim.publicKey sSk
    ePk := [], rs := [], re := [] }

variable (hs : NoiseHs Secret Digest Hash)

def myTurn : Bool := hs.step < 3 ∧ ((hs.step % 2 = 0) ↔ hs.initiator)

/-- The tokens of `oc_noise_xx_write`: what is out before the payload. -/
def writeTokens (cap : Nat) (log : NoiseLog Digest Hash) :
    Option (NoiseHs Secret Digest Hash × List UInt8 × NoiseLog Digest Hash) :=
  match hs.step with
  | 0 => -- -> e
      if cap < noiseDhLen then none
      else
        let ePk := prim.publicKey hs.eSk
        some ({ hs with ePk, sym := hs.sym.mixHash prim ePk }, ePk, log)
  | 1 => -- <- e, ee, s, es
      if cap < noiseDhLen then none
      else do
        let ePk := prim.publicKey hs.eSk
        let sym ← (hs.sym.mixHash prim ePk).dhMix prim hs.eSk hs.re
        let (sym, key, log) ← sym.encryptAndHash prim hs.sPk (cap - noiseDhLen) log
        let sym ← sym.dhMix prim hs.sSk hs.re
        some ({ hs with ePk, sym }, ePk ++ key, log)
  | _ => do -- -> s, se
      let (sym, key, log) ← hs.sym.encryptAndHash prim hs.sPk cap log
      let sym ← sym.dhMix prim hs.sSk hs.re
      some ({ hs with sym }, key, log)

def write (payload : List UInt8) (cap : Nat) (log : NoiseLog Digest Hash) :
    Option (NoiseHs Secret Digest Hash × List UInt8 × NoiseLog Digest Hash) :=
  if !hs.myTurn then none
  else do
    let (hs, tokens, log) ← hs.writeTokens prim cap log
    let (sym, out, log) ← hs.sym.encryptAndHash prim payload (cap - tokens.length) log
    if (tokens ++ out).length > noiseMaxMsg then none
    else some ({ hs with sym, step := hs.step + 1 }, tokens ++ out, log)

variable [DecidableEq Digest] [DecidableEq Hash]

/-- The tokens of `oc_noise_xx_read`: the bytes left for the payload. -/
def readTokens (msg : List UInt8) (log : NoiseLog Digest Hash) : Option (NoiseHs Secret Digest Hash × List UInt8) :=
  match hs.step with
  | 0 =>
    if msg.length < noiseDhLen then none
    else
      let re := msg.take noiseDhLen
      some ({ hs with re, sym := hs.sym.mixHash prim re }, msg.drop noiseDhLen)
  | 1 =>
    if msg.length < noiseDhLen + noiseSealedKeyLen then none
    else do
      let re := msg.take noiseDhLen
      let rest := msg.drop noiseDhLen
      let sym ← (hs.sym.mixHash prim re).dhMix prim hs.eSk re
      let (sym, rs) ← sym.decryptAndHash prim (rest.take noiseSealedKeyLen) noiseSealedKeyLen log
      if rs.length ≠ noiseDhLen then none
      else
        let sym ← sym.dhMix prim hs.eSk rs
        some ({ hs with re, rs, sym }, rest.drop noiseSealedKeyLen)
  | _ =>
    if msg.length < noiseSealedKeyLen then none
    else do
      let (sym, rs) ← hs.sym.decryptAndHash prim (msg.take noiseSealedKeyLen) noiseSealedKeyLen log
      if rs.length ≠ noiseDhLen then none
      else
        let sym ← sym.dhMix prim hs.eSk rs
        some ({ hs with rs, sym }, msg.drop noiseSealedKeyLen)

/-- `oc_noise_xx_read`: the payload. -/
def read (msg : List UInt8) (cap : Nat)
    (log : NoiseLog Digest Hash) : Option (NoiseHs Secret Digest Hash × List UInt8) :=
  if 3 ≤ hs.step ∨ hs.myTurn ∨ noiseMaxMsg < msg.length then none
  else do
    let (hs, rest) ← hs.readTokens prim msg log
    let (sym, payload) ← hs.sym.decryptAndHash prim rest cap log
    some ({ hs with sym, step := hs.step + 1 }, payload)

def split : Option (NoiseResult Secret Digest Hash) :=
  if hs.step ≠ 3 then none
  else
    let (k1, k2) := hkdf2 prim hs.sym.ck []
    let temp := prim.hmac hs.sym.ck []
    some
      { send := ⟨if hs.initiator then k1 else k2, 0⟩, recv := ⟨if hs.initiator then k2 else k1, 0⟩
        rs := hs.rs, hh := hs.sym.h, rk := prim.hmac temp (prim.bytes k2 ++ [3])
        bobSk := if hs.initiator then none else some hs.eSk
        bobPk := if hs.initiator then hs.re else hs.ePk }

end NoiseHs

/-- What the two sides bring: keys, prologues, payloads and the room of their buffers. -/
structure NoiseParties (Secret : Type) where
  (initiatorStatic initiatorEphemeral responderStatic responderEphemeral : Secret)
  (initiatorPrologue responderPrologue : List UInt8)
  payload : Fin 3 → List UInt8
  writeCap : Fin 3 → Nat
  readCap : Fin 3 → Nat

/-- What each call returned; `none` is -1, or a call never made because one before it
failed. -/
structure NoiseOutcome (Secret Digest Hash : Type) where
  sent : Fin 3 → Option (List UInt8)
  payload : Fin 3 → Option (List UInt8)
  initiator : Option (NoiseResult Secret Digest Hash)
  responder : Option (NoiseResult Secret Digest Hash)

variable {Secret Digest Hash : Type} (prim : NoisePrimitives Secret Digest Hash)
variable [DecidableEq Digest] [DecidableEq Hash]

namespace NoiseParties

variable (p : NoiseParties Secret) (change : Fin 3 → List UInt8 → List UInt8)

/-- The six calls of a run, each message changed on its way by `change`. -/
def write1 : Option (NoiseHs Secret Digest Hash × List UInt8 × NoiseLog Digest Hash) :=
  (NoiseHs.init prim true p.initiatorPrologue p.initiatorStatic p.initiatorEphemeral).write prim
    (p.payload 0) (p.writeCap 0) []

def read1 : Option (NoiseHs Secret Digest Hash × List UInt8) := do
  let (_, msg, log) ← p.write1 prim
  (NoiseHs.init prim false p.responderPrologue p.responderStatic p.responderEphemeral).read prim
    (change 0 msg) (p.readCap 0) log

def write2 : Option (NoiseHs Secret Digest Hash × List UInt8 × NoiseLog Digest Hash) := do
  let (_, _, log) ← p.write1 prim
  let (responder, _) ← p.read1 prim change
  responder.write prim (p.payload 1) (p.writeCap 1) log

def read2 : Option (NoiseHs Secret Digest Hash × List UInt8) := do
  let (initiator, _, _) ← p.write1 prim
  let (_, msg, log) ← p.write2 prim change
  initiator.read prim (change 1 msg) (p.readCap 1) log

def write3 : Option (NoiseHs Secret Digest Hash × List UInt8 × NoiseLog Digest Hash) := do
  let (_, _, log) ← p.write2 prim change
  let (initiator, _) ← p.read2 prim change
  initiator.write prim (p.payload 2) (p.writeCap 2) log

def read3 : Option (NoiseHs Secret Digest Hash × List UInt8) := do
  let (responder, _, _) ← p.write2 prim change
  let (_, msg, log) ← p.write3 prim change
  responder.read prim (change 2 msg) (p.readCap 2) log

def run : NoiseOutcome Secret Digest Hash where
  sent := ![(p.write1 prim).map (·.2.1), (p.write2 prim change).map (·.2.1), (p.write3 prim change).map (·.2.1)]
  payload := ![(p.read1 prim change).map (·.2), (p.read2 prim change).map (·.2), (p.read3 prim change).map (·.2)]
  initiator := (p.write3 prim change).bind (·.1.split prim)
  responder := (p.read3 prim change).bind (·.1.split prim)

def messageLength : Fin 3 → Nat :=
  ![noiseDhLen + (p.payload 0).length,
    noiseDhLen + noiseSealedKeyLen + (p.payload 1).length + noiseTagLen,
    noiseSealedKeyLen + (p.payload 2).length + noiseTagLen]

def Fits : Prop :=
  ∀ i, p.messageLength i ≤ p.writeCap i ∧ p.messageLength i ≤ noiseMaxMsg ∧ (p.payload i).length ≤ p.readCap i

end NoiseParties

/-- What of each message is encrypted: of the first nothing, of the second all behind the
ephemeral key. -/
def encryptedPart : Fin 3 → List UInt8 → List UInt8 := ![fun _ => [], (·.drop noiseDhLen), id]

end OpenChime.Crypto
