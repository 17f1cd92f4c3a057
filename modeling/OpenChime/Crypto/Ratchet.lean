import OpenChime.Lib.IdealAead
import OpenChime.Lib.Slots
import Mathlib.Data.List.Range

/-! The Double Ratchet of `shared/ratchet.c`. Keys, key pairs and digests are all
`uint8_t[32]` there and one type here. The primitives of mbedTLS are parameters;
`Primitives.Ideal` is what is assumed of them. The AEAD opens what its log holds. -/

set_option autoImplicit false

namespace OpenChime.Crypto

open Option List

def maxSkip : Nat := 256

def tagLen : Nat := 16

/-- The 40 header bytes: ratchet public key, previous chain length, number. -/
structure Header (Key : Type) where
  dh : Key
  pn : UInt32
  n : UInt32
  deriving DecidableEq

structure Primitives (Key Nonce : Type) where
  /-- `oc_x25519_public` -/
  publicKey : Key → Key
  /-- `oc_x25519`; it refuses some public keys that no key pair has. -/
  x25519 : Key → Key → Option Key
  /-- HKDF-SHA256 with `INFO_RK`: salt, input key, and the two halves of the output. -/
  hkdfRoot : Key → Key → Key × Key
  /-- HMAC(ck, 0x01) -/
  hmacOne : Key → Key
  /-- HMAC(ck, 0x02) -/
  hmacTwo : Key → Key
  /-- HKDF-SHA256 with `INFO_MSG`: the AES key and the nonce. -/
  hkdfMessage : Key → Key × Nonce
  gcm : IdealAead.Cipher tagLen Key Nonce (Key × Header Key) UInt8

/-- Keys are symbolic: no finite type of keys has an injective `hkdfRoot`. -/
structure Primitives.Ideal {Key Nonce : Type} (prim : Primitives Key Nonce) : Prop where
  x25519_comm : ∀ mine theirs, prim.x25519 mine (prim.publicKey theirs) = prim.x25519 theirs (prim.publicKey mine)
  x25519_public : ∀ mine theirs, ∃ dhOut, prim.x25519 mine (prim.publicKey theirs) = some dhOut
  x25519_injective : ∀ mine theirs others,
    prim.x25519 mine (prim.publicKey theirs) = prim.x25519 mine (prim.publicKey others) →
      prim.publicKey theirs = prim.publicKey others
  hkdfRoot_injective : ∀ {rk dhOut rk' dhOut'},
    (prim.hkdfRoot rk dhOut).2 = (prim.hkdfRoot rk' dhOut').2 → rk = rk' ∧ dhOut = dhOut'
  hmacOne_injective : Function.Injective prim.hmacOne
  hmacTwo_injective : Function.Injective prim.hmacTwo
  hkdfMessage_injective : Function.Injective prim.hkdfMessage

/-- `oc_ratchet_skipped`; a slot's `used` is the table's. -/
structure Skipped (Key : Type) where
  dh : Key
  n : Nat
  messageKey : Key
  deriving DecidableEq

/-- `oc_ratchet`. Each `has_` flag and its key are one `Option`. -/
structure Ratchet (Key : Type) where
  dhsSk : Key
  dhsPk : Key
  dhr : Option Key
  rk : Key
  cks : Option Key
  ckr : Option Key
  ns : Nat
  nr : Nat
  pn : Nat
  ad : Key
  skipped : Slots.Table (Skipped Key) maxSkip
  deriving DecidableEq

namespace Ratchet

variable {Key Nonce : Type}

abbrev Log (Key Nonce : Type) := IdealAead.Log Key Nonce (Key × Header Key) UInt8

def ciphertext (prim : Primitives Key Nonce) (mk ad : Key) (header : Header Key) (pt : List UInt8) : List UInt8 :=
  let (key, nonce) := prim.hkdfMessage mk
  prim.gcm.encrypt key nonce (ad, header) pt

def logEntry (prim : Primitives Key Nonce) (mk ad : Key) (header : Header Key) (pt : List UInt8) :
    IdealAead.Entry Key Nonce (Key × Header Key) UInt8 :=
  let (key, nonce) := prim.hkdfMessage mk
  ⟨key, nonce, (ad, header), pt⟩

/-- `seal(1, ..)`: the ciphertext, and the log with this call. -/
def sealMessage (prim : Primitives Key Nonce) (log : Log Key Nonce) (mk ad : Key)
    (header : Header Key) (pt : List UInt8) : List UInt8 × Log Key Nonce :=
  (ciphertext prim mk ad header pt, logEntry prim mk ad header pt :: log)

def headerOf (r : Ratchet Key) : Header Key := ⟨r.dhsPk, UInt32.ofNat r.pn, UInt32.ofNat r.ns⟩

/-- `oc_ratchet_init_alice`; `fresh` is the secret `oc_x25519_keypair` draws. -/
def initAlice (prim : Primitives Key Nonce) (rk bobPk ad fresh : Key) : Option (Ratchet Key) := do
  let dhOut ← prim.x25519 fresh bobPk
  let (rk, cks) := prim.hkdfRoot rk dhOut
  some
    { dhsSk := fresh, dhsPk := prim.publicKey fresh, dhr := some bobPk, rk, cks := some cks
      ckr := none, ns := 0, nr := 0, pn := 0, ad, skipped := .empty _ _ }

def initBob (rk bobSk bobPk ad : Key) : Ratchet Key :=
  { dhsSk := bobSk, dhsPk := bobPk, dhr := none, rk, cks := none, ckr := none, ns := 0, nr := 0
    pn := 0, ad, skipped := .empty _ _ }

/-- `oc_ratchet_encrypt`: the ratchet after it, the header, the ciphertext and the log. -/
def encrypt (prim : Primitives Key Nonce) (log : Log Key Nonce) (r : Ratchet Key)
    (pt : List UInt8) : Option (Ratchet Key × Header Key × List UInt8 × Log Key Nonce) :=
  match r.cks with
  | none => none
  | some cks =>
    if r.ns = UInt32.size - 1 then none
    else
      let header := r.headerOf
      let (ct, log) := sealMessage prim log (prim.hmacOne cks) r.ad header pt
      some ({ r with cks := some (prim.hmacTwo cks), ns := r.ns + 1 }, header, ct, log)

/-- The loop of `skip_message_keys`, which runs `until - nr` times. -/
def skipLoop (prim : Primitives Key Nonce) : Nat → Ratchet Key → Option (Ratchet Key)
  | 0, r => some r
  | steps + 1, r =>
    -- `ckr` is only ever set together with `dhr`.
    match r.dhr, r.ckr with
    | some dhr, some ckr => do
        let skipped ← r.skipped.put ⟨dhr, r.nr, prim.hmacOne ckr⟩
        skipLoop prim steps { r with skipped, ckr := some (prim.hmacTwo ckr), nr := r.nr + 1 }
    | _, _ => none

def skipMessageKeys (prim : Primitives Key Nonce) (r : Ratchet Key) (limit : Nat) : Option (Ratchet Key) :=
  if r.ckr = none then some r
  else if limit < r.nr then some r
  else if limit - r.nr + r.skipped.entries.length > maxSkip then none
  else skipLoop prim (limit - r.nr) r

/-- `dh_ratchet`; `fresh` is the secret of the next key pair. -/
def dhRatchet (prim : Primitives Key Nonce) (fresh : Key) (r : Ratchet Key) (theirPk : Key) : Option (Ratchet Key) := do
  let dhOut ← prim.x25519 r.dhsSk theirPk
  let (rk, ckr) := prim.hkdfRoot r.rk dhOut
  let dhOut ← prim.x25519 fresh theirPk
  let (rk, cks) := prim.hkdfRoot rk dhOut
  some { r with
      pn := r.ns, ns := 0, nr := 0, dhr := some theirPk, rk, ckr := some ckr, cks := some cks
      dhsSk := fresh, dhsPk := prim.publicKey fresh }

section
variable [DecidableEq Key]

/-- `decrypt_into`: turn to the header's chain if it is not the receiving one. -/
def follow (prim : Primitives Key Nonce) (fresh : Key) (r : Ratchet Key) (header : Header Key) : Option (Ratchet Key) :=
  if r.dhr = some header.dh then some r
  else do
    let r ← skipMessageKeys prim r header.pn.toNat
    dhRatchet prim fresh r header.dh

/-- `decrypt_into`: the key of the header's message in the receiving chain. -/
def advance (prim : Primitives Key Nonce) (r : Ratchet Key) (header : Header Key) : Option (Ratchet Key × Key) :=
  if r.ckr = none ∨ header.n.toNat < r.nr then none   -- a replay, or a key already used
  else do
    let r ← skipMessageKeys prim r header.n.toNat
    let ckr ← r.ckr
    some ({ r with ckr := some (prim.hmacTwo ckr), nr := (r.nr + 1) % UInt32.size }, prim.hmacOne ckr)

def keptFor (header : Header Key) (kept : Skipped Key) : Bool := kept.n = header.n.toNat ∧ kept.dh = header.dh

variable [DecidableEq Nonce]

/-- `seal(0, ..)` -/
def openMessage (prim : Primitives Key Nonce) (log : Log Key Nonce) (mk ad : Key) (header : Header Key)
    (ct : List UInt8) : Option (List UInt8) :=
  let (key, nonce) := prim.hkdfMessage mk
  if ct.length < tagLen then none else IdealAead.decrypt prim.gcm log key nonce (ad, header) ct

def decryptInto (prim : Primitives Key Nonce) (log : Log Key Nonce) (fresh : Key) (r : Ratchet Key)
    (header : Header Key) (ct : List UInt8) : Option (Ratchet Key × List UInt8) :=
  match r.skipped.find (keptFor header) with
  | some kept => do
      let pt ← openMessage prim log kept.messageKey r.ad header ct
      some ({ r with skipped := r.skipped.clear (keptFor header) }, pt)
  | none => do
      let r ← follow prim fresh r header
      let (r, key) ← advance prim r header
      let pt ← openMessage prim log key r.ad header ct
      some (r, pt)

/-- `oc_ratchet_decrypt`: the ratchet after it, and the plaintext when it returns 0. It
works on a copy, which becomes the state only if the message opened. -/
def decrypt (prim : Primitives Key Nonce) (log : Log Key Nonce) (fresh : Key) (r : Ratchet Key)
    (header : Header Key) (ct : List UInt8) : Ratchet Key × Option (List UInt8) :=
  match decryptInto prim log fresh r header ct with
  | some (next, pt) => (next, some pt)
  | none => (r, none)

end

variable {prim : Primitives Key Nonce} {r after : Ratchet Key} {header : Header Key} {pk start : Key}

theorem encrypt_spec {log log' : Log Key Nonce} {pt ct : List UInt8}
    (done : encrypt prim log r pt = some (after, header, ct, log')) :
    ∃ cks, r.cks = some cks ∧ r.ns ≠ UInt32.size - 1 ∧
      after = { r with cks := some (prim.hmacTwo cks), ns := r.ns + 1 } ∧ header = r.headerOf ∧
      ct = ciphertext prim (prim.hmacOne cks) r.ad header pt ∧
      log' = logEntry prim (prim.hmacOne cks) r.ad header pt :: log := by
  unfold encrypt at done
  split at done
  · cases done
  rename_i cks hasCks
  split at done
  · cases done
  rename_i below
  cases done
  exact ⟨cks, hasCks, below, rfl, rfl, rfl, rfl⟩

/-! What the receiving side of the ratchet does, said in terms of the chain key `start`
its current chain began with. -/

/-- The message key of position `n` in the chain that starts with `start`. -/
def keyAt (prim : Primitives Key Nonce) (start : Key) (n : Nat) : Key := prim.hmacOne (prim.hmacTwo^[n] start)

def kept (prim : Primitives Key Nonce) (pk start : Key) (n : Nat) : Skipped Key := ⟨pk, n, keyAt prim start n⟩

/-- The receiving chain is the one of `pk` that began with `start`, at position `nr`. -/
structure Receives (prim : Primitives Key Nonce) (r : Ratchet Key) (pk start : Key) : Prop where
  dhr : r.dhr = some pk
  ckr : r.ckr = some (prim.hmacTwo^[r.nr] start)

theorem keyAt_injective (ideal : prim.Ideal) (n : Nat) : Function.Injective (keyAt prim · n) :=
  ideal.hmacOne_injective.comp (ideal.hmacTwo_injective.iterate n)

theorem logEntry_injective (ideal : prim.Ideal) {key key' ad ad' : Key} {header' : Header Key} {pt pt' : List UInt8}
    (same : logEntry prim key ad header pt = logEntry prim key' ad' header' pt') :
    key = key' ∧ header = header' ∧ pt = pt' := by
  simp only [logEntry, IdealAead.Entry.mk.injEq, Prod.mk.injEq] at same
  obtain ⟨sameKey, sameNonce, ⟨-, sameHeader⟩, sameText⟩ := same
  exact ⟨ideal.hkdfMessage_injective (Prod.ext sameKey sameNonce), sameHeader, sameText⟩

/-- The receiver once the chain of `pk` stands at `nr` with `skipped` kept. -/
def movedTo (prim : Primitives Key Nonce) (r : Ratchet Key) (start : Key) (nr : Nat)
    (skipped : Slots.Table (Skipped Key) maxSkip) : Ratchet Key :=
  { r with skipped, ckr := some (prim.hmacTwo^[nr] start), nr }

variable {steps : Nat} (receives : Receives prim r pk start)

include receives

theorem skipLoop_spec (done : skipLoop prim steps r = some after) :
    ∃ skipped, after = movedTo prim r start (r.nr + steps) skipped ∧ skipped.entries.Perm
        (r.skipped.entries ++ (range' r.nr steps).map (kept prim pk start)) := by
  induction steps generalizing r with
  | zero =>
    simp only [skipLoop, some.injEq] at done
    subst done
    refine ⟨r.skipped, ?_, by simp⟩
    simp [movedTo, ← receives.ckr]
  | succ steps ih =>
    simp only [skipLoop, receives.dhr, receives.ckr, bind_eq_bind, bind_eq_some_iff] at done
    obtain ⟨skipped, put, rest⟩ := done
    have moved : Receives prim { r with
          skipped
          ckr := some (prim.hmacTwo (prim.hmacTwo^[r.nr] start)), nr := r.nr + 1 } pk start :=
      ⟨receives.dhr, by simp [Function.iterate_succ_apply']⟩
    obtain ⟨last, rfl, held⟩ := ih moved (by rw [receives.dhr]; exact rest)
    refine ⟨last, ?_, ?_⟩
    · simp [movedTo, receives.dhr, Nat.add_assoc, Nat.add_comm 1]
    · have first : skipped.entries.Perm (kept prim pk start r.nr :: r.skipped.entries) := Slots.Table.put_perm put
      refine held.trans ?_
      exact ((first.append_right _).trans perm_middle.symm)

theorem exists_skipLoop (room : r.skipped.entries.length + steps ≤ maxSkip) :
    ∃ after, skipLoop prim steps r = some after := by
  induction steps generalizing r with
  | zero => exact ⟨r, rfl⟩
  | succ steps ih =>
    obtain ⟨skipped, put⟩ := Slots.Table.exists_put (⟨pk, r.nr, prim.hmacOne (prim.hmacTwo^[r.nr] start)⟩ : Skipped Key)
      (show r.skipped.entries.length < maxSkip by omega)
    have grown := (Slots.Table.put_perm put).length_eq
    simp only [skipLoop, receives.dhr, receives.ckr, put, bind_eq_bind, bind_some]
    refine ih ⟨rfl, by simp [Function.iterate_succ_apply']⟩ ?_
    simp only [length_cons] at grown ⊢
    omega

variable {limit : Nat}

theorem skipMessageKeys_spec (reached : r.nr ≤ limit) (done : skipMessageKeys prim r limit = some after) :
    ∃ skipped, after = movedTo prim r start limit skipped ∧
      skipped.entries.Perm (r.skipped.entries ++ (range' r.nr (limit - r.nr)).map (kept prim pk start)) := by
  unfold skipMessageKeys at done
  rw [if_neg (by simp [receives.ckr]), if_neg (by omega)] at done
  split at done
  · cases done
  · have spec := skipLoop_spec receives done
    rwa [show r.nr + (limit - r.nr) = limit by omega] at spec

theorem exists_skipMessageKeys (reached : r.nr ≤ limit) (room : r.skipped.entries.length + (limit - r.nr) ≤ maxSkip) :
    ∃ after, skipMessageKeys prim r limit = some after := by
  unfold skipMessageKeys
  rw [if_neg (by simp [receives.ckr]), if_neg (by omega), if_neg (by omega)]
  exact exists_skipLoop receives room

omit receives

private theorem skipLoop_frame (done : skipLoop prim steps r = some after) :
    ∃ skipped ckr nr, after = { r with skipped, ckr, nr } := by
  induction steps generalizing r with
  | zero =>
    simp only [skipLoop, some.injEq] at done
    exact ⟨r.skipped, r.ckr, r.nr, done.symm⟩
  | succ steps ih =>
    simp only [skipLoop] at done
    split at done
    · simp only [bind_eq_bind, bind_eq_some_iff] at done
      obtain ⟨skipped, -, rest⟩ := done
      obtain ⟨skipped', ckr', nr', rfl⟩ := ih rest
      exact ⟨skipped', ckr', nr', rfl⟩
    · cases done

theorem skipMessageKeys_frame (done : skipMessageKeys prim r limit = some after) :
    ∃ skipped ckr nr, after = { r with skipped, ckr, nr } := by
  unfold skipMessageKeys at done
  split at done
  · exact ⟨r.skipped, r.ckr, r.nr, (some.inj done).symm⟩
  split at done
  · exact ⟨r.skipped, r.ckr, r.nr, (some.inj done).symm⟩
  split at done
  · cases done
  · exact skipLoop_frame done

theorem advance_spec {key : Key} (receives : Receives prim r pk start)
    (done : advance prim r header = some (after, key)) :
    r.nr ≤ header.n.toNat ∧ key = keyAt prim start header.n.toNat ∧ after.ad = r.ad := by
  unfold advance at done
  split at done
  · cases done
  have reached : r.nr ≤ header.n.toNat := by
    omega
  simp only [bind_eq_bind, bind_eq_some_iff] at done
  obtain ⟨moved, skipDone, ckr, hasCkr, result⟩ := done
  obtain ⟨skipped, rfl, -⟩ := skipMessageKeys_spec receives reached skipDone
  simp only [movedTo, some.injEq] at hasCkr
  subst hasCkr
  cases result
  exact ⟨reached, rfl, rfl⟩

theorem exists_advance (receives : Receives prim r pk start) (reached : r.nr ≤ header.n.toNat)
    (last : header.n.toNat + 1 < UInt32.size) (room : r.skipped.entries.length + (header.n.toNat - r.nr) ≤ maxSkip) :
    ∃ skipped, advance prim r header = some (movedTo prim r start (header.n.toNat + 1) skipped,
          keyAt prim start header.n.toNat) ∧
      skipped.entries.Perm (r.skipped.entries ++ (range' r.nr (header.n.toNat - r.nr)).map (kept prim pk start)) := by
  obtain ⟨moved, skipDone⟩ := exists_skipMessageKeys receives reached room
  obtain ⟨skipped, rfl, held⟩ := skipMessageKeys_spec receives reached skipDone
  refine ⟨skipped, ?_, held⟩
  unfold advance
  rw [if_neg (by simp only [receives.ckr]; simp; omega), skipDone]
  simp only [movedTo, keyAt, bind_eq_bind, bind_some, Nat.mod_eq_of_lt last, Function.iterate_succ_apply']

/-- The ratchet after `dh_ratchet` with the shared secrets `dhOut` and `dhOut'`. -/
def turned (prim : Primitives Key Nonce) (fresh : Key) (r : Ratchet Key) (theirPk dhOut dhOut' : Key) : Ratchet Key :=
  { r with
    pn := r.ns, ns := 0, nr := 0, dhr := some theirPk
    rk := (prim.hkdfRoot (prim.hkdfRoot r.rk dhOut).1 dhOut').1
    ckr := some (prim.hkdfRoot r.rk dhOut).2
    cks := some (prim.hkdfRoot (prim.hkdfRoot r.rk dhOut).1 dhOut').2
    dhsSk := fresh, dhsPk := prim.publicKey fresh }

section
variable [DecidableEq Key]

variable {header : Header Key} {prim : Primitives Key Nonce} {fresh : Key} {r after : Ratchet Key}
  {log : Log Key Nonce} {pt ct : List UInt8}

theorem keptFor_iff {kept : Skipped Key} :
    keptFor header kept = true ↔ kept.n = header.n.toNat ∧ kept.dh = header.dh := by
  simp [keptFor]

theorem follow_same (same : r.dhr = some header.dh) : follow prim fresh r header = some r := by
  rw [follow, if_pos same]

theorem follow_new_spec (differs : r.dhr ≠ some header.dh) (done : follow prim fresh r header = some after) :
    ∃ dhOut, prim.x25519 r.dhsSk header.dh = some dhOut ∧ after.ad = r.ad ∧
      Receives prim after header.dh (prim.hkdfRoot r.rk dhOut).2 := by
  rw [follow, if_neg differs] at done
  simp only [bind_eq_bind, bind_eq_some_iff] at done
  obtain ⟨moved, skipDone, turn⟩ := done
  obtain ⟨skipped, ckr, nr, rfl⟩ := skipMessageKeys_frame skipDone
  simp only [dhRatchet, bind_eq_bind, bind_eq_some_iff, some.injEq] at turn
  obtain ⟨dhOut, agreed, dhOut', -, rfl⟩ := turn
  exact ⟨dhOut, agreed, rfl, rfl, rfl⟩

/-- Turning to the header's chain and taking its message key, once the keys of the chain
before it are kept in `skipped`. -/
theorem exists_turn {skipped : Slots.Table (Skipped Key) maxSkip} {ckr : Option Key} {nr : Nat} {dhOut dhOut' : Key}
    (differs : r.dhr ≠ some header.dh)
    (skipDone : skipMessageKeys prim r header.pn.toNat = some { r with skipped, ckr, nr })
    (agreed : prim.x25519 r.dhsSk header.dh = some dhOut) (agreed' : prim.x25519 fresh header.dh = some dhOut')
    (last : header.n.toNat + 1 < UInt32.size) (room : skipped.entries.length + header.n.toNat ≤ maxSkip) :
    ∃ followed after, follow prim fresh r header = some followed ∧ advance prim followed header =
        some (movedTo prim (turned prim fresh r header.dh dhOut dhOut')
            (prim.hkdfRoot r.rk dhOut).2 (header.n.toNat + 1) after,
          keyAt prim (prim.hkdfRoot r.rk dhOut).2 header.n.toNat) ∧
      after.entries.Perm (skipped.entries ++ (range' 0 header.n.toNat).map
        (kept prim header.dh (prim.hkdfRoot r.rk dhOut).2)) := by
  have receives : Receives prim (turned prim fresh { r with skipped, ckr, nr } header.dh dhOut dhOut') header.dh _ :=
    ⟨rfl, rfl⟩
  obtain ⟨after, advanced, held⟩ := exists_advance receives (Nat.zero_le _) last room
  refine ⟨_, after, ?_, advanced, held⟩
  rw [follow, if_neg differs, skipDone]
  simp [dhRatchet, agreed, agreed', turned]

/-- Where `decrypt_into` can have a message key from: a kept one, the receiving chain, or
the chain that the header's ratchet key would start. -/
inductive KeySource (prim : Primitives Key Nonce) (r : Ratchet Key) (header : Header Key) :
    Key → Prop where
  | stored (entry : Skipped Key) (held : entry ∈ r.skipped.entries) (dh : entry.dh = header.dh)
      (n : entry.n = header.n.toNat) : KeySource prim r header entry.messageKey
  | chain (start : Key) (receives : Receives prim r header.dh start)
      (reached : r.nr ≤ header.n.toNat) : KeySource prim r header (keyAt prim start header.n.toNat)
  | turn (dhOut : Key) (differs : r.dhr ≠ some header.dh) (agreed : prim.x25519 r.dhsSk header.dh = some dhOut) :
      KeySource prim r header (keyAt prim (prim.hkdfRoot r.rk dhOut).2 header.n.toNat)

variable [DecidableEq Nonce]

theorem openMessage_of_mem {key ad : Key} (logged : logEntry prim key ad header pt ∈ log) :
    openMessage prim log key ad header (ciphertext prim key ad header pt) = some pt := by
  have tagged : ¬ (ciphertext prim key ad header pt).length < tagLen := by
    simp only [ciphertext, prim.gcm.length_encrypt]
    omega
  unfold openMessage
  dsimp only
  rw [if_neg tagged]
  exact IdealAead.decrypt_of_mem logged

theorem mem_of_openMessage {key ad : Key} (opened : openMessage prim log key ad header ct = some pt) :
    logEntry prim key ad header pt ∈ log ∧ ciphertext prim key ad header pt = ct := by
  unfold openMessage at opened
  dsimp only at opened
  split at opened
  · cases opened
  · exact IdealAead.mem_of_decrypt opened

theorem keySource_of_decryptInto (placed : r.ckr = none ∨ ∃ pk start, Receives prim r pk start)
    (done : decryptInto prim log fresh r header ct = some (after, pt)) :
    ∃ key, KeySource prim r header key ∧ openMessage prim log key r.ad header ct = some pt := by
  unfold decryptInto at done
  split at done
  · rename_i entry found
    simp only [bind_eq_bind, bind_eq_some_iff] at done
    obtain ⟨text, opened, result⟩ := done
    cases result
    rw [Slots.Table.find_eq] at found
    have matched := keptFor_iff.mp (find?_some found)
    exact ⟨_, .stored entry (mem_of_find?_eq_some found) matched.2 matched.1, opened⟩
  simp only [bind_eq_bind, bind_eq_some_iff] at done
  obtain ⟨followed, followDone, ⟨advanced, key⟩, advanceDone, text, opened, result⟩ := done
  cases result
  by_cases same : r.dhr = some header.dh
  · rw [follow_same same, some.injEq] at followDone
    subst followDone
    rcases placed with noChain | ⟨pk, start, receives⟩
    · simp [advance, noChain] at advanceDone
    have samePk : pk = header.dh := some.inj (receives.dhr.symm.trans same)
    subst samePk
    obtain ⟨reached, rfl, sameAd⟩ := advance_spec receives advanceDone
    rw [sameAd] at opened
    exact ⟨_, .chain start receives reached, opened⟩
  · obtain ⟨dhOut, agreed, followedAd, receives⟩ := follow_new_spec same followDone
    obtain ⟨-, rfl, sameAd⟩ := advance_spec receives advanceDone
    rw [sameAd, followedAd] at opened
    exact ⟨_, .turn dhOut same agreed, opened⟩

theorem decryptInto_stored {entry : Skipped Key} (found : r.skipped.entries.find? (keptFor header) = some entry)
    (opened : openMessage prim log entry.messageKey r.ad header ct = some pt) :
    decryptInto prim log fresh r header ct = some ({ r with skipped := r.skipped.clear (keptFor header) }, pt) := by
  simp [decryptInto, Slots.Table.find_eq, found, opened]

theorem decryptInto_fresh {followed : Ratchet Key} {key : Key}
    (missing : r.skipped.entries.find? (keptFor header) = none)
    (followDone : follow prim fresh r header = some followed)
    (advanceDone : advance prim followed header = some (after, key))
    (opened : openMessage prim log key after.ad header ct = some pt) :
    decryptInto prim log fresh r header ct = some (after, pt) := by
  simp [decryptInto, Slots.Table.find_eq, missing, followDone, advanceDone, opened]

end

end Ratchet

end OpenChime.Crypto
