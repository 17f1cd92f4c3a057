import Mathlib.Data.Fintype.Basic
import Mathlib.Tactic.FinCases
import OpenChime.Crypto.NoiseXX

/-! What the Noise XX handshake agrees on. A side's handshake hash stands for the list of
everything it mixed in: the prologue and then, cut at fixed places, every byte of every
message it wrote or read. So equal hashes mean equal messages, and what was sealed under
one transcript opens under no other. -/

set_option autoImplicit false

namespace OpenChime.Crypto

open List Option Crypto.Symmetric NoiseParties NoiseHs

variable {Secret Digest Hash : Type} {prim : NoisePrimitives Secret Digest Hash}

def NoisePrimitives.hashOf (prim : NoisePrimitives Secret Digest Hash) (parts : List (List UInt8)) : Hash :=
  parts.foldl prim.hash prim.nameHash

theorem hashOf_append (parts : List (List UInt8)) (part : List UInt8) :
    prim.hash (prim.hashOf parts) part = prim.hashOf (parts ++ [part]) := by
  simp [NoisePrimitives.hashOf]

/-- Every call in the log sealed, under the hash of a transcript, the part that comes next;
`seals` holds both. -/
def Logged (prim : NoisePrimitives Secret Digest Hash) (log : NoiseLog Digest Hash)
    (seals : List (List (List UInt8) × List UInt8)) : Prop :=
  ∀ entry ∈ log, ∃ pair ∈ seals, entry.aad = prim.hashOf pair.1 ∧
    prim.gcm.encrypt entry.key entry.nonce entry.aad entry.text = pair.2

theorem logged_nil : Logged prim [] [] := by
  intro entry member
  cases member

theorem Logged.append {log : NoiseLog Digest Hash} {seals : List (List (List UInt8) × List UInt8)}
    (logged : Logged prim log seals) {key : Digest} {nonce : Nat} {aad : Hash} {text out : List UInt8}
    {parts : List (List UInt8)} (stands : aad = prim.hashOf parts) (isOut : out = prim.gcm.encrypt key nonce aad text) :
    Logged prim (log ++ [⟨key, nonce, aad, text⟩]) (seals ++ [(parts, out)]) := by
  intro entry member
  rcases mem_append.mp member with earlier | last
  · obtain ⟨pair, listed, facts⟩ := logged entry earlier
    exact ⟨pair, mem_append_left _ listed, facts⟩
  · obtain rfl := mem_singleton.mp last
    exact ⟨_, mem_concat_self, stands, isOut.symm⟩

namespace Symmetric

variable {s after : Symmetric Digest Hash} {log later : NoiseLog Digest Hash} {cap : Nat} {pt out data : List UInt8}

theorem dhMix_ok {sk : Secret} {pk : List UInt8} (mixed : s.dhMix prim sk pk = some after) :
    after.h = s.h ∧ ∃ k, after.cs = some ⟨k, 0⟩ := by
  obtain ⟨shared, -, rfl⟩ := map_eq_some_iff.mp mixed
  exact ⟨rfl, _, rfl⟩

theorem encrypt_plain (noKey : s.cs = none) (written : s.encryptAndHash prim pt cap log = some (after, out, later)) :
    after = s.mixHash prim pt ∧ out = pt ∧ later = log := by
  unfold encryptAndHash at written
  simp only [noKey] at written
  split at written
  · cases written
  · cases written
    exact ⟨rfl, rfl, rfl⟩

variable {cs : NoiseCipher Digest}

theorem encrypt_sealed (hasKey : s.cs = some cs) (written :
    s.encryptAndHash prim pt cap log = some (after, out, later)) :
    out = prim.gcm.encrypt cs.k cs.n s.h pt ∧ after.h = prim.hash s.h out ∧
      after.cs = some ⟨cs.k, cs.n + 1⟩ ∧ later = log ++ [⟨cs.k, cs.n, s.h, pt⟩] := by
  unfold encryptAndHash at written
  simp only [hasKey] at written
  split at written
  · cases written
  split at written
  · cases written
  · cases written
    exact ⟨rfl, rfl, rfl, rfl⟩

variable [DecidableEq Digest] [DecidableEq Hash]

theorem decrypt_plain (noKey : s.cs = none) (read : s.decryptAndHash prim data cap log = some (after, pt)) :
    after = s.mixHash prim data ∧ pt = data := by
  unfold decryptAndHash at read
  simp only [noKey] at read
  split at read
  · cases read
  · cases read
    exact ⟨rfl, rfl⟩

theorem decrypt_sealed (hasKey : s.cs = some cs) (read : s.decryptAndHash prim data cap log = some (after, pt)) :
    after.h = prim.hash s.h data ∧ after.cs = some ⟨cs.k, cs.n + 1⟩ ∧
      IdealAead.decrypt prim.gcm log cs.k cs.n s.h data = some pt := by
  unfold decryptAndHash at read
  simp only [hasKey] at read
  split at read
  · cases read
  split at read
  · cases read
  obtain ⟨text, opened, rest⟩ := bind_eq_some_iff.mp read
  cases rest
  exact ⟨rfl, rfl, opened⟩

theorem mem_seals {parts : List (List UInt8)} {seals : List (List (List UInt8) × List UInt8)} (ideal : prim.Ideal)
    (logged : Logged prim log seals) (hasKey : s.cs = some cs) (at_ : s.h = prim.hashOf parts)
    (read : s.decryptAndHash prim data cap log = some (after, pt)) : (parts, data) ∈ seals := by
  obtain ⟨-, -, opened⟩ := decrypt_sealed hasKey read
  obtain ⟨listed, rfl⟩ := IdealAead.mem_of_decrypt opened
  obtain ⟨pair, member, aad, text⟩ := logged _ listed
  have same : parts = pair.1 := ideal.hash_injective (at_.symm.trans aad)
  rw [same, text]
  exact member

end Symmetric

namespace NoiseHs

variable {hs after : NoiseHs Secret Digest Hash} {log later : NoiseLog Digest Hash} {cap : Nat}
  {payload msg : List UInt8} {parts : List (List UInt8)}
  {seals : List (List (List UInt8) × List UInt8)}

theorem write_ok (written : hs.write prim payload cap log = some (after, msg, later)) :
    ∃ mid tokens middle sym out, hs.writeTokens prim cap log = some (mid, tokens, middle) ∧
      mid.sym.encryptAndHash prim payload (cap - tokens.length) middle = some (sym, out, later) ∧
      msg = tokens ++ out ∧ after = { mid with sym, step := mid.step + 1 } := by
  unfold write at written
  split at written
  · cases written
  obtain ⟨⟨mid, tokens, middle⟩, tokensOut, rest⟩ := bind_eq_some_iff.mp written
  obtain ⟨⟨sym, out, last⟩, payloadOut, rest⟩ := bind_eq_some_iff.mp rest
  dsimp only at rest
  split at rest
  · cases rest
  · cases rest
    exact ⟨mid, tokens, middle, sym, out, tokensOut, payloadOut, rfl, rfl⟩

/-- `e`, and the payload as it is -/
theorem write_first (first : hs.step = 0) (noKey : hs.sym.cs = none) (stands : hs.sym.h = prim.hashOf parts)
    (written : hs.write prim payload cap log = some (after, msg, later)) :
    ∃ e p, e.length = noiseDhLen ∧ msg = e ++ p ∧ later = log ∧ after.step = 1 ∧
      after.sPk = hs.sPk ∧ after.sym.h = prim.hashOf (parts ++ [e, p]) := by
  obtain ⟨mid, tokens, middle, sym, out, tokensOut, payloadOut, rfl, rfl⟩ := write_ok written
  unfold writeTokens at tokensOut
  simp only [first] at tokensOut
  split at tokensOut
  · cases tokensOut
  cases tokensOut
  have stillNone : (hs.sym.mixHash prim (prim.publicKey hs.eSk)).cs = none := noKey
  obtain ⟨rfl, rfl, rfl⟩ := encrypt_plain stillNone payloadOut
  refine ⟨_, _, prim.length_publicKey _, rfl, rfl, rfl, rfl, ?_⟩
  simp only [Symmetric.mixHash, stands, hashOf_append, append_assoc, singleton_append]

/-- `e, ee, s, es`, and the payload sealed -/
theorem write_second (second : hs.step = 1) (stands : hs.sym.h = prim.hashOf parts) (logged : Logged prim log seals)
    (key : hs.sPk.length = noiseDhLen) (written : hs.write prim payload cap log = some (after, msg, later)) :
    ∃ e s p, e.length = noiseDhLen ∧ s.length = noiseSealedKeyLen ∧ msg = e ++ (s ++ p) ∧
      Logged prim later (seals ++ [(parts ++ [e], s)] ++ [(parts ++ [e, s], p)]) ∧
      after.step = 2 ∧ after.sym.h = prim.hashOf (parts ++ [e, s, p]) ∧
      ∃ cs, after.sym.cs = some cs := by
  obtain ⟨mid, tokens, middle, sym, out, tokensOut, payloadOut, rfl, rfl⟩ := write_ok written
  unfold writeTokens at tokensOut
  simp only [second] at tokensOut
  split at tokensOut
  · cases tokensOut
  obtain ⟨ee, mixedEe, rest⟩ := bind_eq_some_iff.mp tokensOut
  obtain ⟨⟨keyed, sealedKey, first⟩, keyOut, rest⟩ := bind_eq_some_iff.mp rest
  obtain ⟨es, mixedEs, rest⟩ := bind_eq_some_iff.mp rest
  cases rest
  obtain ⟨eeHash, k1, eeKey⟩ := dhMix_ok mixedEe
  obtain ⟨isKey, keyedHash, -, isFirst⟩ := encrypt_sealed eeKey keyOut
  obtain ⟨esHash, k2, esKey⟩ := dhMix_ok mixedEs
  obtain ⟨isOut, outHash, outKey, isLater⟩ := encrypt_sealed esKey payloadOut
  have atE : ee.h = prim.hashOf (parts ++ [prim.publicKey hs.eSk]) := by
    rw [eeHash, ← hashOf_append, ← stands]
    rfl
  have atS : es.h = prim.hashOf (parts ++ [prim.publicKey hs.eSk, sealedKey]) := by
    rw [esHash, keyedHash, atE, hashOf_append, append_assoc, singleton_append]
  refine ⟨_, _, _, prim.length_publicKey _, ?_, append_assoc _ _ _, ?_, rfl, ?_, _, outKey⟩
  · rw [isKey, prim.gcm.length_encrypt, key, noiseSealedKeyLen]
  · have one : Logged prim first (seals ++ [(parts ++ [prim.publicKey hs.eSk], sealedKey)]) := by
      rw [isFirst]
      exact logged.append atE isKey
    rw [isLater]
    exact one.append atS isOut
  · rw [outHash, atS, hashOf_append, append_assoc]
    rfl

variable {cs : NoiseCipher Digest}

/-- `s, se`, and the payload sealed -/
theorem write_third (third : hs.step = 2) (stands : hs.sym.h = prim.hashOf parts) (logged : Logged prim log seals)
    (hasKey : hs.sym.cs = some cs) (key : hs.sPk.length = noiseDhLen)
    (written : hs.write prim payload cap log = some (after, msg, later)) :
    ∃ s p, s.length = noiseSealedKeyLen ∧ msg = s ++ p ∧
      Logged prim later (seals ++ [(parts, s)] ++ [(parts ++ [s], p)]) ∧
      after.sym.h = prim.hashOf (parts ++ [s, p]) := by
  obtain ⟨mid, tokens, middle, sym, out, tokensOut, payloadOut, rfl, rfl⟩ := write_ok written
  unfold writeTokens at tokensOut
  simp only [third] at tokensOut
  obtain ⟨⟨keyed, sealedKey, first⟩, keyOut, rest⟩ := bind_eq_some_iff.mp tokensOut
  obtain ⟨se, mixedSe, rest⟩ := bind_eq_some_iff.mp rest
  cases rest
  obtain ⟨isKey, keyedHash, -, isFirst⟩ := encrypt_sealed hasKey keyOut
  obtain ⟨seHash, k3, seKey⟩ := dhMix_ok mixedSe
  obtain ⟨isOut, outHash, -, isLater⟩ := encrypt_sealed seKey payloadOut
  have atS : se.h = prim.hashOf (parts ++ [sealedKey]) := by
    rw [seHash, keyedHash, stands, hashOf_append]
  refine ⟨_, _, ?_, rfl, ?_, ?_⟩
  · rw [isKey, prim.gcm.length_encrypt, key, noiseSealedKeyLen]
  · have one : Logged prim first (seals ++ [(parts, sealedKey)]) := by
      rw [isFirst]
      exact logged.append stands isKey
    rw [isLater]
    exact one.append atS isOut
  · rw [outHash, atS, hashOf_append, append_assoc]
    rfl

variable [DecidableEq Digest] [DecidableEq Hash]

theorem read_ok (read : hs.read prim msg cap log = some (after, payload)) :
    ∃ mid rest sym, hs.readTokens prim msg log = some (mid, rest) ∧
      mid.sym.decryptAndHash prim rest cap log = some (sym, payload) ∧
      after = { mid with sym, step := mid.step + 1 } := by
  unfold NoiseHs.read at read
  split at read
  · cases read
  obtain ⟨⟨mid, rest⟩, tokensIn, tail⟩ := bind_eq_some_iff.mp read
  obtain ⟨⟨sym, text⟩, payloadIn, tail⟩ := bind_eq_some_iff.mp tail
  cases tail
  exact ⟨mid, rest, sym, tokensIn, payloadIn, rfl⟩

theorem read_first (first : hs.step = 0) (noKey : hs.sym.cs = none) (stands : hs.sym.h = prim.hashOf parts)
    (read : hs.read prim msg cap log = some (after, payload)) :
    ∃ e p, msg = e ++ p ∧ after.step = 1 ∧ after.sym.h = prim.hashOf (parts ++ [e, p]) ∧ after.sPk = hs.sPk := by
  obtain ⟨mid, rest, sym, tokensIn, payloadIn, rfl⟩ := read_ok read
  unfold readTokens at tokensIn
  simp only [first] at tokensIn
  split at tokensIn
  · cases tokensIn
  cases tokensIn
  have stillNone : (hs.sym.mixHash prim (msg.take noiseDhLen)).cs = none := noKey
  obtain ⟨rfl, rfl⟩ := decrypt_plain stillNone payloadIn
  refine ⟨_, _, (take_append_drop noiseDhLen msg).symm, rfl, ?_, rfl⟩
  simp only [Symmetric.mixHash, stands, hashOf_append, append_assoc, singleton_append]

theorem read_second (ideal : prim.Ideal) (second : hs.step = 1) (stands : hs.sym.h = prim.hashOf parts)
    (logged : Logged prim log seals) (read : hs.read prim msg cap log = some (after, payload)) :
    ∃ e s p, e.length = noiseDhLen ∧ msg = e ++ (s ++ p) ∧ (parts ++ [e], s) ∈ seals ∧
      (parts ++ [e, s], p) ∈ seals ∧ after.step = 2 ∧
      after.sym.h = prim.hashOf (parts ++ [e, s, p]) ∧ (∃ cs, after.sym.cs = some cs) ∧
      after.sPk = hs.sPk := by
  obtain ⟨mid, rest, sym, tokensIn, payloadIn, rfl⟩ := read_ok read
  unfold readTokens at tokensIn
  simp only [second] at tokensIn
  split at tokensIn
  · cases tokensIn
  next long =>
  obtain ⟨ee, mixedEe, tail⟩ := bind_eq_some_iff.mp tokensIn
  obtain ⟨⟨keyed, rs⟩, keyIn, tail⟩ := bind_eq_some_iff.mp tail
  split at tail
  · cases tail
  obtain ⟨es, mixedEs, tail⟩ := bind_eq_some_iff.mp tail
  cases tail
  obtain ⟨eeHash, k1, eeKey⟩ := dhMix_ok mixedEe
  have atE : ee.h = prim.hashOf (parts ++ [msg.take noiseDhLen]) := by
    rw [eeHash, ← hashOf_append, ← stands]
    rfl
  obtain ⟨keyedHash, -, -⟩ := decrypt_sealed eeKey keyIn
  obtain ⟨esHash, k2, esKey⟩ := dhMix_ok mixedEs
  have atS : es.h = prim.hashOf (parts ++ [msg.take noiseDhLen, (msg.drop noiseDhLen).take noiseSealedKeyLen]) := by
    rw [esHash, keyedHash, atE, hashOf_append, append_assoc, singleton_append]
  obtain ⟨payloadHash, payloadKey, -⟩ := decrypt_sealed esKey payloadIn
  refine ⟨msg.take noiseDhLen, (msg.drop noiseDhLen).take noiseSealedKeyLen,
    (msg.drop noiseDhLen).drop noiseSealedKeyLen, ?_, ?_,
    mem_seals ideal logged eeKey atE keyIn,
    mem_seals ideal logged esKey atS payloadIn, rfl, ?_, ⟨_, payloadKey⟩, rfl⟩
  · rw [length_take]
    omega
  · rw [take_append_drop, take_append_drop]
  · rw [payloadHash, atS, hashOf_append, append_assoc]
    rfl

theorem read_third (ideal : prim.Ideal) (third : hs.step = 2) (stands : hs.sym.h = prim.hashOf parts)
    (logged : Logged prim log seals) (hasKey : hs.sym.cs = some cs)
    (read : hs.read prim msg cap log = some (after, payload)) :
    ∃ s p, msg = s ++ p ∧ (parts, s) ∈ seals ∧ (parts ++ [s], p) ∈ seals ∧
      after.sym.h = prim.hashOf (parts ++ [s, p]) := by
  obtain ⟨mid, rest, sym, tokensIn, payloadIn, rfl⟩ := read_ok read
  unfold readTokens at tokensIn
  simp only [third] at tokensIn
  split at tokensIn
  · cases tokensIn
  obtain ⟨⟨keyed, rs⟩, keyIn, tail⟩ := bind_eq_some_iff.mp tokensIn
  split at tail
  · cases tail
  obtain ⟨se, mixedSe, tail⟩ := bind_eq_some_iff.mp tail
  cases tail
  obtain ⟨keyedHash, -, -⟩ := decrypt_sealed hasKey keyIn
  obtain ⟨seHash, k3, seKey⟩ := dhMix_ok mixedSe
  have atS : se.h = prim.hashOf (parts ++ [msg.take noiseSealedKeyLen]) := by
    rw [seHash, keyedHash, stands, hashOf_append]
  obtain ⟨payloadHash, -, -⟩ := decrypt_sealed seKey payloadIn
  refine ⟨msg.take noiseSealedKeyLen, msg.drop noiseSealedKeyLen, ?_, mem_seals ideal logged hasKey stands keyIn,
    mem_seals ideal logged seKey atS payloadIn, ?_⟩
  · rw [take_append_drop]
  · rw [payloadHash, atS, hashOf_append, append_assoc]
    rfl

end NoiseHs

namespace NoiseParties

variable {p : NoiseParties Secret} {change : Fin 3 → List UInt8 → List UInt8}
  {initiator responder : NoiseHs Secret Digest Hash} {log later : NoiseLog Digest Hash}
  {msg payload : List UInt8}

theorem write1_spec (written : p.write1 prim = some (initiator, msg, log)) :
    ∃ e q, e.length = noiseDhLen ∧ msg = e ++ q ∧ log = [] ∧ initiator.step = 1 ∧
      initiator.sPk = prim.publicKey p.initiatorStatic ∧
      initiator.sym.h = prim.hashOf [p.initiatorPrologue, e, q] :=
  write_first rfl rfl (show _ = prim.hashOf [p.initiatorPrologue] from rfl) written

variable [DecidableEq Digest] [DecidableEq Hash]

theorem write2_spec (written : p.write2 prim change = some (responder, msg, later)) :
    ∃ initiator sent, p.write1 prim = some (initiator, sent, []) ∧
    ∃ e q, change 0 sent = e ++ q ∧
    ∃ e2 s2 p2, e2.length = noiseDhLen ∧ msg = e2 ++ (s2 ++ p2) ∧ responder.step = 2 ∧
      (∃ cs, responder.sym.cs = some cs) ∧
      responder.sym.h = prim.hashOf [p.responderPrologue, e, q, e2, s2, p2] ∧
      Logged prim later [([p.responderPrologue, e, q, e2], s2), ([p.responderPrologue, e, q, e2, s2], p2)] := by
  obtain ⟨⟨initiator, sent, log⟩, write1, rest⟩ := bind_eq_some_iff.mp written
  obtain ⟨⟨after, payload⟩, read1, write2⟩ := bind_eq_some_iff.mp rest
  obtain ⟨-, -, -, -, rfl, -⟩ := write1_spec write1
  unfold NoiseParties.read1 at read1
  rw [write1] at read1
  obtain ⟨e, q, isRead, step, stands, key⟩ := read_first rfl rfl
    (show _ = prim.hashOf [p.responderPrologue] from rfl) read1
  obtain ⟨e2, s2, p2, short, -, isMsg, logged, step2, stands2, hasKey⟩ := write_second step stands logged_nil
      (by rw [key]; exact prim.length_publicKey _) write2
  exact ⟨initiator, sent, write1, e, q, isRead, e2, s2, p2, short, isMsg, step2, hasKey, stands2, logged⟩

theorem read2_spec (ideal : prim.Ideal) (read : p.read2 prim change = some (initiator, payload)) :
    p.initiatorPrologue = p.responderPrologue ∧ (∀ msg, (p.write1 prim).map (·.2.1) = some msg → change 0 msg = msg) ∧
      ∃ responder msg later, p.write2 prim change = some (responder, msg, later) ∧
        change 1 msg = msg ∧ initiator.step = 2 ∧ initiator.sPk = prim.publicKey p.initiatorStatic ∧
        (∃ cs, initiator.sym.cs = some cs) ∧ responder.step = 2 ∧
        (∃ cs, responder.sym.cs = some cs) ∧
        ∃ parts seals, parts.length = 6 ∧ initiator.sym.h = prim.hashOf parts ∧
          responder.sym.h = prim.hashOf parts ∧ Logged prim later seals ∧
          ∀ pair ∈ seals, pair.1.length < 6 := by
  obtain ⟨⟨started, sent, log⟩, write1, rest⟩ := bind_eq_some_iff.mp read
  obtain ⟨⟨responder, msg, later⟩, write2, read2⟩ := bind_eq_some_iff.mp rest
  obtain ⟨e, q, short, isSent, -, step, key, stands⟩ := write1_spec write1
  obtain ⟨started', sent', write1', e', q', isRead, e2, s2, p2, -, isMsg, responderStep,
    responderKey, stands2, logged⟩ := write2_spec write2
  obtain ⟨rfl, rfl, rfl⟩ : started' = started ∧ sent' = sent ∧ [] = log := by
    simpa using write1'.symm.trans write1
  obtain ⟨e2', s2', p2', -, isRead2, sealedKey, sealedPayload, initiatorStep, initiatorStands,
    initiatorKey, sameKey⟩ := read_second ideal step stands logged read2
  -- the lengths of the transcripts tell the two seals apart
  have keyParts : p.initiatorPrologue = p.responderPrologue ∧ e = e' ∧ q = q' ∧ e2' = e2 ∧ s2' = s2 := by
    simpa [and_assoc] using sealedKey
  obtain ⟨samePrologue, rfl, rfl, rfl, rfl⟩ := keyParts
  have payloadPart : p2' = p2 := by
    simpa [samePrologue] using sealedPayload
  subst payloadPart
  refine ⟨samePrologue, ?_, responder, msg, later, write2, isRead2.trans isMsg.symm, initiatorStep,
    sameKey.trans key, initiatorKey, responderStep, responderKey, _, _, rfl, stands2 ▸ ?_, stands2,
    logged, by simp⟩
  · intro other isOther
    rw [write1] at isOther
    cases isOther
    rw [isRead, isSent]
  · rw [stands2, initiatorStands, samePrologue]
    rfl

theorem read3_spec (ideal : prim.Ideal) (read : p.read3 prim change = some (responder, payload)) :
    (∃ initiator payload, p.read2 prim change = some (initiator, payload)) ∧
      ∀ msg, (p.write3 prim change).map (·.2.1) = some msg → change 2 msg = msg := by
  obtain ⟨⟨waiting, msg2, log2⟩, write2, rest⟩ := bind_eq_some_iff.mp read
  obtain ⟨⟨initiator, msg, later⟩, write3, read3⟩ := bind_eq_some_iff.mp rest
  obtain ⟨⟨waiting', msg2', log2'⟩, again, tail⟩ := bind_eq_some_iff.mp write3
  obtain ⟨⟨reading, text⟩, read2, written⟩ := bind_eq_some_iff.mp tail
  cases write2.symm.trans again
  obtain ⟨-, -, responder', msg', later', write2', -, step, key, ⟨cs, hasKey⟩, waitingStep,
    ⟨waitingCs, waitingKey⟩, parts, seals, six, stands, waitingStands, logged, earlier⟩ :=
    read2_spec ideal read2
  obtain ⟨rfl, rfl, rfl⟩ : responder' = waiting ∧ msg' = msg2 ∧ later' = log2 := by
    simpa using write2'.symm.trans write2
  obtain ⟨s, q, -, isMsg, logged3, -⟩ := write_third step stands logged hasKey
    (by rw [key]; exact prim.length_publicKey _) written
  obtain ⟨s', q', isRead, sealedKey, sealedPayload, -⟩ :=
    read_third ideal waitingStep waitingStands logged3 waitingKey read3
  have keyPart : s' = s := by
    rcases mem_append.mp sealedKey with before | last
    · rcases mem_append.mp before with early | here
      · exact absurd (earlier _ early) (by simp [six])
      · simpa using here
    · simpa using congrArg List.length (congrArg Prod.fst (mem_singleton.mp last))
  have payloadPart : q' = q := by
    rcases mem_append.mp sealedPayload with before | last
    · rcases mem_append.mp before with early | here
      · exact absurd (earlier _ early) (by simp [six])
      · simpa using congrArg List.length (congrArg Prod.fst (mem_singleton.mp here))
    · exact congrArg Prod.snd (mem_singleton.mp last)
  refine ⟨⟨reading, text, read2⟩, fun other isOther => ?_⟩
  rw [write3] at isOther
  cases isOther
  rw [isRead, isMsg, keyPart, payloadPart]

end NoiseParties

namespace Symmetric

variable {s after : Symmetric Digest Hash} {log later : NoiseLog Digest Hash} {cap : Nat} {pt out : List UInt8}

theorem encrypt_plain_room (noKey : s.cs = none) (room : pt.length ≤ cap) :
    s.encryptAndHash prim pt cap log = some (s.mixHash prim pt, pt, log) := by
  unfold encryptAndHash
  simp only [noKey]
  rw [if_neg (not_lt.mpr room)]

theorem encrypt_sealed_room {cs : NoiseCipher Digest} (hasKey : s.cs = some cs) (early : cs.n < 2)
    (room : pt.length + noiseTagLen ≤ cap) :
    ∃ after out later, s.encryptAndHash prim pt cap log = some (after, out, later) ∧
      out.length = pt.length + noiseTagLen := by
  have notLast : cs.n ≠ UInt64.size - 1 := by
    have : 2 < UInt64.size - 1 := by decide
    omega
  unfold encryptAndHash
  simp only [hasKey]
  rw [if_neg (not_lt.mpr room), if_neg notLast]
  exact ⟨_, _, _, rfl, prim.gcm.length_encrypt cs.k cs.n s.h pt⟩

variable [DecidableEq Digest] [DecidableEq Hash]

theorem decrypt_of_encrypt {readCap : Nat} {full : NoiseLog Digest Hash}
    (written : s.encryptAndHash prim pt cap log = some (after, out, later)) (kept : ∀ entry ∈ later, entry ∈ full)
    (room : pt.length ≤ readCap) : s.decryptAndHash prim out readCap full = some (after, pt) := by
  cases hasKey : s.cs with
  | none =>
    obtain ⟨rfl, rfl, rfl⟩ := encrypt_plain hasKey written
    unfold decryptAndHash
    simp only [hasKey]
    rw [if_neg (not_lt.mpr room)]
  | some cs =>
    unfold encryptAndHash at written
    simp only [hasKey] at written
    split at written
    · cases written
    split at written
    · cases written
    next notLast =>
    cases written
    have opened := @IdealAead.decrypt_of_mem _ _ _ _ _ _ _ _ _ prim.gcm _ _ _ _ _
      (kept _ (mem_append_right log (mem_singleton_self _)))
    have long := prim.gcm.length_encrypt cs.k cs.n s.h pt
    unfold decryptAndHash
    simp only [hasKey]
    rw [if_neg (by omega), if_neg notLast, opened]
    rfl

end Symmetric

namespace NoiseHs

variable {initiator responder : NoiseHs Secret Digest Hash} {log : NoiseLog Digest Hash}
  {payload : List UInt8} {writeCap readCap : Nat} {sym : Symmetric Digest Hash}

variable [DecidableEq Digest] [DecidableEq Hash]

omit [DecidableEq Digest] [DecidableEq Hash] in
theorem write_of {hs mid : NoiseHs Secret Digest Hash} {tokens out : List UInt8} {middle later : NoiseLog Digest Hash}
    (turn : hs.myTurn = true) (tokensOut : hs.writeTokens prim writeCap log = some (mid, tokens, middle))
    (payloadOut : mid.sym.encryptAndHash prim payload (writeCap - tokens.length) middle = some (sym, out, later))
    (small : tokens.length + out.length ≤ noiseMaxMsg) :
    hs.write prim payload writeCap log = some ({ mid with sym, step := mid.step + 1 }, tokens ++ out, later) := by
  unfold write
  rw [turn, tokensOut]
  simp only [Bool.not_true, Bool.false_eq_true, if_false, bind_eq_bind, bind_some, payloadOut]
  rw [if_neg (by rw [length_append]; omega)]

theorem read_of {hs mid : NoiseHs Secret Digest Hash} {msg rest : List UInt8} (turn : hs.myTurn = false)
    (early : hs.step < 3) (small : msg.length ≤ noiseMaxMsg) (tokensIn : hs.readTokens prim msg log = some (mid, rest))
    (payloadIn : mid.sym.decryptAndHash prim rest readCap log = some (sym, payload)) :
    hs.read prim msg readCap log = some ({ mid with sym, step := mid.step + 1 }, payload) := by
  unfold read
  rw [turn, tokensIn, if_neg (by simp; omega)]
  simp only [bind_eq_bind, bind_some, payloadIn]

theorem exchange_first (isInitiator : initiator.initiator = true) (at0 : initiator.step = 0)
    (isResponder : responder.initiator = false) (at0' : responder.step = 0) (same : initiator.sym = sym)
    (same' : responder.sym = sym) (noKey : sym.cs = none) (room : noiseDhLen + payload.length ≤ writeCap)
    (small : noiseDhLen + payload.length ≤ noiseMaxMsg) (readRoom : payload.length ≤ readCap) :
    ∃ after msg, initiator.write prim payload writeCap log = some ({ initiator with
          ePk := prim.publicKey initiator.eSk, sym := after, step := 1 }, msg, log) ∧
      responder.read prim msg readCap log =
        some ({ responder with re := prim.publicKey initiator.eSk, sym := after, step := 1 }, payload) := by
  have short := prim.length_publicKey initiator.eSk
  have keyless : (sym.mixHash prim (prim.publicKey initiator.eSk)).cs = none := noKey
  have written := @encrypt_plain_room _ _ _ prim _ log
    (writeCap - (prim.publicKey initiator.eSk).length) payload keyless (by omega)
  have read := decrypt_of_encrypt written (fun _ member => member) readRoom
  have tokensOut : initiator.writeTokens prim writeCap log = some ({ initiator with
        ePk := prim.publicKey initiator.eSk
        sym := sym.mixHash prim (prim.publicKey initiator.eSk) },
        prim.publicKey initiator.eSk, log) := by
    unfold writeTokens
    simp only [at0, same]
    rw [if_neg (by omega)]
  have tokensIn : responder.readTokens prim (prim.publicKey initiator.eSk ++ payload) log = some ({ responder with
        re := prim.publicKey initiator.eSk
        sym := sym.mixHash prim (prim.publicKey initiator.eSk) }, payload) := by
    unfold readTokens
    simp only [at0', same']
    rw [if_neg (by rw [length_append]; omega), take_left' short, drop_left' short]
  have writes := write_of (by simp [myTurn, at0, isInitiator]) tokensOut written (by omega)
  have reads := read_of (by simp [myTurn, at0', isResponder]) (by omega) (by rw [length_append]; omega) tokensIn read
  simp only [at0] at writes
  simp only [at0'] at reads
  exact ⟨_, _, writes, reads⟩

theorem exchange_second (ideal : prim.Ideal) (isInitiator : initiator.initiator = true) (at1 : initiator.step = 1)
    (isResponder : responder.initiator = false) (at1' : responder.step = 1) (same : initiator.sym = sym)
    (same' : responder.sym = sym) (heard : responder.re = prim.publicKey initiator.eSk)
    (key : responder.sPk = prim.publicKey responder.sSk)
    (room : noiseDhLen + noiseSealedKeyLen + payload.length + noiseTagLen ≤ writeCap)
    (small : noiseDhLen + noiseSealedKeyLen + payload.length + noiseTagLen ≤ noiseMaxMsg)
    (readRoom : payload.length ≤ readCap) :
    ∃ after cs msg later, after.cs = some cs ∧ cs.n = 1 ∧ responder.write prim payload writeCap log =
        some ({ responder with
          ePk := prim.publicKey responder.eSk, sym := after, step := 2 }, msg, later) ∧
      initiator.read prim msg readCap later = some ({ initiator with
          re := prim.publicKey responder.eSk, rs := prim.publicKey responder.sSk, sym := after
          step := 2 }, payload) := by
  have short := prim.length_publicKey responder.eSk
  have shortKey := prim.length_publicKey responder.sSk
  obtain ⟨ee, eeResponder, eeInitiator⟩ := ideal.x25519_agree responder.eSk initiator.eSk
  obtain ⟨es, esResponder, esInitiator⟩ := ideal.x25519_agree responder.sSk initiator.eSk
  -- `e, ee`
  let mixedEe := (sym.mixHash prim (prim.publicKey responder.eSk)).mixKey prim ee
  obtain ⟨keyed, sealedKey, middle, keyOut, keyLength⟩ := @encrypt_sealed_room _ _ _ prim
    mixedEe log (writeCap - noiseDhLen) (prim.publicKey responder.sSk) _ rfl Nat.two_pos
    (by unfold noiseSealedKeyLen at room; omega)
  -- `s, es`
  let mixedEs := keyed.mixKey prim es
  obtain ⟨after, out, later, payloadOut, outLength⟩ := @encrypt_sealed_room _ _ _ prim
    mixedEs middle (writeCap - (prim.publicKey responder.eSk ++ sealedKey).length) payload _ rfl
    Nat.two_pos (by unfold noiseSealedKeyLen at room; rw [length_append]; omega)
  obtain ⟨-, -, hasKey, isLater⟩ := encrypt_sealed rfl payloadOut
  have keyIn := @decrypt_of_encrypt _ _ _ prim _ _ _ _ _ _ _ _ _ noiseSealedKeyLen later
    keyOut (fun entry member => by rw [isLater]; exact mem_append_left _ member)
    (by unfold noiseSealedKeyLen; omega)
  have payloadIn := decrypt_of_encrypt payloadOut (fun _ member => member) readRoom
  have sealedLength : sealedKey.length = noiseSealedKeyLen := by
    rw [keyLength, shortKey, noiseSealedKeyLen]
  have tokensOut : responder.writeTokens prim writeCap log = some
      ({ responder with ePk := prim.publicKey responder.eSk, sym := mixedEs },
        prim.publicKey responder.eSk ++ sealedKey, middle) := by
    unfold writeTokens
    simp only [at1', same', heard, key, dhMix, eeResponder, esResponder]
    rw [if_neg (by omega)]
    simp only [map_some, bind_eq_bind, bind_some]
    rw [keyOut]
    rfl
  have tokensIn : initiator.readTokens prim (prim.publicKey responder.eSk ++ sealedKey ++ out) later =
      some ({ initiator with
        re := prim.publicKey responder.eSk, rs := prim.publicKey responder.sSk, sym := mixedEs }, out) := by
    unfold readTokens
    simp only [at1, same, dhMix]
    rw [if_neg (by simp only [length_append]; omega), append_assoc, take_left' short,
      drop_left' short, take_left' sealedLength, drop_left' sealedLength, eeInitiator]
    simp only [map_some, bind_eq_bind, bind_some]
    rw [keyIn]
    simp only [bind_some, shortKey, ne_eq, not_true_eq_false, if_false, esInitiator, map_some]
    rfl
  have fits : (prim.publicKey responder.eSk ++ sealedKey).length + out.length ≤ noiseMaxMsg := by
    rw [length_append]
    omega
  have writes := write_of (by simp [myTurn, at1', isResponder]) tokensOut payloadOut fits
  have reads := read_of (by simp [myTurn, at1, isInitiator]) (by omega)
    (by rw [length_append]; exact fits) tokensIn payloadIn
  simp only [at1'] at writes
  simp only [at1] at reads
  exact ⟨after, _, _, later, hasKey, rfl, writes, reads⟩

theorem exchange_third (ideal : prim.Ideal) (isInitiator : initiator.initiator = true) (at2 : initiator.step = 2)
    (isResponder : responder.initiator = false) (at2' : responder.step = 2) (same : initiator.sym = sym)
    (same' : responder.sym = sym) {cs : NoiseCipher Digest} (hasKey : sym.cs = some cs) (early : cs.n < 2)
    (heard : initiator.re = prim.publicKey responder.eSk) (key : initiator.sPk = prim.publicKey initiator.sSk)
    (room : noiseSealedKeyLen + payload.length + noiseTagLen ≤ writeCap)
    (small : noiseSealedKeyLen + payload.length + noiseTagLen ≤ noiseMaxMsg) (readRoom : payload.length ≤ readCap) :
    ∃ after msg later, initiator.write prim payload writeCap log =
        some ({ initiator with sym := after, step := 3 }, msg, later) ∧
      responder.read prim msg readCap later =
        some ({ responder with rs := prim.publicKey initiator.sSk, sym := after, step := 3 }, payload) := by
  have shortKey := prim.length_publicKey initiator.sSk
  obtain ⟨se, seInitiator, seResponder⟩ := ideal.x25519_agree initiator.sSk responder.eSk
  obtain ⟨keyed, sealedKey, middle, keyOut, keyLength⟩ := @encrypt_sealed_room _ _ _ prim
    sym log writeCap (prim.publicKey initiator.sSk) _ hasKey early
    (by unfold noiseSealedKeyLen at room; omega)
  let mixedSe := keyed.mixKey prim se
  obtain ⟨after, out, later, payloadOut, outLength⟩ := @encrypt_sealed_room _ _ _ prim
    mixedSe middle (writeCap - sealedKey.length) payload _ rfl Nat.two_pos
    (by unfold noiseSealedKeyLen at room; omega)
  obtain ⟨-, -, -, isLater⟩ := encrypt_sealed rfl payloadOut
  have keyIn := @decrypt_of_encrypt _ _ _ prim _ _ _ _ _ _ _ _ _ noiseSealedKeyLen later
    keyOut (fun entry member => by rw [isLater]; exact mem_append_left _ member)
    (by unfold noiseSealedKeyLen; omega)
  have payloadIn := decrypt_of_encrypt payloadOut (fun _ member => member) readRoom
  have sealedLength : sealedKey.length = noiseSealedKeyLen := by
    rw [keyLength, shortKey, noiseSealedKeyLen]
  have tokensOut : initiator.writeTokens prim writeCap log =
      some ({ initiator with sym := mixedSe }, sealedKey, middle) := by
    unfold writeTokens
    simp only [at2, same, heard, key, dhMix, seInitiator]
    rw [keyOut]
    rfl
  have tokensIn : responder.readTokens prim (sealedKey ++ out) later =
      some ({ responder with rs := prim.publicKey initiator.sSk, sym := mixedSe }, out) := by
    unfold readTokens
    simp only [at2', same', dhMix]
    rw [if_neg (by simp only [length_append]; omega), take_left' sealedLength, drop_left' sealedLength, keyIn]
    simp only [bind_eq_bind, bind_some, shortKey, ne_eq, not_true_eq_false, if_false, seResponder, map_some]
    rfl
  have writes := write_of (by simp [myTurn, at2, isInitiator]) tokensOut payloadOut (by omega)
  have reads := read_of (by simp [myTurn, at2', isResponder]) (by omega)
    (by rw [length_append]; omega) tokensIn payloadIn
  simp only [at2] at writes
  simp only [at2'] at reads
  exact ⟨after, _, later, writes, reads⟩

end NoiseHs

variable [DecidableEq Digest] [DecidableEq Hash]

structure NoiseAgrees (prim : NoisePrimitives Secret Digest Hash) (p : NoiseParties Secret)
    (initiator responder : NoiseResult Secret Digest Hash) : Prop where
  rootKey : initiator.rk = responder.rk
  handshakeHash : initiator.hh = responder.hh
  toResponder : initiator.send.k = responder.recv.k
  toInitiator : responder.send.k = initiator.recv.k
  initiatorRemote : initiator.rs = prim.publicKey p.responderStatic
  responderRemote : responder.rs = prim.publicKey p.initiatorStatic
  ratchetKey : initiator.bobPk = prim.publicKey p.responderEphemeral
  ratchetSecret : responder.bobSk = some p.responderEphemeral

theorem honest_run (ideal : prim.Ideal) (p : NoiseParties Secret)
    (samePrologue : p.initiatorPrologue = p.responderPrologue) (fits : p.Fits) :
    (∀ i, (p.run prim fun _ => id).payload i = some (p.payload i)) ∧
      ∃ initiator responder, (p.run prim fun _ => id).initiator = some initiator ∧
        (p.run prim fun _ => id).responder = some responder ∧
        NoiseAgrees prim p initiator responder := by
  obtain ⟨room0, small0, readRoom0⟩ := fits 0
  obtain ⟨room1, small1, readRoom1⟩ := fits 1
  obtain ⟨room2, small2, readRoom2⟩ := fits 2
  let initiator0 := init prim true p.initiatorPrologue p.initiatorStatic p.initiatorEphemeral
  let responder0 := init prim false p.responderPrologue p.responderStatic p.responderEphemeral
  have sameStart : responder0.sym = initiator0.sym := by
    simp only [initiator0, responder0, init, samePrologue]
  obtain ⟨sym1, msg1, write1, read1⟩ := @exchange_first _ _ _ prim initiator0 responder0 []
    (p.payload 0) (p.writeCap 0) (p.readCap 0) initiator0.sym _ _ rfl rfl rfl rfl rfl sameStart rfl
    room0 small0 readRoom0
  let initiator1 := { initiator0 with ePk := prim.publicKey p.initiatorEphemeral, sym := sym1, step := 1 }
  let responder1 := { responder0 with re := prim.publicKey p.initiatorEphemeral, sym := sym1, step := 1 }
  obtain ⟨sym2, cs2, msg2, log2, hasKey, once, write2, read2⟩ := @exchange_second _ _ _ prim
    initiator1 responder1 [] (p.payload 1) (p.writeCap 1) (p.readCap 1) sym1 _ _ ideal rfl rfl rfl
    rfl rfl rfl rfl rfl room1 small1 readRoom1
  let initiator2 := { initiator1 with
      re := prim.publicKey p.responderEphemeral, rs := prim.publicKey p.responderStatic
      sym := sym2, step := 2 }
  let responder2 := { responder1 with ePk := prim.publicKey p.responderEphemeral, sym := sym2, step := 2 }
  obtain ⟨sym3, msg3, log3, write3, read3⟩ := @exchange_third _ _ _ prim
    initiator2 responder2 log2 (p.payload 2) (p.writeCap 2) (p.readCap 2) sym2 _ _ ideal rfl rfl rfl
    rfl rfl rfl cs2 hasKey (by omega) rfl rfl room2 small2 readRoom2
  have isWrite1 : p.write1 prim = some (initiator1, msg1, []) := write1
  have isRead1 : p.read1 prim (fun _ => id) = some (responder1, p.payload 0) := by
    simp only [NoiseParties.read1, isWrite1, bind_eq_bind, bind_some, id]
    exact read1
  have isWrite2 : p.write2 prim (fun _ => id) = some (responder2, msg2, log2) := by
    simp only [NoiseParties.write2, isWrite1, isRead1, bind_eq_bind, bind_some]
    exact write2
  have isRead2 : p.read2 prim (fun _ => id) = some (initiator2, p.payload 1) := by
    simp only [NoiseParties.read2, isWrite1, isWrite2, bind_eq_bind, bind_some, id]
    exact read2
  have isWrite3 : p.write3 prim (fun _ => id) = some ({ initiator2 with sym := sym3, step := 3 }, msg3, log3) := by
    simp only [NoiseParties.write3, isWrite2, isRead2, bind_eq_bind, bind_some]
    exact write3
  have isRead3 : p.read3 prim (fun _ => id) = some ({ responder2 with
      rs := prim.publicKey p.initiatorStatic, sym := sym3, step := 3 }, p.payload 2) := by
    simp only [NoiseParties.read3, isWrite2, isWrite3, bind_eq_bind, bind_some, id]
    exact read3
  refine ⟨fun i => ?_, ?_⟩
  · simp only [run, isRead1, isRead2, isRead3, map_some]
    fin_cases i <;> rfl
  · simp only [run, isWrite3, isRead3, bind_some]
    exact ⟨_, _, rfl, rfl, rfl, rfl, rfl, rfl, rfl, rfl, rfl, rfl⟩

/-- Keys of one byte, a hash that is its own transcript, and a tag of zeros. -/
def plainNoise : NoisePrimitives UInt8 (List UInt8) (List (List UInt8)) where
  publicKey secret := List.replicate 31 0 ++ [secret]
  length_publicKey secret := rfl
  x25519 secret key := key.getLast?.map fun theirs => [secret ^^^ theirs]
  hmac key data := key ++ data
  bytes := id
  hash h data := h ++ [data]
  nameHash := []
  nameKey := []
  gcm :=
    { encrypt := fun _ _ _ text => text ++ List.replicate noiseTagLen 0
      length_encrypt := fun _ _ _ text => by rw [length_append, length_replicate]
      encrypt_injective := fun _ _ _ _ _ same => append_cancel_right same }

theorem plainNoise_ideal : plainNoise.Ideal where
  x25519_agree mine theirs := by
    refine ⟨[mine ^^^ theirs], ?_, ?_⟩
    · simp [plainNoise]
    · simp [plainNoise, UInt8.xor_comm]
  hash_injective := by
    have transcript : ∀ parts : List (List UInt8),
        parts.foldl plainNoise.hash plainNoise.nameHash = parts := fun parts => by
      simp [plainNoise, ← flatMap_def]
    intro parts others same
    exact (transcript parts).symm.trans (same.trans (transcript others))

def plainParties : NoiseParties UInt8 where
  initiatorStatic := 1
  initiatorEphemeral := 2
  responderStatic := 3
  responderEphemeral := 4
  initiatorPrologue := [9]
  responderPrologue := [9]
  payload := ![[], [7], [8, 8]]
  writeCap _ := 128
  readCap _ := 64

end OpenChime.Crypto
