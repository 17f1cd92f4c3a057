import OpenChime.Crypto.Ratchet

/-! Two ratchets and the network between them. Both sides seal whenever they can; the
network hands either side any header and ciphertext at any time: a message the other
side sent, now or later, once, often or never, or anything else. -/

set_option autoImplicit false

namespace OpenChime.Crypto

inductive Party where
  | alice
  | bob
  deriving DecidableEq

namespace Party

def other : Party → Party
  | alice => bob
  | bob => alice

@[simp] theorem other_other (p : Party) : p.other.other = p := by cases p <;> rfl

@[simp] theorem other_ne (p : Party) : p.other ≠ p := by cases p <;> decide

def pick {α : Type} (atAlice atBob : α) : Party → α
  | alice => atAlice
  | bob => atBob

@[simp] theorem pick_alice {α : Type} (atAlice atBob : α) : pick atAlice atBob alice = atAlice := rfl

@[simp] theorem pick_bob {α : Type} (atAlice atBob : α) : pick atAlice atBob bob = atBob := rfl

@[simp] theorem other_alice : alice.other = bob := rfl

@[simp] theorem other_bob : bob.other = alice := rfl

theorem eq_or_eq_other (p q : Party) : p = q ∨ p = q.other := by
  cases p <;> cases q <;> decide

end Party

structure Sent (Key : Type) where
  header : Header Key
  ct : List UInt8
  pt : List UInt8
  deriving DecidableEq

structure World (Key Nonce : Type) where
  ratchet : Party → Ratchet Key
  log : Ratchet.Log Key Nonce
  /-- What each side has sent, in its order. -/
  sent : Party → List (Sent Key)
  /-- The other side's messages that have been delivered to each side. -/
  delivered : Party → List (Sent Key)
  /-- The public keys of all key pairs drawn. -/
  drawn : List Key

namespace World

variable {Key Nonce : Type}

/-- After the handshake: the root key, the handshake hash and Bob's key pair are agreed. -/
def start (prim : Primitives Key Nonce) (rk ad bobSk aliceSk : Key) : Option (World Key Nonce) := do
  let alice ← Ratchet.initAlice prim rk (prim.publicKey bobSk) ad aliceSk
  let bob := Ratchet.initBob rk bobSk (prim.publicKey bobSk) ad
  some
    { ratchet := Party.pick alice bob
      log := [], sent := fun _ => [], delivered := fun _ => []
      drawn := [prim.publicKey aliceSk, prim.publicKey bobSk] }

def send (prim : Primitives Key Nonce) (w : World Key Nonce) (p : Party) (pt : List UInt8) :
    Option (World Key Nonce) := do
  let (r, header, ct, log) ← (w.ratchet p).encrypt prim w.log pt
  some { w with
      ratchet := Function.update w.ratchet p r, log
      sent := Function.update w.sent p (w.sent p ++ [⟨header, ct, pt⟩]) }

variable [DecidableEq Key]

/-- The messages of the other side that a header and ciphertext are. -/
def genuine (w : World Key Nonce) (p : Party) (header : Header Key) (ct : List UInt8) : List (Sent Key) :=
  (w.sent p.other).filter fun m => m.header = header ∧ m.ct = ct

/-- The messages the other side sent before this one that have not been delivered: while
this one is opened, a key has to be kept for each of them. -/
def overtaken (w : World Key Nonce) (p : Party) (m : Sent Key) : List (Sent Key) :=
  ((w.sent p.other).takeWhile (· ≠ m)).filter (· ∉ w.delivered p)

variable [DecidableEq Nonce]

def deliver (prim : Primitives Key Nonce) (w : World Key Nonce) (p : Party) (fresh : Key)
    (header : Header Key) (ct : List UInt8) : World Key Nonce :=
  { w with
    ratchet := Function.update w.ratchet p ((w.ratchet p).decrypt prim w.log fresh header ct).1
    delivered := Function.update w.delivered p (w.genuine p header ct ++ w.delivered p)
    drawn := prim.publicKey fresh :: w.drawn }

inductive Step (prim : Primitives Key Nonce) : World Key Nonce → World Key Nonce → Prop where
  | send {w after : World Key Nonce} (p : Party) (pt : List UInt8)
      (done : w.send prim p pt = some after) : Step prim w after
  | deliver {w : World Key Nonce} (p : Party) (fresh : Key) (header : Header Key)
      (ct : List UInt8) (unused : prim.publicKey fresh ∉ w.drawn)
      (room : ∀ m ∈ w.genuine p header ct, m ∉ w.delivered p → (w.overtaken p m).length ≤ maxSkip) :
      Step prim w (w.deliver prim p fresh header ct)

/-- The worlds of every run in which key pairs are distinct and no first delivery needs
more than `maxSkip` kept keys. -/
inductive Reachable (prim : Primitives Key Nonce) : World Key Nonce → Prop where
  | start {w : World Key Nonce} (rk ad bobSk aliceSk : Key) (distinct : prim.publicKey aliceSk ≠ prim.publicKey bobSk)
      (started : start prim rk ad bobSk aliceSk = some w) : Reachable prim w
  | step {w after : World Key Nonce} (before : Reachable prim w) (taken : Step prim w after) : Reachable prim after

end World

end OpenChime.Crypto
