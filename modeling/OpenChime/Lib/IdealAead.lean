import Mathlib.Logic.Function.Basic

/-! Authenticated encryption as an ideal functionality. A cipher is a function that
determines the plaintext from the ciphertext; the log holds what the honest parties
have sealed. A ciphertext opens under a key, nonce and associated data exactly when
it was sealed under them, so nothing else that arrives can open. -/

set_option autoImplicit false

namespace IdealAead

variable {tagLength : Nat} {Key Nonce Aad Byte : Type}

/-- A sealing function; the plaintext can be told from the ciphertext. -/
structure Cipher (tagLength : Nat) (Key Nonce Aad Byte : Type) where
  encrypt : Key → Nonce → Aad → List Byte → List Byte
  length_encrypt : ∀ key nonce aad text, (encrypt key nonce aad text).length = text.length + tagLength
  encrypt_injective : ∀ key nonce aad, Function.Injective (encrypt key nonce aad)

structure Entry (Key Nonce Aad Byte : Type) where
  key : Key
  nonce : Nonce
  aad : Aad
  text : List Byte

abbrev Log (Key Nonce Aad Byte : Type) := List (Entry Key Nonce Aad Byte)

def Entry.Opens (cipher : Cipher tagLength Key Nonce Aad Byte) (entry : Entry Key Nonce Aad Byte)
    (key : Key) (nonce : Nonce) (aad : Aad) (sealed : List Byte) : Prop :=
  entry.key = key ∧ entry.nonce = nonce ∧ entry.aad = aad ∧ cipher.encrypt key nonce aad entry.text = sealed

instance [DecidableEq Key] [DecidableEq Nonce] [DecidableEq Aad] [DecidableEq Byte]
    (cipher : Cipher tagLength Key Nonce Aad Byte) (entry : Entry Key Nonce Aad Byte) (key : Key)
    (nonce : Nonce) (aad : Aad) (sealed : List Byte) :
    Decidable (entry.Opens cipher key nonce aad sealed) :=
  inferInstanceAs (Decidable (_ ∧ _ ∧ _ ∧ _))

variable [DecidableEq Key] [DecidableEq Nonce] [DecidableEq Aad] [DecidableEq Byte]

/-- Opening: the text of the logged call this ciphertext comes from. -/
def decrypt (cipher : Cipher tagLength Key Nonce Aad Byte) (log : Log Key Nonce Aad Byte) (key : Key)
    (nonce : Nonce) (aad : Aad) (sealed : List Byte) : Option (List Byte) :=
  (log.find? fun entry => entry.Opens cipher key nonce aad sealed).map (·.text)

variable {cipher : Cipher tagLength Key Nonce Aad Byte} {log : Log Key Nonce Aad Byte}

theorem mem_of_decrypt {key : Key} {nonce : Nonce} {aad : Aad} {sealed text : List Byte}
    (opened : decrypt cipher log key nonce aad sealed = some text) :
    ⟨key, nonce, aad, text⟩ ∈ log ∧ cipher.encrypt key nonce aad text = sealed := by
  obtain ⟨entry, found, rfl⟩ := Option.map_eq_some_iff.mp opened
  have opens := List.find?_some found
  obtain ⟨rfl, rfl, rfl, sealedHere⟩ := of_decide_eq_true opens
  exact ⟨List.mem_of_find?_eq_some found, sealedHere⟩

theorem decrypt_of_mem {key : Key} {nonce : Nonce} {aad : Aad} {text : List Byte}
    (logged : ⟨key, nonce, aad, text⟩ ∈ log) :
    decrypt cipher log key nonce aad (cipher.encrypt key nonce aad text) = some text := by
  unfold decrypt
  cases found : log.find? fun entry =>
      entry.Opens cipher key nonce aad (cipher.encrypt key nonce aad text) with
  | none =>
    have refused := List.find?_eq_none.mp found _ logged
    exact absurd (decide_eq_true ⟨rfl, rfl, rfl, rfl⟩) refused
  | some entry =>
    have opens := List.find?_some found
    obtain ⟨-, -, -, same⟩ := of_decide_eq_true opens
    simp only [Option.map_some, cipher.encrypt_injective key nonce aad same]

end IdealAead
