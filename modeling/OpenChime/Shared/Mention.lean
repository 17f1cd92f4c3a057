import OpenChime.Shared.Text

/-! What a message's text says to one reader: the mention and keyword scanners of
`shared/mention.c`, and the rule of `shared/notify.c` that asks them. -/

set_option autoImplicit false

namespace OpenChime.Shared

/-- A `char[size]` field holding a C string. -/
structure CharBuf (size : Nat) where
  chars : Text
  fits : chars.length < size
  deriving DecidableEq

def CharBuf.empty {size : Nat} (positive : 0 < size) : CharBuf size := ⟨[], positive⟩

/-- `snprintf(buf, sizeof buf, "%s", s)` -/
def CharBuf.print {size : Nat} (positive : 0 < size) (s : Text) : CharBuf size :=
  ⟨s.take (size - 1), by rw [List.length_take]; omega⟩

@[simp] theorem CharBuf.print_chars {size : Nat} (positive : 0 < size) (buf : CharBuf size) :
    CharBuf.print positive buf.chars = buf := by
  obtain ⟨chars, fits⟩ := buf
  simp only [print, CharBuf.mk.injEq]
  exact List.take_of_length_le (by omega)

/-- `ieq`, `name_eq` and `handle_eq`. -/
def ieq (a b : Text) : Bool := a.map lower = b.map lower

def nameByte (c : UInt8) : Bool :=
  isLower c || isUpper c || isDigit c || c = ascii '.' || c = ascii '_' || c = ascii '-'

inductive MentionKind where
  | user
  | here
  | channel
  | everyone
  deriving DecidableEq

structure Mention where
  (start len : Nat)
  kind : MentionKind
  name : Text
  deriving DecidableEq

def mentionNameMax : Nat := 64

def mentionMax : Nat := 32

def trailing (c : UInt8) : Bool := c = ascii '.' || c = ascii '-' || c = ascii '_'

/-- The name that starts the text, without the punctuation that ends the sentence. -/
def mentionName (rest : Text) : Text := ((rest.takeWhile nameByte).reverse.dropWhile trailing).reverse

def mentionKind (name : Text) : MentionKind :=
  if ieq name (text "here") then .here
  else if ieq name (text "channel") then .channel
  else if ieq name (text "everyone") then .everyone
  else .user

/-- The scan at offset `i`, behind `prev`, with `skip` bytes of the last name to pass. -/
def mentionScanFrom (skip : Nat) (prev : Option UInt8) (i : Nat) : Text → List Mention
  | [] => []
  | c :: rest =>
    match skip with
    | skip + 1 => mentionScanFrom skip (some c) (i + 1) rest
    | 0 =>
      if c ≠ ascii '@' ∨ prev.any nameByte then mentionScanFrom 0 (some c) (i + 1) rest
      else
        let name := mentionName rest
        let scanned := mentionScanFrom name.length (some c) (i + 1) rest
        if name.length = 0 ∨ name.length ≥ mentionNameMax then scanned
        else ⟨i, name.length + 1, mentionKind name, name⟩ :: scanned

/-- `oc_mention_scan`, every mention found; a caller keeps the first `max`. -/
def mentionScan (body : Text) : List Mention := mentionScanFrom 0 none 0 body

def kwWordish (c : UInt8) : Bool := isLower c || isUpper c || isDigit c || c = ascii '_'

def keywordMatchFrom (term : Text) (prev : Option UInt8) (i : Nat) : Text → Option (Nat × Nat)
  | [] => none
  | c :: rest =>
    if ¬ prev.any kwWordish ∧ ieq ((c :: rest).take term.length) term ∧
        ¬ (((c :: rest).drop term.length).head?.any kwWordish)
    then some (i, term.length)
    else keywordMatchFrom term (some c) (i + 1) rest

/-- `oc_keyword_match`: the span of the first hit. -/
def keywordMatch (body term : Text) : Option (Nat × Nat) :=
  if term = [] ∨ term.length > body.length then none else keywordMatchFrom term none 0 body

inductive NotifyLevel where
  | all
  | mentions
  /-- `OC_NOTIFY_NONE`, and anything unrecognised -/
  | none
  deriving DecidableEq

def notifyDecide (own muted vip : Bool) (level : NotifyLevel)
    (mentioned keywordHit threadReply quiet paused : Bool) : Bool :=
  if own then false
  else if muted then false
  else if vip then true
  else if quiet || paused then false
  else match level with
    | .all => true
    | .mentions => mentioned || keywordHit || threadReply
    | .none => false

end OpenChime.Shared
