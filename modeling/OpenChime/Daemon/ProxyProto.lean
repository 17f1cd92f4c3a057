import Mathlib.Data.List.GetD
import OpenChime.Shared.Text

/-! The PROXY protocol's v2 header, as `oc_proxy_v2_parse` reads it from the first bytes of a
connection (`daemon/proxyproto.c`). -/

set_option autoImplicit false

namespace OpenChime.Daemon.ProxyProto

open OpenChime.Shared List

def signature : List UInt8 := [0x0D, 0x0A, 0x0D, 0x0A, 0x00, 0x0D, 0x0A, 0x51, 0x55, 0x49, 0x54, 0x0A]

def mapped : List UInt8 := replicate 10 0 ++ [0xff, 0xff]

def proxyV2Max : Nat := 552

-- `inet_ntop` for either family, `none` where it fails
variable (ntop4 ntop6 : List UInt8 → Option Text)

/-- The client's address as text, from what follows the preamble; `none` where it is refused. -/
def source (fam : UInt8) (body : Nat) (addresses : List UInt8) : Option Text :=
  if fam = 0x11 then
    if body < 12 then none else ntop4 (addresses.take 4)
  else if fam = 0x21 then
    if body < 36 then none
    else if addresses.take 12 = mapped then ntop4 ((addresses.drop 12).take 4)
    else ntop6 (addresses.take 16)
  else none

/-- `oc_proxy_v2_parse`: what it returns, and the text it leaves in `src`. -/
def parseV2 (buf : List UInt8) : Int × Text :=
  let cmp := min buf.length 12
  if buf.take cmp ≠ signature.take cmp then (-1, [])
  else if buf.length < 16 then (0, [])
  else
    let ver := buf.getD 12 0 >>> 4
    let cmd := buf.getD 12 0 &&& 0x0F
    let body := (buf.getD 14 0).toNat * 256 + (buf.getD 15 0).toNat
    if ver ≠ 2 ∨ (cmd ≠ 0 ∧ cmd ≠ 1) then (-1, [])
    else if proxyV2Max < 16 + body then (-1, [])
    else if buf.length < 16 + body then (0, [])
    else if cmd = 0 then (16 + body, [])
    else
      match source ntop4 ntop6 (buf.getD 13 0) body (buf.drop 16) with
      | none => (-1, [])
      | some src => (16 + body, src)

theorem source_append {fam : UInt8} {body : Nat} {addresses : List UInt8} (whole : body ≤ addresses.length)
    (more : List UInt8) : source ntop4 ntop6 fam body (addresses ++ more) = source ntop4 ntop6 fam body addresses := by
  unfold source
  by_cases four : body < 12
  · have six : body < 36 := by omega
    simp only [four, six, if_true]
  by_cases six : body < 36
  · rw [take_append_of_le_length (by omega : 4 ≤ addresses.length)]
    simp only [six, if_true]
  rw [take_append_of_le_length (by omega : 4 ≤ addresses.length),
    take_append_of_le_length (by omega : 12 ≤ addresses.length),
    take_append_of_le_length (by omega : 16 ≤ addresses.length),
    drop_append_of_le_length (by omega : 12 ≤ addresses.length),
    take_append_of_le_length (by rw [length_drop]; omega : 4 ≤ (addresses.drop 12).length)]

theorem parseV2_le_length (buf : List UInt8) : (parseV2 ntop4 ntop6 buf).1 ≤ buf.length := by
  fun_cases parseV2 <;> omega

/-- Bytes that are not the start of the signature never become one. -/
theorem take_ne_append {buf : List UInt8} (other : buf.take (min buf.length 12) ≠ signature.take (min buf.length 12))
    (more : List UInt8) :
    (buf ++ more).take (min (buf ++ more).length 12) ≠ signature.take (min (buf ++ more).length 12) := by
  intro same
  have shorter := congrArg (List.take (min buf.length 12)) same
  rw [take_take, take_take, length_append, min_eq_left (by omega), take_append_of_le_length (by omega)] at shorter
  exact other shorter

/-- What is decided does not change with more bytes. -/
theorem parseV2_append {buf : List UInt8} (decided : (parseV2 ntop4 ntop6 buf).1 ≠ 0) (more : List UInt8) :
    parseV2 ntop4 ntop6 (buf ++ more) = parseV2 ntop4 ntop6 buf := by
  by_cases other : buf.take (min buf.length 12) ≠ signature.take (min buf.length 12)
  · unfold parseV2
    rw [if_pos other, if_pos (take_ne_append other more)]
  by_cases short : buf.length < 16
  · unfold parseV2 at decided
    rw [if_neg other, if_pos short] at decided
    exact absurd rfl decided
  have same (i : Nat) (first : i < 16) : (buf ++ more).getD i 0 = buf.getD i 0 := getD_append buf more 0 i (by omega)
  have longer : (buf ++ more).length = buf.length + more.length := length_append
  unfold parseV2 at decided ⊢
  rw [if_neg other, if_neg short] at decided ⊢
  rw [if_neg (by rwa [longer, min_eq_right (by omega), take_append_of_le_length (by omega),
    ← min_eq_right (by omega : 12 ≤ buf.length)]), if_neg (by omega)]
  simp only [same _ (by omega : 12 < 16), same _ (by omega : 13 < 16), same _ (by omega : 14 < 16),
    same _ (by omega : 15 < 16), drop_append_of_le_length (by omega : 16 ≤ buf.length)] at decided ⊢
  split_ifs at decided with version large waits
  · simp only [if_pos version]
  · simp only [if_neg version, if_pos large]
  · exact absurd rfl decided
  all_goals
    simp only [if_neg version, if_neg large, if_neg waits]
    rw [if_neg (by omega), source_append _ _ (by rw [length_drop]; omega)]

/-- The header is read alike however it arrives. -/
theorem parseV2_arrives_in_pieces (s : List UInt8) :
    (∀ more, (parseV2 ntop4 ntop6 s).1 = -1 ∨ 0 < (parseV2 ntop4 ntop6 s).1 →
      parseV2 ntop4 ntop6 (s ++ more) = parseV2 ntop4 ntop6 s) ∧
    (parseV2 ntop4 ntop6 s).1 ≤ s.length ∧
    (0 < (parseV2 ntop4 ntop6 s).1 → ∀ start, start <+: s → start.length < (parseV2 ntop4 ntop6 s).1 →
      (parseV2 ntop4 ntop6 start).1 = 0) := by
  refine ⟨fun more decided => parseV2_append ntop4 ntop6 (by omega) more, parseV2_le_length ntop4 ntop6 s, ?_⟩
  rintro - start ⟨more, rfl⟩ shorter
  by_contra decided
  rw [parseV2_append ntop4 ntop6 decided] at shorter
  exact absurd (parseV2_le_length ntop4 ntop6 start) (by omega)

end OpenChime.Daemon.ProxyProto
