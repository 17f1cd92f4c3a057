import Mathlib.Tactic.Positivity.Basic
import OpenChime.Lib.BigEndian

/-! The header of call packets (`shared/e2e_sframe.c`): a config byte with the key id in its
high half and the counter in its low half, values below 8 in place and longer ones in the
fewest bytes that hold them. -/

set_option autoImplicit false

namespace OpenChime.Crypto.SframeHeader

open List BigEndian

/-- The loop of `min_bytes`, with the rounds it has left before eight bytes. -/
def minBytesFrom : Nat → Nat → UInt64 → Nat
  | 0, n, _ => n
  | rounds + 1, n, v => if v.toNat >>> (8 * n) ≠ 0 then minBytesFrom rounds (n + 1) v else n

def minBytes (v : UInt64) : Nat := minBytesFrom 7 1 v

def headerEncode (kid ctr : UInt64) : List UInt8 :=
  let kidCfg : UInt8 :=
    if kid < 8 then UInt8.ofNat (kid.toNat <<< 4) else UInt8.ofNat (0x80 ||| (minBytes kid - 1) <<< 4)
  let kidExt := if kid < 8 then [] else encode (minBytes kid) kid.toNat
  let ctrCfg : UInt8 := if ctr < 8 then ctr.toUInt8 else UInt8.ofNat (0x08 ||| (minBytes ctr - 1))
  let ctrExt := if ctr < 8 then [] else encode (minBytes ctr) ctr.toNat
  (kidCfg ||| ctrCfg) :: (kidExt ++ ctrExt)

/-- The loop of `read_ext` over the field's bytes. -/
def joinBytes (bytes : List UInt8) : UInt64 := bytes.foldl (fun (x : UInt64) byte => x <<< 8 ||| byte.toUInt64) 0

/-- `read_ext`: the field's value and the offset behind it. -/
def readExt (input : List UInt8) (off l : Nat) : Option (UInt64 × Nat) :=
  if input.length - off < l then none
  else
    let x := joinBytes ((input.drop off).take l)
    if x < 8 ∨ minBytes x ≠ l then none else some (x, off + l)

/-- `oc_sframe_header_decode`: the key id, the counter and the header's length. -/
def headerDecode (input : List UInt8) : Option (UInt64 × UInt64 × Nat) :=
  match input with
  | [] => none
  | cfg :: _ => do
      let (kid, off) ← (if cfg &&& 0x80 ≠ 0 then readExt input 1 ((cfg >>> 4 &&& 7).toNat + 1)
        else some ((cfg >>> 4 &&& 7).toUInt64, 1))
      let (ctr, off) ← (if cfg &&& 0x08 ≠ 0 then readExt input off ((cfg &&& 7).toNat + 1)
        else some ((cfg &&& 7).toUInt64, off))
      return (kid, ctr, off)

private theorem minBytesFrom_spec (rounds n : Nat) (v : UInt64) (fits : v.toNat < 256 ^ (n + rounds))
    (needed : n = 1 ∨ 256 ^ (n - 1) ≤ v.toNat) :
    n ≤ minBytesFrom rounds n v ∧ minBytesFrom rounds n v ≤ n + rounds ∧ v.toNat < 256 ^ minBytesFrom rounds n v ∧
      (minBytesFrom rounds n v = 1 ∨ 256 ^ (minBytesFrom rounds n v - 1) ≤ v.toNat) := by
  induction rounds generalizing n with
  | zero => exact ⟨le_refl n, le_refl n, fits, needed⟩
  | succ rounds ih =>
    have power : 2 ^ (8 * n) = 256 ^ n := by rw [Nat.pow_mul]
    by_cases more : v.toNat >>> (8 * n) ≠ 0
    · have least : 256 ^ n ≤ v.toNat := by
        rw [Nat.shiftRight_eq_div_pow, power] at more
        by_contra small
        exact more (Nat.div_eq_of_lt (by omega))
      have next := ih (n + 1) (by rwa [Nat.add_assoc, Nat.add_comm 1]) (.inr least)
      rw [minBytesFrom, if_pos more]
      exact ⟨by omega, by omega, next.2.2⟩
    · have small : v.toNat < 256 ^ n := by
        rw [Nat.shiftRight_eq_div_pow, power] at more
        by_contra large
        exact more (Nat.div_pos (by omega) (by positivity)).ne'
      rw [minBytesFrom, if_neg more]
      exact ⟨le_refl n, by omega, small, needed⟩

theorem minBytes_spec (v : UInt64) : 1 ≤ minBytes v ∧ minBytes v ≤ 8 ∧ v.toNat < 256 ^ minBytes v ∧
      (minBytes v = 1 ∨ 256 ^ (minBytes v - 1) ≤ v.toNat) :=
  minBytesFrom_spec 7 1 v v.toNat_lt (.inl rfl)

/-- A field's half of the config byte: the value itself, or a mark and one less than its
length. -/
def half (v : UInt64) : Nat :=
  if v < 8 then v.toNat else 8 + (minBytes v - 1)

def extension (v : UInt64) : List UInt8 :=
  if v < 8 then [] else encode (minBytes v) v.toNat

/-- How the decoder reads a field from its half and from what is behind `off`. -/
def readField (input : List UInt8) (off half : Nat) : Option (UInt64 × Nat) :=
  if 8 ≤ half then readExt input off (half - 8 + 1) else some (UInt64.ofNat half, off)

theorem half_lt (v : UInt64) : half v < 16 := by
  have spec := minBytes_spec v
  unfold half
  split
  · next small =>
    have bound : v.toNat < 8 := small
    omega
  · omega

theorem extension_length (v : UInt64) : (extension v).length ≤ 8 := by
  have spec := minBytes_spec v
  unfold extension
  split
  · simp
  · simpa using spec.2.1

private theorem shifted_in (x : UInt64) (byte : UInt8) (room : x.toNat * 256 + byte.toNat < 2 ^ 64) :
    (x <<< 8 ||| byte.toUInt64).toNat = x.toNat * 256 + byte.toNat := by
  have low : byte.toNat < 2 ^ 8 := byte.toNat_lt
  have joined := Nat.two_pow_add_eq_or_of_lt low x.toNat
  have kept : (x <<< 8).toNat = 2 ^ 8 * x.toNat := by
    have shift : (x <<< 8).toNat = x.toNat <<< 8 % 2 ^ 64 := UInt64.toNat_shiftLeft x 8
    omega
  rw [UInt64.toNat_or, kept, UInt8.toNat_toUInt64, ← joined]
  omega

theorem toNat_joinBytes (bytes : List UInt8) (short : bytes.length ≤ 8) : (joinBytes bytes).toNat = decode bytes := by
  induction bytes using List.reverseRecOn with
  | nil => rfl
  | append_singleton bytes last ih =>
    rw [length_append, length_singleton] at short
    have bound := decode_lt (bytes ++ [last])
    have within : 256 ^ (bytes ++ [last]).length ≤ 256 ^ 8 :=
      Nat.pow_le_pow_right (by omega) (by rwa [length_append, length_singleton])
    rw [decode_append_singleton] at bound
    have whole : joinBytes (bytes ++ [last]) = joinBytes bytes <<< 8 ||| last.toUInt64 := by
      simp [joinBytes]
    have start := ih (by omega)
    have room : (joinBytes bytes).toNat * 256 + last.toNat < 256 ^ 8 := by
      rw [start]
      exact bound.trans_le within
    rw [whole, shifted_in _ _ room, decode_append_singleton, start]

theorem readField_extension (before rest : List UInt8) (v : UInt64) :
    readField (before ++ (extension v ++ rest)) before.length (half v) =
      some (v, before.length + (extension v).length) := by
  obtain ⟨positive, atMost, fits, -⟩ := minBytes_spec v
  by_cases small : v < 8
  · have bound : v.toNat < 8 := small
    have inPlace : ¬ 8 ≤ half v := by
      rw [half, if_pos small]
      omega
    rw [readField, if_neg inPlace, half, extension, if_pos small, if_pos small, UInt64.ofNat_toNat]
    rfl
  have marked : half v = 8 + (minBytes v - 1) := if_neg small
  have written : extension v = encode (minBytes v) v.toNat := if_neg small
  have count : half v - 8 + 1 = minBytes v := by omega
  have read : ((before ++ (extension v ++ rest)).drop before.length).take (minBytes v) = extension v := by
    rw [drop_left, take_left' (by rw [written, length_encode])]
  have value : joinBytes (extension v) = v := by
    apply UInt64.toNat_inj.mp
    rw [toNat_joinBytes _ (extension_length v), written, decode_encode_of_lt fits]
  have size : (extension v).length = minBytes v := by rw [written, length_encode]
  have enough : ¬ (before ++ (extension v ++ rest)).length - before.length < minBytes v := by
    simp only [length_append]
    omega
  rw [readField, if_pos (by omega), count, readExt, if_neg enough]
  simp only [read, value, size]
  simpa using small

theorem of_readField {input : List UInt8} {off halfRead after : Nat} {v : UInt64} (inside : off ≤ input.length)
    (nibble : halfRead < 16) (accepted : readField input off halfRead = some (v, after)) :
    halfRead = half v ∧ after = off + (extension v).length ∧ after ≤ input.length ∧
      (input.drop off).take (extension v).length = extension v := by
  by_cases marked : 8 ≤ halfRead
  · rw [readField, if_pos marked, readExt] at accepted
    split at accepted
    · cases accepted
    next enough =>
    set bytes := (input.drop off).take (halfRead - 8 + 1) with read
    have size : bytes.length = halfRead - 8 + 1 := by
      rw [length_take, length_drop]
      omega
    dsimp only at accepted
    split at accepted
    · cases accepted
    next minimal =>
    obtain ⟨large, exact_⟩ := not_or.mp minimal
    have value := Prod.mk.inj (Option.some.inj accepted)
    rw [value.1] at large exact_
    have decoded : v.toNat = decode bytes := by
      rw [← value.1, toNat_joinBytes bytes (by omega)]
    have count : minBytes v = bytes.length := by
      rw [size]
      exact not_not.mp exact_
    have written : extension v = bytes := by
      rw [extension, if_neg large, count, decoded, encode_decode]
    refine ⟨?_, ?_, ?_, ?_⟩
    · rw [half, if_neg large]
      omega
    · rw [written]
      omega
    · omega
    · rw [written, size]
  · rw [readField, if_neg marked] at accepted
    obtain ⟨value, stays⟩ := Prod.mk.inj (Option.some.inj accepted)
    have number : v.toNat = halfRead := by
      rw [← value, UInt64.toNat_ofNat']
      omega
    have small : v < 8 := by
      show v.toNat < 8
      omega
    rw [half, extension, if_pos small, if_pos small]
    exact ⟨number.symm, stays.symm, by omega, rfl⟩

private theorem halves_joined : ∀ kidHalf ctrHalf : Fin 16,
    UInt8.ofNat (kidHalf.val <<< 4) ||| UInt8.ofNat ctrHalf.val = UInt8.ofNat (16 * kidHalf.val + ctrHalf.val) := by
  decide

theorem headerEncode_eq (kid ctr : UInt64) : headerEncode kid ctr =
      UInt8.ofNat (16 * half kid + half ctr) :: (extension kid ++ extension ctr) := by
  have marks : ∀ n < 8, 0x80 ||| n <<< 4 = (8 + n) <<< 4 ∧ 0x08 ||| n = 8 + n := by decide
  have kidSpec := minBytes_spec kid
  have ctrSpec := minBytes_spec ctr
  have kidCfg : (if kid < 8 then UInt8.ofNat (kid.toNat <<< 4)
      else UInt8.ofNat (0x80 ||| (minBytes kid - 1) <<< 4)) = UInt8.ofNat (half kid <<< 4) := by
    unfold half
    split
    · rfl
    · rw [(marks _ (by omega)).1]
  have ctrCfg : (if ctr < 8 then ctr.toUInt8 else UInt8.ofNat (0x08 ||| (minBytes ctr - 1))) =
      UInt8.ofNat (half ctr) := by
    unfold half
    split
    · rfl
    · rw [(marks _ (by omega)).2]
  have joined := halves_joined ⟨half kid, half_lt kid⟩ ⟨half ctr, half_lt ctr⟩
  rw [headerEncode, kidCfg, ctrCfg, joined]
  rfl

private theorem config_read : ∀ cfg : Fin 256, (UInt8.ofNat cfg.val &&& 0x80 ≠ 0 ↔ 8 ≤ cfg.val / 16) ∧
      (UInt8.ofNat cfg.val >>> 4 &&& 7).toNat = cfg.val / 16 % 8 ∧
      (UInt8.ofNat cfg.val &&& 0x08 ≠ 0 ↔ 8 ≤ cfg.val % 16) ∧
      (UInt8.ofNat cfg.val &&& 7).toNat = cfg.val % 16 % 8 := by
  decide +kernel

theorem headerDecode_cons (cfg : UInt8) (rest : List UInt8) :
    headerDecode (cfg :: rest) = (readField (cfg :: rest) 1 (cfg.toNat / 16)).bind fun kid =>
        (readField (cfg :: rest) kid.2 (cfg.toNat % 16)).map fun ctr => (kid.1, ctr.1, ctr.2) := by
  have bound := cfg.toNat_lt
  obtain ⟨kidMark, kidBits, ctrMark, ctrBits⟩ := config_read ⟨cfg.toNat, bound⟩
  rw [UInt8.ofNat_toNat] at kidMark kidBits ctrMark ctrBits
  have field (off nibble : Nat) (bits : UInt8) (marked : Prop) [Decidable marked]
      (mark : marked ↔ 8 ≤ nibble) (read : bits.toNat = nibble % 8) (small : nibble < 16) :
      (if marked then readExt (cfg :: rest) off (bits.toNat + 1) else some (bits.toUInt64, off)) =
        readField (cfg :: rest) off nibble := by
    by_cases long : 8 ≤ nibble
    · rw [readField, if_pos (mark.mpr long), if_pos long, read]
      congr 2
      omega
    have value : bits.toUInt64 = UInt64.ofNat nibble := by
      apply UInt64.toNat_inj.mp
      rw [UInt8.toNat_toUInt64, read, UInt64.toNat_ofNat']
      omega
    rw [readField, if_neg (fun held => long (mark.mp held)), if_neg long, value]
  have kidField (off : Nat) := field off _ _ _ kidMark kidBits (by omega)
  have ctrField (off : Nat) := field off _ _ _ ctrMark ctrBits (by omega)
  rw [headerDecode]
  simp only [kidField, ctrField]
  congr 1
  funext kid
  cases readField (cfg :: rest) kid.2 (cfg.toNat % 16) <;> rfl

theorem headerEncode_length (kid ctr : UInt64) :
    (headerEncode kid ctr).length = 1 + (extension kid).length + (extension ctr).length := by
  rw [headerEncode_eq, length_cons, length_append]
  omega

theorem headerDecode_headerEncode (kid ctr : UInt64) (rest : List UInt8) :
    headerDecode (headerEncode kid ctr ++ rest) = some (kid, ctr, (headerEncode kid ctr).length) := by
  have kidBound := half_lt kid
  have ctrBound := half_lt ctr
  rw [headerEncode_length, headerEncode_eq, cons_append, headerDecode_cons]
  set cfg := UInt8.ofNat (16 * half kid + half ctr) with config
  have byte : cfg.toNat = 16 * half kid + half ctr := by
    rw [UInt8.toNat_ofNat']
    omega
  have kidHalf : cfg.toNat / 16 = half kid := by omega
  have ctrHalf : cfg.toNat % 16 = half ctr := by omega
  have kidRead : readField ([cfg] ++ (extension kid ++ (extension ctr ++ rest))) 1 (half kid) =
      some (kid, 1 + (extension kid).length) :=
    readField_extension [cfg] (extension ctr ++ rest) kid
  have ctrRead := readField_extension (cfg :: extension kid) rest ctr
  have regrouped : cfg :: (extension kid ++ extension ctr ++ rest) =
      [cfg] ++ (extension kid ++ (extension ctr ++ rest)) := by simp
  have position : (cfg :: extension kid).length = 1 + (extension kid).length := by
    rw [length_cons, Nat.add_comm]
  rw [position] at ctrRead
  rw [kidHalf, ctrHalf, regrouped, kidRead]
  exact congrArg (Option.map fun read : UInt64 × Nat => (kid, read.1, read.2)) ctrRead

theorem of_headerDecode {input : List UInt8} {kid ctr : UInt64} {n : Nat}
    (accepted : headerDecode input = some (kid, ctr, n)) :
    n = (headerEncode kid ctr).length ∧ input.take n = headerEncode kid ctr := by
  cases input with
  | nil => cases accepted
  | cons cfg rest =>
    have bound := cfg.toNat_lt
    rw [headerDecode_cons] at accepted
    obtain ⟨⟨kidRead, off⟩, kidAccepted, remaining⟩ := Option.bind_eq_some_iff.mp accepted
    obtain ⟨⟨ctrRead, after⟩, ctrAccepted, same⟩ := Option.map_eq_some_iff.mp remaining
    cases same
    obtain ⟨kidHalf, kidEnd, kidInside, kidBytes⟩ := of_readField (by simp) (by omega) kidAccepted
    obtain ⟨ctrHalf, ctrEnd, -, ctrBytes⟩ := of_readField kidInside (by omega) ctrAccepted
    have config : cfg = UInt8.ofNat (16 * half kidRead + half ctrRead) := by
      rw [← kidHalf, ← ctrHalf, Nat.div_add_mod, UInt8.ofNat_toNat]
    have size : after = 1 + (extension kidRead).length + (extension ctrRead).length := by omega
    refine ⟨by rw [headerEncode_length, size], ?_⟩
    have split_ : (cfg :: rest).take after = cfg :: ((rest.take (extension kidRead).length) ++
          ((rest.drop (extension kidRead).length).take (extension ctrRead).length)) := by
      rw [size, Nat.add_assoc, Nat.add_comm 1, take_succ_cons, take_add]
    rw [kidEnd, Nat.add_comm 1, drop_succ_cons] at ctrBytes
    rw [drop_succ_cons, drop_zero] at kidBytes
    rw [split_, kidBytes, ctrBytes, headerEncode_eq, config]

theorem sframe_header_is_bijective_onto_accepted (kid ctr : UInt64) : (headerEncode kid ctr).length ≤ 17 ∧
      (∀ rest, headerDecode (headerEncode kid ctr ++ rest) = some (kid, ctr, (headerEncode kid ctr).length)) ∧
      ∀ input n, headerDecode input = some (kid, ctr, n) →
        n = (headerEncode kid ctr).length ∧ input.take n = headerEncode kid ctr := by
  have kidShort := extension_length kid
  have ctrShort := extension_length ctr
  refine ⟨?_, headerDecode_headerEncode kid ctr, fun _ _ => of_headerDecode⟩
  rw [headerEncode_length]
  omega

theorem sframe_header_of_a_long_counter : headerEncode 5 300 = [0x59, 0x01, 0x2c] ∧
      headerDecode [0x59, 0x01, 0x2c, 0xff] = some (5, 300, 3) ∧
      [0x59, 0x01, 0x2c, 0xff].take 3 = headerEncode 5 300 := by
  obtain ⟨-, decodes, accepted⟩ := sframe_header_is_bijective_onto_accepted 5 300
  exact ⟨rfl, decodes [0xff], (accepted [0x59, 0x01, 0x2c, 0xff] 3 rfl).2⟩

end OpenChime.Crypto.SframeHeader
