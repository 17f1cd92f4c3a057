import Mathlib.Data.List.GetD
import OpenChime.Client.ShareOrder

/-! A sharer, the packets sent, and a viewer who gets them in any order, again and again or not at
all: what the viewer hands out is what the sharer was given. -/

set_option autoImplicit false

namespace OpenChime.Client.Share

open List Option

namespace Frame

structure Sendable (f : Frame) : Prop where
  number : f.number < 2 ^ 32
  nonempty : 0 < f.data.length
  nfrags : f.nfrags ≤ maxFrags
  width : f.width ≤ maxDim
  height : f.height ≤ maxDim

variable {f : Frame} {i : Nat}

def fragment (f : Frame) (i : Nat) : Fragment := ⟨f.number, i, f.nfrags, f.keyframe, f.width, f.height, f.part i⟩

theorem parse_packet {g : Fragment} (sendable : Sendable f) (inside : i < f.nfrags)
    (accepted : parse ((f.packet i).drop 1) = some g) : g = f.fragment i := by
  have small : f.nfrags ≤ 1024 := sendable.nfrags
  have wide : f.width ≤ 4096 := sendable.width
  have tall : f.height ≤ 4096 := sendable.height
  have read (width value : Nat) (fits : value < 256 ^ width) :
      BigEndian.decode (BigEndian.encode width value) = value := BigEndian.decode_encode_of_lt fits
  have number : field ((f.packet i).drop 1) 0 4 = f.number := read 4 _ sendable.number
  have index : field ((f.packet i).drop 1) 4 2 = i := read 2 _ (by omega)
  have count : field ((f.packet i).drop 1) 6 2 = f.nfrags := read 2 _ (by omega)
  have width : field ((f.packet i).drop 1) 9 2 = f.width := read 2 _ (by omega)
  have height : field ((f.packet i).drop 1) 11 2 = f.height := read 2 _ (by omega)
  have flag : ((f.packet i).drop 1).getD 8 0 = if f.keyframe then 1 else 0 := rfl
  have key : decide (((f.packet i).drop 1).getD 8 0 &&& 1 = 1) = f.keyframe := by
    rw [flag]
    cases f.keyframe <;> rfl
  dsimp only [parse] at accepted
  split at accepted
  · cases accepted
  split at accepted
  · cases accepted
  · rw [← some.inj accepted, number, index, count, width, height, key]
    rfl

theorem part_length (f : Frame) (i : Nat) : (f.part i).length = min fragSize (f.data.length - i * fragSize) := by
  rw [part, length_take, length_drop]

theorem getD_part {k : Nat} (inside : k < (f.part i).length) :
    (f.part i).getD k 0 = f.data.getD (i * fragSize + k) 0 := by
  rw [part_length] at inside
  rw [part, getD_eq_getElem?_getD, getD_eq_getElem?_getD, getElem?_take_of_lt (by omega), getElem?_drop]

theorem data_length (nonempty : 0 < f.data.length) :
    0 < f.nfrags ∧ (f.nfrags - 1) * fragSize + (f.part (f.nfrags - 1)).length = f.data.length := by
  have size : fragSize = 1100 := rfl
  have count : f.nfrags = (f.data.length + fragSize - 1) / fragSize := rfl
  rw [part_length, size]
  rw [size] at count
  omega

end Frame

/-- A slot with fragments of a frame in it: each where it belongs, and each of them heard. -/
structure Holding (f : Frame) (heard : List (List UInt8)) (s : Slot) : Prop where
  number : f.number = s.frame
  nfrags : s.nfrags = f.nfrags
  keyframe : s.keyframe = f.keyframe
  width : s.width = f.width
  height : s.height = f.height
  count : s.count = (range f.nfrags).countP s.got
  heard : ∀ i, s.got i = true → i < f.nfrags ∧ (f.packet i).drop 1 ∈ heard
  block : ∃ block, s.buf = some block ∧
    ∀ i, s.got i = true → ∀ k < (f.part i).length, block (i * fragSize + k) = (f.part i).getD k 0
  last : s.got (f.nfrags - 1) = true → s.lastLen = (f.part (f.nfrags - 1)).length

structure SlotOk (sent : List Frame) (heard : List (List UInt8)) (s : Slot) : Prop where
  new : s.used = true → s.nfrags = 0 → s.got = (fun _ => false) ∧ s.count = 0
  holding : s.used = true → s.nfrags ≠ 0 → ∃ f ∈ sent, Holding f heard s

section

variable {f : Frame} {sent sent' : List Frame} {heard heard' : List (List UInt8)} {s : Slot}

theorem Holding.mono (holding : Holding f heard s) (more : ∀ b ∈ heard, b ∈ heard') : Holding f heard' s :=
  { holding with heard := fun i got => ⟨(holding.heard i got).1, more _ (holding.heard i got).2⟩ }

theorem SlotOk.mono (ok : SlotOk sent heard s) (moreSent : ∀ f ∈ sent, f ∈ sent')
    (moreHeard : ∀ b ∈ heard, b ∈ heard') : SlotOk sent' heard' s where
  new := ok.new
  holding := fun used begun => by
    obtain ⟨f, member, holding⟩ := ok.holding used begun
    exact ⟨f, moreSent f member, holding.mono moreHeard⟩

theorem slotOk_noSlot : SlotOk sent heard noSlot := ⟨fun impossible _ => (Bool.false_ne_true impossible).elim,
    fun impossible _ => (Bool.false_ne_true impossible).elim⟩

theorem slotOk_freshSlot (frame : Nat) (now : Int) : SlotOk sent heard (Rx.freshSlot frame now) :=
  ⟨fun _ _ => ⟨rfl, rfl⟩, fun _ begun => absurd rfl begun⟩

theorem countP_update {numbers : List Nat} {i : Nat} (got : Nat → Bool) (distinct : numbers.Nodup)
    (inside : i ∈ numbers) (missing : got i = false) :
    numbers.countP (Function.update got i true) = numbers.countP got + 1 := by
  have first := perm_cons_erase inside
  have others : (numbers.erase i).countP (Function.update got i true) = (numbers.erase i).countP got := by
    apply countP_congr
    intro n member
    have other : n ≠ i := fun same => distinct.not_mem_erase (same ▸ member)
    rw [Function.update_of_ne other]
  rw [first.countP_eq, first.countP_eq got, countP_cons_of_pos (Function.update_self ..), others]
  simp [missing]

theorem Holding.begin {block : Nat → UInt8} (number : f.number = s.frame)
    (new : s.got = (fun _ => false) ∧ s.count = 0) :
    Holding f heard { s with
        buf := some block, nfrags := f.nfrags, keyframe := f.keyframe, width := f.width,
        height := f.height } where
  number := number
  nfrags := rfl
  keyframe := rfl
  width := rfl
  height := rfl
  count := by
    rw [new.1, new.2]
    simp
  heard := by
    rw [new.1]
    intro i impossible
    cases impossible
  block := ⟨block, rfl, by
    rw [new.1]
    intro i impossible
    cases impossible⟩
  last := by
    rw [new.1]
    intro impossible
    cases impossible

variable (holding : Holding f heard s)

include holding

theorem Holding.placed {i : Nat} {block : Nat → UInt8} (same : s.buf = some block) (inside : i < f.nfrags)
    (missing : s.got i = false) (nowHeard : (f.packet i).drop 1 ∈ heard) :
    Holding f heard (Rx.placed s (f.fragment i) block) where
  number := holding.number
  nfrags := rfl
  keyframe := rfl
  width := rfl
  height := rfl
  count := by
    dsimp only [Rx.placed, Frame.fragment]
    rw [countP_update s.got nodup_range (mem_range.mpr inside) missing, holding.count]
  heard := by
    intro j got
    by_cases here : j = i
    · rw [here]
      exact ⟨inside, nowHeard⟩
    dsimp only [Rx.placed, Frame.fragment] at got
    rw [Function.update_of_ne here] at got
    exact holding.heard j got
  block := by
    refine ⟨_, rfl, fun j got k small => ?_⟩
    have size : fragSize = 1100 := rfl
    have full := f.part_length i
    have full' := f.part_length j
    dsimp only [Rx.write, Frame.fragment]
    by_cases here : j = i
    · subst here
      rw [if_pos (by omega)]
      congr 1
      omega
    dsimp only [Rx.placed, Frame.fragment] at got
    rw [Function.update_of_ne here] at got
    -- the other fragment's bytes are not among those written
    have apart : ¬ (i * fragSize ≤ j * fragSize + k ∧ j * fragSize + k < i * fragSize + (f.part i).length) := by
      rw [size] at full full' ⊢
      omega
    rw [if_neg apart]
    obtain ⟨held, buf, bytes⟩ := holding.block
    rw [same] at buf
    cases buf
    exact bytes j got k small
  last := by
    intro got
    dsimp only [Rx.placed, Frame.fragment] at got ⊢
    by_cases here : f.nfrags - 1 = i
    · rw [if_pos (by omega), ← here]
    rw [Function.update_of_ne here] at got
    rw [if_neg (by omega)]
    exact holding.last got

theorem Holding.complete (whole : s.complete = true) (i : Nat) (inside : i < f.nfrags) : s.got i = true := by
  simp only [Slot.complete, Bool.and_eq_true, beq_iff_eq] at whole
  have all : (range f.nfrags).countP s.got = (range f.nfrags).length := by
    rw [← holding.count, whole.2, holding.nfrags, length_range]
  exact countP_eq_length.mp all i (mem_range.mpr inside)

theorem Holding.data (nonempty : 0 < f.data.length) (whole : s.complete = true) :
    (range ((s.nfrags - 1) * fragSize + s.lastLen)).map (s.buf.getD fun _ => 0) = f.data := by
  obtain ⟨positive, total⟩ := Frame.data_length nonempty
  have there := holding.complete whole
  have length : (s.nfrags - 1) * fragSize + s.lastLen = f.data.length := by
    rw [holding.nfrags, holding.last (there _ (by omega)), total]
  obtain ⟨block, buf, bytes⟩ := holding.block
  have size : fragSize = 1100 := rfl
  have count : f.nfrags = (f.data.length + fragSize - 1) / fragSize := rfl
  rw [length, buf, getD_some]
  apply ext_getElem
  · rw [length_map, length_range]
  · intro n left right
    rw [getElem_map, getElem_range]
    have place : n / fragSize * fragSize + n % fragSize = n := Nat.div_add_mod' n fragSize
    have fragment : n / fragSize < f.nfrags := by
      rw [size] at count ⊢
      omega
    have within : n % fragSize < (f.part (n / fragSize)).length := by
      rw [Frame.part_length]
      rw [size] at place ⊢
      omega
    have found := bytes (n / fragSize) (there _ fragment) (n % fragSize) within
    rw [Frame.getD_part within, place] at found
    rw [found, getD_eq_getElem _ _ right]

end

structure Steady (P : Slot → Prop) : Prop where
  empty : P noSlot
  fresh : ∀ frame now, P (Rx.freshSlot frame now)
  asked : ∀ s nacks nackedMs, P s → P { s with nacks, nackedMs }

theorem slotOk_steady (sent : List Frame) (heard : List (List UInt8)) : Steady (SlotOk sent heard) where
  empty := slotOk_noSlot
  fresh := slotOk_freshSlot
  asked := fun s nacks nackedMs ok =>
    { new := ok.new
      holding := fun used begun => by
        obtain ⟨f, member, holding⟩ := ok.holding used begun
        exact ⟨f, member, { holding with }⟩ }

namespace Rx

variable {P : Slot → Prop} {r : Rx} {i : Fin slotCount} {frame : Nat}

def All (P : Slot → Prop) (r : Rx) : Prop := ∀ i, P (r.slots i)

variable (all : All P r)

include all

theorem All.setSlot (i : Fin slotCount) {s : Slot} (ok : P s) : All P (r.setSlot i s) := by
  intro j
  by_cases here : j = i
  · rw [here, setSlot_same]
    exact ok
  · rw [setSlot_other r s here]
    exact all j

theorem All.slotNew (steady : Steady P) (frame : Nat) (now : Int) : All P (r.slotNew frame now).2 := by
  rcases slotNew_cases r frame now with same | ⟨i, key, -, -, same⟩
  · rw [same]
    exact all
  have asked : All P { r with needKey := key } := all
  rw [same]
  exact asked.setSlot i (steady.fresh frame now)

theorem All.noteGap (steady : Steady P) (frame : Nat) (now : Int) : All P (r.noteGap frame now) := by
  have noted (frames : List Nat) (r : Rx) (all : All P r) : All P (frames.foldl (noteMissing now) r) := by
    induction frames generalizing r with
    | nil => exact all
    | cons first rest ih =>
      apply ih
      unfold noteMissing
      split
      · exact all.slotNew steady first now
      · exact all
  dsimp only [Rx.noteGap]
  split
  · exact noted _ r all
  · exact all

theorem All.noteTop (frame : Nat) : All P (r.noteTop frame) := by
  unfold Rx.noteTop
  split
  · exact all
  · exact all

variable (steady : Steady P)

include steady

theorem All.poll (now : Int) : All P (r.poll now).2 := by
  have asked (slots : List (Fin slotCount)) (out : List Packet) (r : Rx) (all : All P r) :
      All P (slots.foldl (askAgain now) (out, r)).2 := by
    induction slots generalizing out r with
    | nil => exact all
    | cons first rest ih =>
      rw [foldl_cons]
      have next_ : All P (askAgain now (out, r) first).2 := by
        dsimp only [askAgain]
        split
        · exact all.setSlot first (steady.asked _ _ _ (all first))
        · exact all
      generalize askAgain now (out, r) first = after at next_ ⊢
      exact ih after.1 after.2 next_
  have given (r : Rx) (all : All P r) : All P (r.giveUp now) := by
    dsimp only [giveUp]
    split
    · cases r.slotOf r.nextFrame with
      | some i =>
        dsimp only
        split
        · exact all
        · exact all
      | none =>
        have made := all.slotNew steady r.nextFrame now
        generalize r.slotNew r.nextFrame now = result at made ⊢
        obtain ⟨slot, after⟩ := result
        cases slot with
        | none => exact made
        | some i =>
          dsimp only
          split
          · exact made
          · exact made
    · exact all
  have keyed (r : Rx) (all : All P r) : All P (r.askKey now).2 := by
    dsimp only [askKey]
    split
    · split
      · exact all
      · exact all
    · exact all
  have born : All P (if r.bornMs < 0 then { r with bornMs := now } else r) := by
    split
    · exact all
    · exact all
  dsimp only [Rx.poll]
  generalize (if r.bornMs < 0 then { r with bornMs := now } else r) = alive at born ⊢
  exact keyed _ (given _ (asked (finRange slotCount) [] alive born))

theorem All.dropHanded : All P r.dropHanded := by
  unfold Rx.dropHanded
  split
  · exact all
  · next i _ => exact all.setSlot i steady.empty

theorem All.startAt (i : Fin slotCount) : All P (r.startAt i) := by
  intro j
  dsimp only [Rx.startAt]
  split
  · exact steady.empty
  · exact all j

theorem All.next : All P r.next.2 ∧ ∀ out, r.next.1 = some out → ∃ s, P s ∧ s.complete = true ∧
        out = ⟨(range ((s.nfrags - 1) * fragSize + s.lastLen)).map (s.buf.getD fun _ => 0),
          s.keyframe, s.width, s.height, s.frame⟩ := by
  have left := all.dropHanded steady
  dsimp only [Rx.next]
  generalize r.dropHanded = seen at left ⊢
  cases order : seen.inOrder with
  | some i =>
    unfold inOrder at order
    split at order
    · have whole := (filter_eq_some_iff.mp order).2
      refine ⟨left, fun out same => ⟨seen.slots i, left i, whole, ?_⟩⟩
      rw [← some.inj same]
      rfl
    · cases order
  | none =>
    cases oldest : seen.oldestOf seen.keySlots with
    | none => exact ⟨left, nofun⟩
    | some i =>
      have member := (mem_filter.mp (oldestOf_mem oldest)).2
      simp only [Bool.and_eq_true] at member
      refine ⟨left.startAt steady i, fun out same => ⟨seen.slots i, left i, member.1.1, ?_⟩⟩
      rw [← some.inj same, ← startAt_self seen i]
      rfl

end Rx

section

variable {sent : List Frame} {heard : List (List UInt8)} {r : Rx} {j : Fin slotCount} {f : Frame} {i : Nat}
  (all : Rx.All (SlotOk sent heard) r)

include all

theorem fill_ok (used : (r.slots j).used = true) (named : (r.slots j).frame = f.number) (member : f ∈ sent)
    (inside : i < f.nfrags) (unique : ∀ g ∈ sent, g.number = f.number → g = f) (nowHeard : (f.packet i).drop 1 ∈ heard)
    (memory : Option (Nat → UInt8)) : Rx.All (SlotOk sent heard) (r.fill j (f.fragment i) memory).2 := by
  have held {s : Slot} (begun : s.nfrags ≠ 0) (holding : Holding f heard s) :
      Rx.All (SlotOk sent heard) (r.setSlot j s) :=
    all.setSlot j ⟨fun _ none_ => absurd none_ begun, fun _ _ => ⟨f, member, holding⟩⟩
  have some_ : f.nfrags ≠ 0 := by omega
  dsimp only [Rx.fill]
  split
  · next empty =>
    have new := (all j).new used empty
    cases memory with
    | none => exact all.setSlot j slotOk_noSlot
    | some block =>
      have begun : Holding f heard { r.slots j with
            buf := some block, nfrags := f.nfrags, keyframe := f.keyframe, width := f.width,
            height := f.height } := .begin named.symm new
      dsimp only
      split
      · exact held some_ begun
      · next missing => exact held some_ (begun.placed rfl inside (Bool.eq_false_of_not_eq_true missing) nowHeard)
  · next begun =>
    obtain ⟨g, sent_, holding⟩ := (all j).holding used begun
    rw [unique g sent_ (holding.number.trans named)] at holding
    obtain ⟨block, buf, -⟩ := holding.block
    split
    · exact all
    split
    · exact all
    next missing =>
    rw [buf]
    exact held some_ (holding.placed buf inside (Bool.eq_false_of_not_eq_true missing) nowHeard)

theorem put_ok (member : f ∈ sent) (sendable : f.Sendable) (inside : i < f.nfrags)
    (unique : ∀ g ∈ sent, g.number = f.number → g = f) (nowHeard : (f.packet i).drop 1 ∈ heard) (now : Int)
    (memory : Option (Nat → UInt8)) : Rx.All (SlotOk sent heard) (r.put ((f.packet i).drop 1) now memory).2 := by
  have steady := slotOk_steady sent heard
  cases parsed : parse ((f.packet i).drop 1) with
  | none =>
    simp only [Rx.put, parsed]
    exact all
  | some g =>
    have read := Frame.parse_packet sendable inside parsed
    simp only [Rx.put, parsed]
    subst read
    split
    · exact all
    have noted := (all.noteGap steady (f.fragment i).frame now).noteTop (f.fragment i).frame
    generalize (r.noteGap (f.fragment i).frame now).noteTop (f.fragment i).frame = seen at noted ⊢
    cases found : seen.slotOf (f.fragment i).frame with
    | some j =>
      obtain ⟨used, named⟩ := Rx.slotOf_spec found
      exact fill_ok noted used named member inside unique nowHeard memory
    | none =>
      have made := noted.slotNew steady (f.fragment i).frame now
      rcases Rx.slotNew_cases seen (f.fragment i).frame now with same | ⟨j, key, -, -, same⟩
      · rw [same]
        exact noted
      rw [same] at made ⊢
      refine fill_ok made ?_ ?_ member inside unique nowHeard memory
      · rw [Rx.setSlot_same]
        rfl
      · rw [Rx.setSlot_same]
        rfl

end

namespace Tx

variable {t : Tx} {s : Sent} {p : Packet}

theorem foldl_remember (now : Int) (f : Frame) (indices : List Nat) (t : Tx) :
    (indices.foldl (remember now f) t).nextFrame = t.nextFrame ∧
      ∀ s ∈ (indices.foldl (remember now f) t).hist, s ∈ t.hist ∨ ∃ i ∈ indices, s.pt = f.packet i := by
  induction indices generalizing t with
  | nil => exact ⟨rfl, fun s member => .inl member⟩
  | cons first rest ih =>
    obtain ⟨next, hist⟩ := ih (remember now f t first)
    refine ⟨next, fun s member => ?_⟩
    rcases hist s member with earlier | ⟨i, later, same⟩
    · rcases mem_or_eq_of_mem_set earlier with old | new
      · exact .inl old
      · exact .inr ⟨first, mem_cons_self, by rw [new]⟩
    · exact .inr ⟨i, mem_cons_of_mem _ later, same⟩

theorem frame_cases (t : Tx) (data : List UInt8) (keyframe : Bool) (width height now : Int) :
    (t.frame data keyframe width height now = (none, { t with keyWanted := true })) ∨
      ∃ after, let f := t.toSend data keyframe width height
        t.frame data keyframe width height now = (some ((range f.nfrags).map f.packet), after) ∧
          0 < f.data.length ∧ f.nfrags ≤ maxFrags ∧ f.width ≤ maxDim ∧ f.height ≤ maxDim ∧
          after.nextFrame = (t.nextFrame + 1) % 2 ^ 32 ∧
          ∀ s ∈ after.hist, s ∈ t.hist ∨ ∃ i < f.nfrags, s.pt = f.packet i := by
  dsimp only [Tx.frame]
  split
  · exact .inl rfl
  next fits =>
  simp only [not_or] at fits
  obtain ⟨some_, few, -, -, wide, tall⟩ := fits
  obtain ⟨next, hist⟩ := foldl_remember now (t.toSend data keyframe width height)
    (range (t.toSend data keyframe width height).nfrags)
    { t with nextFrame := (t.nextFrame + 1) % 2 ^ 32 }
  refine .inr ⟨_, rfl, Nat.pos_of_ne_zero some_, by omega, ?_, ?_, ?_, ?_⟩
  · have named : (t.toSend data keyframe width height).width = width.toNat := rfl
    omega
  · have named : (t.toSend data keyframe width height).height = height.toNat := rfl
    omega
  · split
    · exact next
    · exact next
  · intro s member
    have remembered : s ∈ ((range (t.toSend data keyframe width height).nfrags).foldl
        (remember now (t.toSend data keyframe width height))
        { t with nextFrame := (t.nextFrame + 1) % 2 ^ 32 }).hist := by
      split at member
      · exact member
      · exact member
    rcases hist s remembered with earlier | ⟨i, later, same⟩
    · exact .inl earlier
    · exact .inr ⟨i, mem_range.mp later, same⟩

theorem of_mem_resend {frame : Nat} {frag : Option Nat} {now : Int}
    (member : p ∈ t.resend frame frag now) : ∃ s ∈ t.hist, s.pt ≠ [] ∧ p = s.pt := by
  have found {s : Sent} (kept : s ∈ t.hist.filter fun s =>
      s.pt ≠ [] ∧ s.frame = frame ∧ (frag = none ∨ frag = some s.frag) ∧
        ¬ now - s.atMs > historyMs) : s ∈ t.hist ∧ s.pt ≠ [] := by
    obtain ⟨old, fits⟩ := mem_filter.mp kept
    exact ⟨old, (of_decide_eq_true fits).1⟩
  cases frag with
  | none =>
    obtain ⟨s, kept, same⟩ := mem_map.mp member
    exact ⟨s, (found kept).1, (found kept).2, same.symm⟩
  | some number =>
    obtain ⟨s, kept, same⟩ := mem_map.mp member
    have kept := mem_of_mem_take kept
    exact ⟨s, (found kept).1, (found kept).2, same.symm⟩

theorem control_spec (t : Tx) (user : Nat) (body : List UInt8) (now : Int) :
    (t.control user body now).2.hist = t.hist ∧ (t.control user body now).2.nextFrame = t.nextFrame ∧
      ∀ p ∈ (t.control user body now).1, ∃ s ∈ t.hist, s.pt ≠ [] ∧ p = s.pt := by
  have reported (user loss : Nat) : (t.report user loss now).hist = t.hist ∧
      (t.report user loss now).nextFrame = t.nextFrame := by
    dsimp only [report]
    split
    · exact ⟨rfl, rfl⟩
    · split <;> exact ⟨rfl, rfl⟩
  have silent {p : Packet} (impossible : p ∈ ([] : List Packet)) : ∃ s ∈ t.hist, s.pt ≠ [] ∧ p = s.pt := by
    cases impossible
  dsimp only [control]
  split
  · exact ⟨rfl, rfl, fun p => silent⟩
  split
  · split
    · exact ⟨rfl, rfl, fun p => silent⟩
    split
    · refine ⟨rfl, rfl, fun p again => ?_⟩
      dsimp only at again
      exact of_mem_resend again
    · refine ⟨rfl, rfl, fun p member => ?_⟩
      obtain ⟨i, -, again⟩ := mem_flatMap.mp member
      exact of_mem_resend again
  · split
    · exact ⟨rfl, rfl, fun p => silent⟩
    split
    · split
      · exact ⟨rfl, rfl, fun p => silent⟩
      · exact ⟨(reported _ _).1, (reported _ _).2, fun p => silent⟩
    · exact ⟨rfl, rfl, fun p => silent⟩

end Tx

structure World where
  tx : Tx
  rx : Rx
  sent : List Frame
  net : List Packet
  heard : List (List UInt8)
  out : List Rx.HandedOut

inductive Event where
  | send (data : List UInt8) (keyframe : Bool) (width height now : Int)
  | control (user : Nat) (body : List UInt8) (now : Int)
  | restart (now : Int)
  | deliver (packet : Packet) (now : Int) (memory : Option (Nat → UInt8))
  | next
  | poll (now : Int)
  | needKey

def World.start (self sharer : Nat) : World := ⟨txInit self, rxInit sharer, [], [], [], []⟩

def World.step (w : World) : Event → Option World
  | .send data keyframe width height now =>
    match w.tx.frame data keyframe width height now with
    | (none, tx) => some { w with tx }
    | (some packets, tx) =>
      some { w with
        tx
        sent := w.sent ++ [w.tx.toSend data keyframe width height]
        net := w.net ++ packets }
  | .control user body now =>
    let (packets, tx) := w.tx.control user body now
    some { w with tx, net := w.net ++ packets }
  | .restart now => some { w with tx := w.tx.restart now }
  | .deliver packet now memory =>
    -- any packet sent, now or earlier, as often as the network likes
    if packet ∈ w.net then
      some { w with
        rx := (w.rx.put (packet.drop 1) now memory).2
        heard := w.heard ++ [packet.drop 1] }
    else none
  | .next =>
    match w.rx.next with
    | (none, rx) => some { w with rx }
    | (some out, rx) => some { w with rx, out := w.out ++ [out] }
  | .poll now => some { w with rx := (w.rx.poll now).2 }
  | .needKey => some { w with rx := w.rx.needKeyframe }

structure World.Ok (w : World) : Prop where
  few : w.sent.length ≤ 2 ^ 32
  next : w.tx.nextFrame = w.sent.length % 2 ^ 32
  numbered : ∀ (n : Nat) (f : Frame), w.sent[n]? = some f → f.number = n
  sendable : ∀ f ∈ w.sent, f.Sendable
  net : ∀ p ∈ w.net, ∃ f ∈ w.sent, ∃ i < f.nfrags, p = f.packet i
  hist : ∀ s ∈ w.tx.hist, s.pt ≠ [] → s.pt ∈ w.net
  slots : Rx.All (SlotOk w.sent w.heard) w.rx
  out : ∀ o ∈ w.out, ∃ f ∈ w.sent, o = ⟨f.data, f.keyframe, f.width, f.height, f.number⟩ ∧
      ∀ i < f.nfrags, (f.packet i).drop 1 ∈ w.heard

namespace World

variable {w after : World}

theorem Ok.unique (ok : Ok w) {f g : Frame} (first : f ∈ w.sent) (second : g ∈ w.sent)
    (same : g.number = f.number) : g = f := by
  obtain ⟨n, at_⟩ := mem_iff_getElem?.mp first
  obtain ⟨m, at_'⟩ := mem_iff_getElem?.mp second
  rw [ok.numbered n f at_, ok.numbered m g at_'] at same
  rw [same, at_] at at_'
  exact (some.inj at_').symm

theorem start_ok (self sharer : Nat) : Ok (start self sharer) where
  few := Nat.zero_le _
  next := rfl
  numbered := nofun
  sendable := nofun
  net := nofun
  hist := by
    intro s member begun
    rw [eq_of_mem_replicate member] at begun
    exact absurd rfl begun
  slots := fun _ => slotOk_noSlot
  out := nofun

theorem Ok.send {data : List UInt8} {keyframe : Bool} {width height now : Int} (ok : Ok w)
    (room : w.sent.length < 2 ^ 32)
    (taken : w.step (.send data keyframe width height now) = some after) : Ok after := by
  dsimp only [step] at taken
  rcases w.tx.frame_cases data keyframe width height now with
    refused | ⟨tx, sends, nonempty, few, wide, tall, next, hist⟩
  · rw [refused] at taken
    rw [← some.inj taken]
    exact { ok with }
  set f := w.tx.toSend data keyframe width height with new
  rw [sends] at taken
  rw [← some.inj taken]
  have number : f.number = w.sent.length := by
    rw [show f.number = w.tx.nextFrame from rfl, ok.next, Nat.mod_eq_of_lt room]
  refine ⟨?_, ?_, ?_, ?_, ?_, ?_, ?_, ?_⟩
  · rw [length_append, length_singleton]
    omega
  · rw [next, ok.next, length_append, length_singleton, Nat.mod_add_mod]
  · intro n g at_
    rw [getElem?_append] at at_
    split at at_
    · exact ok.numbered n g at_
    next past =>
    obtain ⟨last, same⟩ := List.getElem?_eq_some_iff.mp at_
    rw [length_singleton] at last
    rw [getElem_singleton] at same
    rw [← same, number]
    omega
  · intro g member
    rcases mem_append.mp member with earlier | last
    · exact ok.sendable g earlier
    · rw [mem_singleton.mp last]
      exact ⟨by omega, nonempty, few, wide, tall⟩
  · intro p member
    rcases mem_append.mp member with earlier | last
    · obtain ⟨g, sent, rest⟩ := ok.net p earlier
      exact ⟨g, mem_append_left _ sent, rest⟩
    · obtain ⟨i, inside, same⟩ := mem_map.mp last
      exact ⟨f, by simp, i, mem_range.mp inside, same.symm⟩
  · intro s member begun
    rcases hist s member with earlier | ⟨i, inside, same⟩
    · exact mem_append_left _ (ok.hist s earlier begun)
    · rw [same]
      exact mem_append_right _ (mem_map_of_mem (mem_range.mpr inside))
  · exact fun j => (ok.slots j).mono (fun g member => mem_append_left _ member) fun b => id
  · intro o member
    obtain ⟨g, sent, rest⟩ := ok.out o member
    exact ⟨g, mem_append_left _ sent, rest⟩

theorem Ok.deliver {packet : Packet} {now : Int} {memory : Option (Nat → UInt8)} (ok : Ok w)
    (taken : w.step (.deliver packet now memory) = some after) : Ok after := by
  dsimp only [step] at taken
  split at taken
  · next onNet =>
    obtain ⟨f, sent, i, inside, same⟩ := ok.net packet onNet
    rw [← some.inj taken]
    have more : ∀ b ∈ w.heard, b ∈ w.heard ++ [packet.drop 1] := fun b =>
      mem_append_left _
    refine { ok with slots := ?_, out := ?_ }
    · have heard : Rx.All (SlotOk w.sent (w.heard ++ [packet.drop 1])) w.rx := fun j =>
        (ok.slots j).mono (fun g => id) more
      rw [same] at heard ⊢
      exact put_ok heard sent (ok.sendable f sent) inside (fun g member => ok.unique sent member) (by simp) now memory
    · intro o member
      obtain ⟨g, sent', whole, rest⟩ := ok.out o member
      exact ⟨g, sent', whole, fun i inside => more _ (rest i inside)⟩
  · cases taken

theorem Ok.next_ (ok : Ok w) (taken : w.step .next = some after) : Ok after := by
  obtain ⟨slots, handed⟩ := ok.slots.next (slotOk_steady w.sent w.heard)
  dsimp only [step] at taken
  generalize w.rx.next = result at slots handed taken
  obtain ⟨out, rx⟩ := result
  cases out with
  | none =>
    rw [← some.inj taken]
    exact { ok with slots }
  | some out =>
    rw [← some.inj taken]
    refine { ok with slots, out := ?_ }
    intro o member
    rcases mem_append.mp member with earlier | last
    · exact ok.out o earlier
    obtain ⟨s, good, whole, same⟩ := handed out rfl
    have begun : s.used = true ∧ s.nfrags ≠ 0 := by
      simp only [Slot.complete, Bool.and_eq_true, bne_iff_ne] at whole
      exact whole.1
    obtain ⟨f, sent, holding⟩ := good.holding begun.1 begun.2
    refine ⟨f, sent, ?_, fun i inside => (holding.heard i (holding.complete whole i inside)).2⟩
    rw [mem_singleton.mp last, same, holding.data (ok.sendable f sent).nonempty whole,
      holding.keyframe, holding.width, holding.height, holding.number]

def Numbered (w : World) : Event → Prop
  | .send .. => w.sent.length < 2 ^ 32
  | _ => True

instance (w : World) (event : Event) : Decidable (Numbered w event) :=
  match event with
  | .send .. => inferInstanceAs (Decidable (w.sent.length < 2 ^ 32))
  | .control .. | .restart _ | .deliver .. | .next | .poll _ | .needKey => isTrue trivial

theorem Ok.step {event : Event} (ok : Ok w) (allowed : Numbered w event)
    (taken : w.step event = some after) : Ok after := by
  cases event with
  | send data keyframe width height now => exact ok.send allowed taken
  | deliver packet now memory => exact ok.deliver taken
  | next => exact ok.next_ taken
  | control user body now =>
    obtain ⟨hist, next, again⟩ := w.tx.control_spec user body now
    have same : { w with
        tx := (w.tx.control user body now).2
        net := w.net ++ (w.tx.control user body now).1 } = after := some.inj taken
    rw [← same]
    refine ⟨ok.few, next.trans ok.next, ok.numbered, ok.sendable, ?_, ?_, ok.slots, ok.out⟩
    · intro p member
      rcases mem_append.mp member with earlier | resent
      · exact ok.net p earlier
      obtain ⟨s, kept, begun, same⟩ := again p resent
      rw [same]
      exact ok.net s.pt (ok.hist s kept begun)
    · intro s member begun
      rw [hist] at member
      exact mem_append_left _ (ok.hist s member begun)
  | restart now =>
    rw [← some.inj taken]
    refine { ok with hist := ?_ }
    intro s member begun
    obtain ⟨old, -, same⟩ := mem_map.mp member
    rw [← same] at begun
    exact absurd rfl begun
  | poll now =>
    have slots := ok.slots.poll (slotOk_steady w.sent w.heard) now
    have same : { w with rx := (w.rx.poll now).2 } = after := some.inj taken
    rw [← same]
    refine ⟨ok.few, ok.next, ok.numbered, ok.sendable, ok.net, ok.hist, ?_, ok.out⟩
    dsimp only
    exact slots
  | needKey =>
    rw [← some.inj taken]
    exact { ok with }

end World

theorem share_hands_out_what_was_sent (self sharer : Nat) (events : List Event) (w : World)
    (run : Machine.Run World.step World.Numbered (World.start self sharer) events w) :
    ∀ out ∈ w.out, ∃ f ∈ w.sent, out = ⟨f.data, f.keyframe, f.width, f.height, f.number⟩ ∧
        (∀ g ∈ w.sent, g.number = out.frame → g = f) ∧
        ∀ i < f.nfrags, (f.packet i).drop 1 ∈ w.heard := by
  have ok : w.Ok := run.invariant (fun _ => World.Ok) (World.start_ok self sharer)
    fun _ _ _ _ ok allowed taken => ok.step allowed taken
  intro out member
  obtain ⟨f, sent, same, heard⟩ := ok.out out member
  refine ⟨f, sent, same, fun g other number => ok.unique sent other ?_, heard⟩
  rw [number, same]

section

variable {w : World} {data : List UInt8} {keyframe : Bool} {events : List Event}

theorem World.send_taken (w : World) (some_ : 0 < data.length) (few : data.length ≤ 2000) :
    ∃ after, w.step (.send data keyframe 2 2 0) = some after ∧
      after.tx.nextFrame = (w.tx.nextFrame + 1) % 2 ^ 32 ∧ after.rx = w.rx ∧ after.out = w.out ∧
      after.sent = w.sent ++ [⟨w.tx.nextFrame, data, keyframe, 2, 2⟩] ∧
      after.net = w.net ++ (range (Frame.nfrags ⟨w.tx.nextFrame, data, keyframe, 2, 2⟩)).map
        (Frame.packet ⟨w.tx.nextFrame, data, keyframe, 2, 2⟩) := by
  rcases w.tx.frame_cases data keyframe 2 2 0 with refused | ⟨tx, sends, -, -, -, -, next, -⟩
  · have fits : ¬ (data.length = 0 ∨ (w.tx.toSend data keyframe 2 2).nfrags > maxFrags ∨
        (2 : Int) ≤ 0 ∨ (2 : Int) ≤ 0 ∨ (2 : Int) > maxDim ∨ (2 : Int) > maxDim) := by
      have count : (w.tx.toSend data keyframe 2 2).nfrags = (data.length + 1100 - 1) / 1100 := rfl
      have limit : maxFrags = 1024 := rfl
      have limit' : maxDim = 4096 := rfl
      omega
    rw [Tx.frame, if_neg fits] at refused
    cases (Prod.mk.inj refused).1
  · refine ⟨{ w with
        tx
        sent := w.sent ++ [w.tx.toSend data keyframe 2 2]
        net := w.net ++ (range (w.tx.toSend data keyframe 2 2).nfrags).map
          (w.tx.toSend data keyframe 2 2).packet }, ?_, next, rfl, rfl, rfl, rfl⟩
    dsimp only [World.step]
    rw [sends]

theorem World.send_many {start : World} (count : Nat)
    (run : Machine.Run World.step (fun _ _ => True) start events w) (small : w.tx.nextFrame < 2 ^ 32) :
    ∃ events' after, Machine.Run World.step (fun _ _ => True) start events' after ∧
      after.tx.nextFrame = (w.tx.nextFrame + count) % 2 ^ 32 ∧ after.rx = w.rx ∧
      after.out = w.out ∧ (∀ f ∈ w.sent, f ∈ after.sent) ∧ ∀ p ∈ w.net, p ∈ after.net := by
  induction count with
  | zero => exact ⟨events, w, run, (Nat.mod_eq_of_lt small).symm, rfl, rfl, fun _ => id, fun _ => id⟩
  | succ count ih =>
    obtain ⟨events', before, earlier, number, rx, out, sent, net⟩ := ih
    obtain ⟨after, taken, next, rx', out', sent', net'⟩ := @World.send_taken [3] false before (by decide) (by decide)
    refine ⟨_, after, earlier.snoc trivial taken, ?_, rx'.trans rx, out'.trans out, ?_, ?_⟩
    · rw [next, number, Nat.mod_add_mod, Nat.add_assoc]
    · intro f member
      rw [sent']
      exact mem_append_left _ (sent f member)
    · intro p member
      rw [net']
      exact mem_append_left _ (net p member)

end

/-- Two frames of two fragments each, 2 ^ 32 frames apart, with one number between them. -/
def firstRound : Frame := ⟨0, replicate 1101 1, true, 2, 2⟩

def secondRound : Frame := ⟨0, replicate 1101 2, true, 2, 2⟩

/-- A viewer who gets the first fragment of one and the second of the other. -/
def mixed : Rx :=
  (((rxInit 0).put ((firstRound.packet 0).drop 1) 0 (some fun _ => 0)).2.put ((secondRound.packet 1).drop 1) 0 none).2

theorem mixed_next : mixed.next.1.map (fun out => (out.frame, out.data.getD 0 0, out.data.getD 1100 0)) =
      some (0, 1, 2) := by
  decide +kernel

theorem share_mixes_frames_of_one_number :
    ∃ events w, Machine.Run World.step (fun _ _ => True) (World.start 0 0) events w ∧
      firstRound ∈ w.sent ∧ secondRound ∈ w.sent ∧
      ∃ out ∈ w.out, out.frame = firstRound.number ∧ out.frame = secondRound.number ∧
        out.data ≠ firstRound.data ∧ out.data ≠ secondRound.data := by
  have begin_ : Machine.Run World.step (fun _ _ => True) (World.start 0 0) [] (World.start 0 0) := .nil
  have long (byte : UInt8) : (replicate 1101 byte).length = 1101 := length_replicate
  obtain ⟨w1, taken1, next1, rx1, out1, sent1, net1⟩ :=
    @World.send_taken (replicate 1101 1) true (World.start 0 0) (by rw [long]; decide) (by rw [long]; decide)
  have second : w1.tx.nextFrame = 1 := next1
  obtain ⟨events2, w2, run2, next2, rx2, out2, sent2, net2⟩ :=
    World.send_many (2 ^ 32 - 1) (begin_.snoc trivial taken1) (by omega)
  have round : w2.tx.nextFrame = 0 := by
    rw [next2, second]
    decide
  obtain ⟨w3, taken3, -, rx3, out3, sent3, net3⟩ :=
    @World.send_taken (replicate 1101 2) true w2 (by rw [long]; decide) (by rw [long]; decide)
  rw [round] at sent3 net3
  have rx : w3.rx = rxInit 0 := rx3.trans (rx2.trans rx1)
  have firstSent : firstRound ∈ w1.sent := by
    rw [sent1]
    exact mem_concat_self
  have secondSent : secondRound ∈ w3.sent := by
    rw [sent3]
    exact mem_concat_self
  have firstNet : firstRound.packet 0 ∈ w1.net := by
    rw [net1]
    exact mem_append_right _ (mem_map_of_mem (mem_range.mpr (by decide +kernel)))
  have secondNet : secondRound.packet 1 ∈ w3.net := by
    rw [net3]
    exact mem_append_right _ (mem_map_of_mem (mem_range.mpr (by decide +kernel)))
  have kept (f : Frame) (member : f ∈ w1.sent) : f ∈ w3.sent := by
    rw [sent3]
    exact mem_append_left _ (sent2 f member)
  have onNet : firstRound.packet 0 ∈ w3.net := by
    rw [net3]
    exact mem_append_left _ (net2 _ firstNet)
  -- the viewer gets one fragment of each
  let w4 : World := { w3 with
    rx := (w3.rx.put ((firstRound.packet 0).drop 1) 0 (some fun _ => 0)).2
    heard := w3.heard ++ [(firstRound.packet 0).drop 1] }
  have taken4 : w3.step (.deliver (firstRound.packet 0) 0 (some fun _ => 0)) = some w4 := if_pos onNet
  let w5 : World := { w4 with
    rx := (w4.rx.put ((secondRound.packet 1).drop 1) 0 none).2
    heard := w4.heard ++ [(secondRound.packet 1).drop 1] }
  have taken5 : w4.step (.deliver (secondRound.packet 1) 0 none) = some w5 := if_pos secondNet
  have viewer : w5.rx = mixed := by
    dsimp only [w5, w4]
    rw [rx, mixed]
  obtain ⟨out, handed, bytes⟩ := map_eq_some_iff.mp mixed_next
  obtain ⟨number, first, last⟩ : out.frame = 0 ∧ out.data.getD 0 0 = 1 ∧ out.data.getD 1100 0 = 2 := by
    simpa using bytes
  have taken6 : w5.step .next = some { w5 with rx := mixed.next.2, out := w5.out ++ [out] } := by
    have result : w5.rx.next = (some out, mixed.next.2) := by
      rw [viewer, ← handed]
    dsimp only [World.step]
    rw [result]
  have run := (((run2.snoc trivial taken3).snoc trivial taken4).snoc trivial taken5).snoc trivial taken6
  refine ⟨_, _, run, kept _ firstSent, secondSent, out, ?_, number, number, ?_, ?_⟩
  · exact mem_concat_self
  · intro same
    rw [same] at last
    revert last
    decide +kernel
  · intro same
    rw [same] at first
    revert first
    decide +kernel

theorem share_hands_out_what_was_sent_out_of_order :
    ∃ events w, Machine.Run World.step World.Numbered (World.start 0 0) events w ∧
      w.out = [⟨[7], true, 2, 2, 0⟩, ⟨[8], false, 2, 2, 1⟩] ∧
      ∀ out ∈ w.out, ∃ f ∈ w.sent, out = ⟨f.data, f.keyframe, f.width, f.height, f.number⟩ := by
  let packet (f : Frame) (memory : Option (Nat → UInt8)) : Event := .deliver (f.packet 0) 5 memory
  let events : List Event := [.send [7] true 2 2 0, .send [8] false 2 2 1,
    packet ⟨1, [8], false, 2, 2⟩ (some fun _ => 0xff), packet ⟨0, [7], true, 2, 2⟩ (some fun _ => 0),
    packet ⟨1, [8], false, 2, 2⟩ none, .next, .next]
  have followed : (Machine.follow World.step (fun w event => decide (World.Numbered w event))
      (World.start 0 0) events).map World.out = some [⟨[7], true, 2, 2, 0⟩, ⟨[8], false, 2, 2, 1⟩] := by
    decide +kernel
  obtain ⟨w, reached, handed⟩ := map_eq_some_iff.mp followed
  have run : Machine.Run World.step World.Numbered (World.start 0 0) ([] ++ events) w :=
    Machine.Run.nil.of_follow (fun _ _ => of_decide_eq_true) reached
  refine ⟨_, w, run, handed, fun out member => ?_⟩
  obtain ⟨f, sent, same, -⟩ := share_hands_out_what_was_sent 0 0 _ w run out member
  exact ⟨f, sent, same⟩

end OpenChime.Client.Share
