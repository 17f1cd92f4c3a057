import OpenChime.Lib.Run
import OpenChime.Client.Share

/-! What a viewer of a shared screen gives the decoder, and when: over every sequence of
packets, polls and failures of the decoder, each frame with the one it refers to before it. -/

set_option autoImplicit false

namespace OpenChime.Client.Share

open List Option

namespace Rx

variable {r r' r'' : Rx} {i : Fin slotCount} {frame : Nat} {now : Int}

structure Quiet (r r' : Rx) : Prop where
  started : r'.started = r.started
  next : r'.nextFrame = r.nextFrame
  handed : r'.handed = r.handed
  key : r.needKey = true → r'.needKey = true
  slot : ∀ i, r.handed = some i → r'.slots i = r.slots i

theorem Quiet.refl (r : Rx) : Quiet r r := ⟨rfl, rfl, rfl, id, fun _ _ => rfl⟩

theorem Quiet.trans (first : Quiet r r') (second : Quiet r' r'') : Quiet r r'' where
  started := second.started.trans first.started
  next := second.next.trans first.next
  handed := second.handed.trans first.handed
  key := fun wanted => second.key (first.key wanted)
  slot := fun i out => (second.slot i (first.handed.trans out)).trans (first.slot i out)

theorem quiet_setSlot (other : r.handed ≠ some i) (s : Slot) : Quiet r (r.setSlot i s) where
  started := rfl
  next := rfl
  handed := rfl
  key := id
  slot := by
    intro j out
    have apart : j ≠ i := by
      intro same
      rw [same] at out
      exact other out
    exact setSlot_other r s apart

theorem quiet_needKey (r : Rx) (key : Bool) (kept : r.needKey = true → key = true) :
    Quiet r { r with needKey := key } := ⟨rfl, rfl, rfl, kept, fun _ _ => rfl⟩

structure Fits (r : Rx) : Prop where
  frames : ∀ i, (r.slots i).used = true → (r.slots i).frame < 2 ^ 32 - 1
  top : r.topFrame < 2 ^ 32 - 1
  handed : ∀ i, r.handed = some i → r.started = true ∧ (r.slots i).frame < r.nextFrame

theorem Fits.setSlot (fits : Fits r) (other : r.handed ≠ some i) {s : Slot}
    (small : s.used = true → s.frame < 2 ^ 32 - 1) : Fits (r.setSlot i s) where
  frames := by
    intro j used
    by_cases here : j = i
    · subst here
      rw [setSlot_same] at used ⊢
      exact small used
    · rw [setSlot_other r s here] at used ⊢
      exact fits.frames j used
  top := fits.top
  handed := by
    intro j out
    have same := (quiet_setSlot other s).slot j out
    rw [same]
    exact fits.handed j out

theorem slotOf_spec (found : r.slotOf frame = some i) : (r.slots i).used = true ∧ (r.slots i).frame = frame := by
  have held := find?_some found
  simpa using held

theorem oldestOf_mem {among : List (Fin slotCount)} (found : r.oldestOf among = some i) : i ∈ among := by
  refine foldlRecOn (motive := fun old => ∀ i, old = some i → i ∈ among) among _ ?_ ?_ i found
  · nofun
  · intro old kept first member i chosen
    cases old with
    | none =>
      cases chosen
      exact member
    | some o =>
      dsimp only at chosen
      split at chosen
      · cases chosen
        exact member
      · exact kept i chosen

theorem slotNew_cases (r : Rx) (frame : Nat) (now : Int) : r.slotNew frame now = (none, r) ∨
      ∃ i key, r.handed ≠ some i ∧ (r.needKey = true → key = true) ∧ r.slotNew frame now =
          (some i, Rx.setSlot { r with needKey := key } i (freshSlot frame now)) := by
  cases free : r.freeSlot with
  | some i =>
    have held := find?_some free
    have other : r.handed ≠ some i := by
      have both := Bool.and_eq_true_iff.mp held
      exact of_decide_eq_true both.2
    refine .inr ⟨i, r.needKey, other, id, ?_⟩
    simp only [slotNew, free]
  | none =>
    cases old : r.oldestOf ((List.finRange slotCount).filter fun i => r.handed ≠ some i) with
    | none =>
      refine .inl ?_
      simp only [slotNew, free, old]
    | some i =>
      have member := oldestOf_mem old
      have other : r.handed ≠ some i := by
        have both := mem_filter.mp member
        exact of_decide_eq_true both.2
      by_cases newer : (r.slots i).frame > frame
      · refine .inl ?_
        simp only [slotNew, free, old, newer, if_true]
      refine .inr ⟨i, r.needKey || decide (r.started = true ∧ (r.slots i).frame ≥ r.nextFrame),
        other, fun wanted => by rw [wanted, Bool.true_or], ?_⟩
      simp only [slotNew, free, old, newer, if_false]
      by_cases lost : r.started = true ∧ (r.slots i).frame ≥ r.nextFrame
      · rw [if_pos lost, decide_eq_true lost, Bool.or_true]
      · rw [if_neg lost, decide_eq_false lost, Bool.or_false]

theorem slotNew_quiet (fits : Fits r) (small : frame < 2 ^ 32 - 1) (now : Int) :
    Quiet r (r.slotNew frame now).2 ∧ Fits (r.slotNew frame now).2 ∧
      ∀ i, (r.slotNew frame now).1 = some i → r.handed ≠ some i := by
  rcases slotNew_cases r frame now with same | ⟨i, key, other, kept, same⟩
  · rw [same]
    refine ⟨.refl r, fits, fun i none_ => ?_⟩
    cases none_
  rw [same]
  have wanted : Fits { r with needKey := key } := { fits with }
  have asked : Quiet { r with needKey := key } (Rx.setSlot { r with needKey := key } i (freshSlot frame now)) :=
    @quiet_setSlot { r with needKey := key } i other _
  refine ⟨(quiet_needKey r key kept).trans asked, wanted.setSlot other (fun _ => small), fun j taken => ?_⟩
  cases taken
  exact other

theorem noteMissing_quiet (fits : Fits r) (small : frame < 2 ^ 32 - 1) :
    Quiet r (noteMissing now r frame) ∧ Fits (noteMissing now r frame) := by
  unfold noteMissing
  split
  · obtain ⟨quiet, fits', -⟩ := slotNew_quiet fits small now
    exact ⟨quiet, fits'⟩
  · exact ⟨.refl r, fits⟩

theorem foldl_noteMissing_quiet (frames : List Nat) (fits : Fits r) (small : ∀ f ∈ frames, f < 2 ^ 32 - 1) :
    Quiet r (frames.foldl (noteMissing now) r) ∧ Fits (frames.foldl (noteMissing now) r) := by
  induction frames generalizing r with
  | nil => exact ⟨.refl r, fits⟩
  | cons first rest ih =>
    obtain ⟨quiet, fits'⟩ := @noteMissing_quiet r first now fits (small first mem_cons_self)
    obtain ⟨quiet', fits''⟩ := ih fits' fun f member => small f (mem_cons_of_mem _ member)
    exact ⟨quiet.trans quiet', fits''⟩

theorem noteGap_quiet (fits : Fits r) (small : frame < 2 ^ 32 - 1) (now : Int) :
    Quiet r (r.noteGap frame now) ∧ Fits (r.noteGap frame now) := by
  dsimp only [noteGap]
  split
  · next gap =>
    apply foldl_noteMissing_quiet _ fits
    intro f member
    have bounds := mem_range'_1.mp member
    omega
  · exact ⟨.refl r, fits⟩

theorem noteTop_quiet (fits : Fits r) (small : frame < 2 ^ 32 - 1) :
    Quiet r (r.noteTop frame) ∧ Fits (r.noteTop frame) := by
  unfold noteTop
  split
  · exact ⟨⟨rfl, rfl, rfl, id, fun _ _ => rfl⟩, fits.frames, small, fits.handed⟩
  · exact ⟨.refl r, fits⟩

theorem fill_quiet {f : Fragment} (fits : Fits r) (other : r.handed ≠ some i) (memory : Option (Nat → UInt8)) :
    Quiet r (r.fill i f memory).2 ∧ Fits (r.fill i f memory).2 := by
  have put_ {s : Slot} (used : s.used = (r.slots i).used) (named : s.frame = (r.slots i).frame) :
      Quiet r (r.setSlot i s) ∧ Fits (r.setSlot i s) := by
    refine ⟨quiet_setSlot other s, fits.setSlot other fun isUsed => ?_⟩
    rw [named]
    exact fits.frames i (used.symm.trans isUsed)
  dsimp only [fill]
  split
  · cases memory with
    | none => exact ⟨quiet_setSlot other _, fits.setSlot other nofun⟩
    | some block =>
      dsimp only
      split
      · exact put_ rfl rfl
      · exact put_ rfl rfl
  · split
    · exact ⟨.refl r, fits⟩
    split
    · exact ⟨.refl r, fits⟩
    · exact put_ rfl rfl

def Countable (body : List UInt8) : Prop := ∀ f, parse body = some f → f.frame < 2 ^ 32 - 1

instance (body : List UInt8) : Decidable (Countable body) :=
  match parsed : parse body with
  | none => isTrue fun f accepted => by
      simp [parsed] at accepted
  | some g => decidable_of_iff (g.frame < 2 ^ 32 - 1) (by
      constructor
      · intro small f accepted
        rw [parsed] at accepted
        rwa [← some.inj accepted]
      · intro small
        exact small g parsed)

theorem put_quiet {body : List UInt8} (fits : Fits r) (small : Countable body) (now : Int)
    (memory : Option (Nat → UInt8)) : Quiet r (r.put body now memory).2 ∧ Fits (r.put body now memory).2 := by
  cases parsed : parse body with
  | none =>
    simp only [put, parsed]
    exact ⟨.refl r, fits⟩
  | some f =>
    have bound := small f parsed
    simp only [put, parsed]
    split
    · exact ⟨.refl r, fits⟩
    next wanted =>
    obtain ⟨gapQuiet, gapFits⟩ := noteGap_quiet fits bound now
    obtain ⟨topQuiet, topFits⟩ := noteTop_quiet gapFits bound
    have noted := gapQuiet.trans topQuiet
    generalize (r.noteGap f.frame now).noteTop f.frame = seen at noted topFits ⊢
    cases found : seen.slotOf f.frame with
    | some i =>
      -- the frame handed out is older than any packet that gets here
      have other : seen.handed ≠ some i := by
        intro out
        obtain ⟨started, older⟩ := topFits.handed i out
        rw [(slotOf_spec found).2, noted.next] at older
        rw [noted.started] at started
        exact wanted ⟨started, older⟩
      obtain ⟨quiet, fits'⟩ := @fill_quiet seen i f topFits other memory
      exact ⟨noted.trans quiet, fits'⟩
    | none =>
      obtain ⟨newQuiet, newFits, other⟩ := slotNew_quiet topFits bound now
      have unmoved := newQuiet.handed
      generalize seen.slotNew f.frame now = made at newQuiet newFits other unmoved ⊢
      obtain ⟨slot, made⟩ := made
      cases slot with
      | none => exact ⟨noted.trans newQuiet, newFits⟩
      | some i =>
        have untouched : made.handed ≠ some i := by
          rw [show made.handed = seen.handed from unmoved]
          exact other i rfl
        obtain ⟨quiet, fits'⟩ := @fill_quiet made i f newFits untouched memory
        exact ⟨(noted.trans newQuiet).trans quiet, fits'⟩

theorem askAgain_quiet {out : List Packet} (fits : Fits r) (i : Fin slotCount) (now : Int) :
    Quiet r (askAgain now (out, r) i).2 ∧ Fits (askAgain now (out, r) i).2 := by
  dsimp only [askAgain]
  split
  · next late =>
    have other : r.handed ≠ some i := by
      simp only [overdue, Bool.and_eq_true, decide_eq_true_eq] at late
      exact late.1.1.1.1.2
    exact ⟨quiet_setSlot other _, fits.setSlot other (fits.frames i)⟩
  · exact ⟨.refl r, fits⟩

theorem foldl_askAgain_quiet (slots : List (Fin slotCount)) {out : List Packet} (fits : Fits r) (now : Int) :
    Quiet r (slots.foldl (askAgain now) (out, r)).2 ∧ Fits (slots.foldl (askAgain now) (out, r)).2 := by
  induction slots generalizing r out with
  | nil => exact ⟨.refl r, fits⟩
  | cons first rest ih =>
    obtain ⟨quiet, fits'⟩ := @askAgain_quiet r out fits first now
    obtain ⟨quiet', fits''⟩ := ih fits'
    exact ⟨quiet.trans quiet', fits''⟩

theorem giveUp_quiet (fits : Fits r) (now : Int) : Quiet r (r.giveUp now) ∧ Fits (r.giveUp now) := by
  have given (seen : Rx) (quiet : Quiet r seen) (fits' : Fits seen) :
      Quiet r { seen with needKey := true } ∧ Fits { seen with needKey := true } :=
    ⟨quiet.trans (quiet_needKey seen true fun _ => rfl), fits'.frames, fits'.top, fits'.handed⟩
  dsimp only [giveUp]
  split
  · next waiting =>
    have top := fits.top
    have small : r.nextFrame < 2 ^ 32 - 1 := by omega
    cases r.slotOf r.nextFrame with
    | some i =>
      dsimp only
      split
      · exact given r (.refl r) fits
      · exact ⟨.refl r, fits⟩
    | none =>
      obtain ⟨quiet, fits', -⟩ := slotNew_quiet fits small now
      generalize r.slotNew r.nextFrame now = made at quiet fits' ⊢
      obtain ⟨slot, made⟩ := made
      cases slot with
      | none => exact ⟨quiet, fits'⟩
      | some i =>
        dsimp only
        split
        · exact given made quiet fits'
        · exact ⟨quiet, fits'⟩
  · exact ⟨.refl r, fits⟩

theorem askKey_quiet (fits : Fits r) (now : Int) : Quiet r (r.askKey now).2 ∧ Fits (r.askKey now).2 := by
  dsimp only [askKey]
  split
  · split
    · exact ⟨⟨rfl, rfl, rfl, id, fun _ _ => rfl⟩, fits.frames, fits.top, fits.handed⟩
    · exact ⟨.refl r, fits⟩
  · exact ⟨.refl r, fits⟩

theorem poll_quiet (fits : Fits r) (now : Int) : Quiet r (r.poll now).2 ∧ Fits (r.poll now).2 := by
  have born : Quiet r (if r.bornMs < 0 then { r with bornMs := now } else r) ∧
      Fits (if r.bornMs < 0 then { r with bornMs := now } else r) := by
    split
    · exact ⟨⟨rfl, rfl, rfl, id, fun _ _ => rfl⟩, fits.frames, fits.top, fits.handed⟩
    · exact ⟨.refl r, fits⟩
  dsimp only [poll]
  generalize (if r.bornMs < 0 then { r with bornMs := now } else r) = alive at born ⊢
  have asked := @foldl_askAgain_quiet alive (List.finRange slotCount) [] born.2 now
  have given := giveUp_quiet asked.2 now
  have keyed := askKey_quiet given.2 now
  exact ⟨((born.1.trans asked.1).trans given.1).trans keyed.1, keyed.2⟩

theorem used_of_complete (whole : (r.slots i).complete = true) : (r.slots i).used = true := by
  simp only [Slot.complete, Bool.and_eq_true] at whole
  exact whole.1.1

theorem dropHanded_fits (fits : Fits r) : Fits r.dropHanded := by
  cases out : r.handed with
  | none =>
    simp only [dropHanded, out]
    exact fits
  | some i =>
    simp only [dropHanded, out]
    refine ⟨?_, fits.top, nofun⟩
    intro j used
    by_cases here : j = i
    · subst here
      simp only [slotDrop, setSlot_same] at used
      cases used
    · simp only [slotDrop, setSlot_other r noSlot here] at used ⊢
      exact fits.frames j used

theorem dropHanded_eq (r : Rx) : ∃ slots, r.dropHanded = { r with handed := none, slots } := by
  cases out : r.handed with
  | none =>
    refine ⟨r.slots, ?_⟩
    simp only [dropHanded, out]
    rw [← out]
  | some i => exact ⟨_, by simp only [dropHanded, out]; rfl⟩

inductive NextEnd (r : Rx) : Option HandedOut × Rx → Prop where
  | nothing {after : Rx} (started : after.started = r.started)
      (next : after.nextFrame = r.nextFrame) (key : after.needKey = r.needKey) :
      NextEnd r (none, after)
  | inOrder {out : HandedOut} {after : Rx} (wasStarted : r.started = true)
      (following : r.needKey = false) (number : out.frame = r.nextFrame)
      (started : after.started = true) (next : after.nextFrame = out.frame + 1) :
      NextEnd r (some out, after)
  | keyframe {out : HandedOut} {after : Rx} (key : out.keyframe = true)
      (number : r.started = true → r.nextFrame ≤ out.frame)
      (started : after.started = true) (next : after.nextFrame = out.frame + 1) :
      NextEnd r (some out, after)

theorem handOut_fits (fits : Fits r) (started : r.started = true) (used : (r.slots i).used = true) :
    Fits (r.handOut i).2 ∧ (r.handOut i).2.nextFrame = (r.slots i).frame + 1 := by
  have small := fits.frames i used
  have unwrapped : ((r.slots i).frame + 1) % 2 ^ 32 = (r.slots i).frame + 1 := Nat.mod_eq_of_lt (by omega)
  refine ⟨⟨fits.frames, fits.top, fun j out => ?_⟩, unwrapped⟩
  cases out
  refine ⟨started, ?_⟩
  show (r.slots i).frame < ((r.slots i).frame + 1) % 2 ^ 32
  omega

theorem startAt_fits (fits : Fits r) (free : r.handed = none) (i : Fin slotCount) : Fits (r.startAt i) := by
  refine ⟨fun j used => ?_, fits.top, fun j out => ?_⟩
  · dsimp only [startAt] at used ⊢
    split at used
    · cases used
    next kept =>
    rw [if_neg kept]
    exact fits.frames j used
  · rw [show (r.startAt i).handed = r.handed from rfl, free] at out
    cases out

theorem startAt_self (r : Rx) (i : Fin slotCount) : (r.startAt i).slots i = r.slots i := by
  simp [startAt]

theorem next_cases (fits : Fits r) : NextEnd r r.next ∧ Fits r.next.2 := by
  obtain ⟨slots, dropped⟩ := dropHanded_eq r
  have left := dropHanded_fits fits
  have free : r.dropHanded.handed = none := by rw [dropped]
  have started_ : r.dropHanded.started = r.started := by rw [dropped]
  have next_ : r.dropHanded.nextFrame = r.nextFrame := by rw [dropped]
  have key_ : r.dropHanded.needKey = r.needKey := by rw [dropped]
  dsimp only [next]
  generalize r.dropHanded = seen at left free started_ next_ key_ ⊢
  cases order : seen.inOrder with
  | some i =>
    unfold inOrder at order
    split at order
    · next following =>
      rw [Bool.and_eq_true, Bool.not_eq_true'] at following
      obtain ⟨found, whole⟩ := filter_eq_some_iff.mp order
      obtain ⟨used, number⟩ := slotOf_spec found
      obtain ⟨fits', nextFrame⟩ := handOut_fits left following.1 used
      refine ⟨.inOrder ?_ ?_ ?_ following.1 nextFrame, fits'⟩
      · rw [← started_, following.1]
      · rw [← key_, following.2]
      · rw [← next_, ← number]
        rfl
    · cases order
  | none =>
    cases oldest : seen.oldestOf seen.keySlots with
    | none => exact ⟨.nothing started_ next_ key_, left⟩
    | some i =>
      have member := (mem_filter.mp (oldestOf_mem oldest)).2
      simp only [Bool.and_eq_true, Bool.not_eq_true', Bool.and_eq_false_iff, decide_eq_false_iff_not] at member
      obtain ⟨⟨whole, keyframe⟩, ahead⟩ := member
      have restarted := startAt_fits left free i
      have used : ((seen.startAt i).slots i).used = true := by
        rw [startAt_self]
        exact used_of_complete whole
      obtain ⟨fits', nextFrame⟩ := handOut_fits restarted rfl used
      refine ⟨.keyframe ?_ ?_ rfl nextFrame, fits'⟩
      · show ((seen.startAt i).slots i).keyframe = true
        rw [startAt_self]
        exact keyframe
      · intro started
        show r.nextFrame ≤ ((seen.startAt i).slots i).frame
        rw [startAt_self]
        rcases ahead with unstarted | later
        · rw [started_, started] at unstarted
          cases unstarted
        · omega

end Rx

inductive Call where
  | put (body : List UInt8) (now : Int) (memory : Option (Nat → UInt8))
  | next
  | poll (now : Int)
  | needKey

inductive Entry where
  | handed (frame : Nat) (keyframe : Bool)
  | needKey
  deriving DecidableEq

structure Watching where
  rx : Rx
  log : List Entry

def Watching.step (w : Watching) : Call → Option Watching
  | .put body now memory => some { w with rx := (w.rx.put body now memory).2 }
  | .poll now => some { w with rx := (w.rx.poll now).2 }
  | .needKey => some { rx := w.rx.needKeyframe, log := w.log ++ [.needKey] }
  | .next =>
    match w.rx.next with
    | (none, rx) => some { w with rx }
    | (some out, rx) => some { rx, log := w.log ++ [.handed out.frame out.keyframe] }

def Call.Countable : Call → Prop
  | .put body _ _ => Rx.Countable body
  | _ => True

instance (call : Call) : Decidable call.Countable :=
  match call with
  | .put body _ _ => inferInstanceAs (Decidable (Rx.Countable body))
  | .next | .poll _ | .needKey => isTrue trivial

def Entry.frame? : Entry → Option (Nat × Bool)
  | .handed frame keyframe => some (frame, keyframe)
  | .needKey => none

structure Watching.Follows (w : Watching) : Prop where
  fits : w.rx.Fits
  started : w.rx.started = false → w.log.filterMap Entry.frame? = []
  past : ∀ out ∈ w.log.filterMap Entry.frame?, out.1 < w.rx.nextFrame
  latest : w.rx.started = true → w.rx.needKey = false →
    ∃ earlier previous key, w.log = earlier ++ [.handed previous key] ∧ previous + 1 = w.rx.nextFrame
  ordered : (w.log.filterMap Entry.frame?).Pairwise fun a b => a.1 < b.1
  first : ∀ out rest, w.log.filterMap Entry.frame? = out :: rest → out.2 = true
  refers : ∀ before frame after, w.log = before ++ .handed frame false :: after →
    ∃ earlier previous key, before = earlier ++ [.handed previous key] ∧ frame = previous + 1

theorem snoc_split {log before after : List Entry} {last entry : Entry}
    (same : log ++ [last] = before ++ entry :: after) :
    (∃ rest, log = before ++ entry :: rest) ∨ (before = log ∧ entry = last) := by
  rcases eq_nil_or_concat after with rfl | ⟨rest, final, rfl⟩
  · obtain ⟨front, back⟩ := append_inj' same rfl
    exact .inr ⟨front.symm, (singleton_inj.mp back).symm⟩
  have regrouped : log ++ [last] = (before ++ entry :: rest) ++ [final] := by
    rw [same, append_assoc]
    simp
  exact .inl ⟨rest, (append_inj' regrouped rfl).1⟩

namespace Watching

variable {w : Watching} {rx : Rx} (follows : Follows w)

include follows

theorem Follows.quiet (quiet : w.rx.Quiet rx) (fits : rx.Fits) : Follows { w with rx } where
  __ := follows
  fits := fits
  started := by
    rw [quiet.started]
    exact follows.started
  past := by
    rw [quiet.next]
    exact follows.past
  latest := by
    intro started following
    rw [quiet.next]
    apply follows.latest (quiet.started.symm.trans started)
    cases wanted : w.rx.needKey with
    | false => rfl
    | true =>
      rw [show rx.needKey = true from quiet.key wanted] at following
      cases following

theorem Follows.needKey : Follows { rx := w.rx.needKeyframe, log := w.log ++ [.needKey] } where
  fits := { follows.fits with }
  started := by
    intro unstarted
    rw [filterMap_append, follows.started unstarted]
    rfl
  past := by
    rw [filterMap_append, filterMap_cons_none rfl, filterMap_nil, append_nil]
    exact follows.past
  latest := by
    intro _ following
    cases following
  ordered := by
    rw [filterMap_append, filterMap_cons_none rfl, filterMap_nil, append_nil]
    exact follows.ordered
  first := by
    rw [filterMap_append, filterMap_cons_none rfl, filterMap_nil, append_nil]
    exact follows.first
  refers := by
    intro before frame after same
    rcases snoc_split same with ⟨rest, earlier⟩ | ⟨-, impossible⟩
    · exact follows.refers before frame rest earlier
    · cases impossible

theorem Follows.handed {frame : Nat} {keyframe : Bool} (fits : rx.Fits)
    (started : rx.started = true) (next : rx.nextFrame = frame + 1)
    (newer : w.rx.started = true → w.rx.nextFrame ≤ frame)
    (refers : keyframe = false → ∃ earlier previous key,
      w.log = earlier ++ [.handed previous key] ∧ frame = previous + 1) :
    Follows { rx, log := w.log ++ [.handed frame keyframe] } := by
  have single : (w.log ++ [Entry.handed frame keyframe]).filterMap Entry.frame? =
      w.log.filterMap Entry.frame? ++ [(frame, keyframe)] := by
    rw [filterMap_append]
    rfl
  have older : ∀ out ∈ w.log.filterMap Entry.frame?, out.1 < frame := by
    intro out member
    cases begun : w.rx.started with
    | false =>
      simp [follows.started begun] at member
    | true => exact (follows.past out member).trans_le (newer begun)
  refine ⟨fits, ?_, ?_, ?_, ?_, ?_, ?_⟩
  · intro unstarted
    rw [show rx.started = false from unstarted] at started
    cases started
  · intro out member
    rw [single] at member
    rw [show rx.nextFrame = frame + 1 from next]
    rcases mem_append.mp member with earlier | last
    · exact (older out earlier).trans (Nat.lt_succ_self frame)
    · rw [mem_singleton.mp last]
      exact Nat.lt_succ_self frame
  · intro _ _
    exact ⟨w.log, frame, keyframe, rfl, next.symm⟩
  · rw [single, pairwise_append]
    refine ⟨follows.ordered, pairwise_singleton _ _, ?_⟩
    intro out earlier last member
    rw [mem_singleton.mp member]
    exact older out earlier
  · intro out rest same
    rw [single] at same
    cases begun : w.log.filterMap Entry.frame? with
    | cons head tail =>
      rw [begun] at same
      rw [← (List.cons.inj same).1]
      exact follows.first head tail begun
    | nil =>
      rw [begun] at same
      rw [← (List.cons.inj same).1]
      cases isKey : keyframe with
      | true => rfl
      | false =>
        obtain ⟨earlier, previous, key, log, -⟩ := refers isKey
        rw [log, filterMap_append] at begun
        have impossible := append_eq_nil_iff.mp begun
        cases impossible.2
  · intro before number after same
    rcases snoc_split same with ⟨rest, earlier⟩ | ⟨front, last⟩
    · exact follows.refers before number rest earlier
    cases last
    rw [front]
    exact refers rfl

theorem Follows.step {call : Call} {after : Watching}
    (countable : call.Countable) (taken : w.step call = some after) : Follows after := by
  cases call with
  | put body now memory =>
    obtain ⟨quiet, fits⟩ := Rx.put_quiet follows.fits countable now memory
    rw [← some.inj taken]
    exact follows.quiet quiet fits
  | poll now =>
    obtain ⟨quiet, fits⟩ := Rx.poll_quiet follows.fits now
    rw [← some.inj taken]
    exact follows.quiet quiet fits
  | needKey =>
    cases taken
    exact follows.needKey
  | next =>
    obtain ⟨ended, fits⟩ := Rx.next_cases follows.fits
    dsimp only [Watching.step] at taken
    generalize w.rx.next = result at ended fits taken
    cases ended with
    | nothing started next key =>
      cases taken
      refine ⟨fits, ?_, ?_, ?_, follows.ordered, follows.first, follows.refers⟩
      · rw [show _ = w.rx.started from started]
        exact follows.started
      · rw [show _ = w.rx.nextFrame from next]
        exact follows.past
      · rw [show _ = w.rx.started from started, show _ = w.rx.needKey from key, show _ = w.rx.nextFrame from next]
        exact follows.latest
    | inOrder wasStarted following number started next =>
      cases taken
      refine follows.handed fits started next (fun _ => number.ge) fun _ => ?_
      obtain ⟨earlier, previous, key, log, last⟩ := follows.latest wasStarted following
      exact ⟨earlier, previous, key, log, number.trans last.symm⟩
    | keyframe key number started next =>
      cases taken
      refine follows.handed fits started next number fun other => ?_
      simp [key] at other

omit follows

def start (sharer : Nat) : Watching := ⟨rxInit sharer, []⟩

theorem start_follows (sharer : Nat) : Follows (start sharer) where
  fits := ⟨fun _ used => (Bool.false_ne_true used).elim, Nat.zero_lt_succ _, nofun⟩
  started := fun _ => rfl
  past := nofun
  latest := fun started => (Bool.false_ne_true started).elim
  ordered := List.Pairwise.nil
  first := nofun
  refers := fun before _ _ same => by
    have length := congrArg List.length same
    simp [start] at length

theorem follows_of_run {sharer : Nat} {calls : List Call}
    (run : Machine.Run Watching.step (fun _ call => call.Countable) (start sharer) calls w) : Follows w :=
  run.invariant (fun _ => Follows) (start_follows sharer)
    fun _ _ _ _ follows countable taken => follows.step countable taken

end Watching

theorem share_viewer_never_misses_a_reference (sharer : Nat) (calls : List Call) (w : Watching)
    (run : Machine.Run Watching.step (fun _ call => call.Countable) (Watching.start sharer) calls w) :
    ((w.log.filterMap Entry.frame?).map Prod.fst).Pairwise (· < ·) ∧
      (∀ out rest, w.log.filterMap Entry.frame? = out :: rest → out.2 = true) ∧
      (∀ before frame after, w.log = before ++ .handed frame false :: after →
        ∃ earlier previous key, before = earlier ++ [.handed previous key] ∧ frame = previous + 1) ∧
      ∀ call after i, call ≠ .next → call.Countable → w.step call = some after →
        w.rx.handed = some i → after.rx.handed = some i ∧ after.rx.slots i = w.rx.slots i := by
  have follows := Watching.follows_of_run run
  refine ⟨pairwise_map.mpr follows.ordered, follows.first, follows.refers, ?_⟩
  intro call after i other countable taken out
  have quiet : w.rx.Quiet after.rx := by
    cases call with
    | put body now memory =>
      have quiet := (Rx.put_quiet follows.fits countable now memory).1
      rw [← some.inj taken]
      exact quiet
    | poll now =>
      have quiet := (Rx.poll_quiet follows.fits now).1
      have same : { w with rx := (w.rx.poll now).2 } = after := some.inj taken
      rw [← same]
      dsimp only
      exact quiet
    | needKey =>
      cases taken
      exact Rx.quiet_needKey w.rx true fun _ => rfl
    | next => exact absurd rfl other
  exact ⟨quiet.handed.trans out, quiet.slot i out⟩

theorem share_viewer_never_misses_a_reference_restarted :
    ∃ calls w, Machine.Run Watching.step (fun _ call => call.Countable) (Watching.start 1) calls w ∧
      w.log = [.handed 5 true, .needKey, .handed 7 true, .handed 8 false] ∧
      ((w.log.filterMap Entry.frame?).map Prod.fst).Pairwise (· < ·) := by
  let packet (number : Nat) (keyframe : Bool) : Call :=
    .put ((Frame.packet ⟨number, [9], keyframe, 2, 2⟩ 0).drop 1) 0 (some fun _ => 0)
  let calls := [packet 5 true, .next, .needKey, packet 6 false, packet 7 true, packet 8 false, .next, .next]
  have followed : (Machine.follow Watching.step (fun _ call => decide call.Countable)
      (Watching.start 1) calls).map Watching.log =
        some [.handed 5 true, .needKey, .handed 7 true, .handed 8 false] := by
    decide +kernel
  obtain ⟨w, reached, log⟩ := map_eq_some_iff.mp followed
  have run : Machine.Run Watching.step (fun _ call => call.Countable) (Watching.start 1)
      ([] ++ calls) w := Machine.Run.nil.of_follow (fun _ _ => of_decide_eq_true) reached
  exact ⟨_, w, run, log, (share_viewer_never_misses_a_reference 1 _ w run).1⟩

end OpenChime.Client.Share
