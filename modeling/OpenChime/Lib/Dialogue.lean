import Mathlib.Order.Basic

/-! Computations that ask their surroundings questions and go on with the answers, while the
surroundings move on. What such a computation comes to is judged against a world that only
grows: an answer is right for the world as it is when it is given. -/

set_option autoImplicit false

namespace Dialogue

inductive Talk {Ask : Type} (Answer : Ask → Type) (α : Type) : Type where
  | done (result : α)
  | call (question : Ask) (next : Answer question → Talk Answer α)

variable {Ask : Type} {Answer : Ask → Type} {α β σ : Type}

def Talk.bind : Talk Answer α → (α → Talk Answer β) → Talk Answer β
  | .done result, f => f result
  | .call question next, f => .call question fun answer => (next answer).bind f

def Work (Answer : Ask → Type) (σ α : Type) : Type := σ → Talk Answer (Option α × σ)

def Work.andThen (f : α → Work Answer σ β) (ended : Option α × σ) : Talk Answer (Option β × σ) :=
  match ended.1 with
  | none => .done (none, ended.2)
  | some result => f result ended.2

instance : Monad (Work Answer σ) where
  pure result := fun state => .done (some result, state)
  bind work f := fun state => (work state).bind (Work.andThen f)

def Work.fail : Work Answer σ α := fun state => .done (none, state)

def Work.ask (question : Ask) : Work Answer σ (Answer question) :=
  fun state => .call question fun answer => .done (some answer, state)

def Work.get : Work Answer σ σ := fun state => .done (some state, state)

def Work.set (state : σ) : Work Answer σ Unit := fun _ => .done (some (), state)

section

variable {World : Type} [Preorder World] (Right : World → (question : Ask) → Answer question → Prop)

/-- However the world grows between the questions, and whatever right answers they get, the
result meets `post` from then on. -/
def Talk.Sound (post : World → α → Prop) : Talk Answer α → World → Prop
  | .done result, world => ∀ later, world ≤ later → post later result
  | .call question next, world =>
    ∀ later, world ≤ later → ∀ answer, Right later question answer → (next answer).Sound post later

variable {Right}

variable {talk : Talk Answer α}

theorem Talk.Sound.mono {post : World → α → Prop} {world later : World} (grown : world ≤ later)
    (sound : talk.Sound Right post world) : talk.Sound Right post later := by
  cases talk with
  | done result => exact fun after longer => sound after (grown.trans longer)
  | call question next => exact fun after longer => sound after (grown.trans longer)

theorem Talk.Sound.bind {mid : World → α → Prop} {post : World → β → Prop} {f : α → Talk Answer β}
    {world : World} (first : talk.Sound Right mid world)
    (second : ∀ later, world ≤ later → ∀ result, (∀ after, later ≤ after → mid after result) →
      (f result).Sound Right post later) : (talk.bind f).Sound Right post world := by
  induction talk generalizing world with
  | done result => exact second world le_rfl result first
  | call question next ih =>
    intro later grown answer right
    exact ih answer (first later grown answer right) (fun after longer => second after (grown.trans longer))

theorem Talk.Sound.weaken {post post' : World → α → Prop} {world : World} (sound : talk.Sound Right post world)
    (weaker : ∀ later, world ≤ later → ∀ result, post later result → post' later result) :
    talk.Sound Right post' world := by
  induction talk generalizing world with
  | done result => exact fun later grown => weaker later grown result (sound later grown)
  | call question next ih =>
    intro later grown answer right
    exact ih answer (sound later grown answer right) (fun after longer => weaker after (grown.trans longer))

end

section

variable {World : Type} [Preorder World] [Preorder σ]
  (Right : World → (question : Ask) → Answer question → Prop) (keeps : World → σ → Prop)

/-- The state only grows and keeps its invariant, also when the work fails; a result meets
`post`. -/
def Work.Sound (post : World → σ → α → Prop) (work : Work Answer σ α) (world : World) (state : σ) :
    Prop :=
  (work state).Sound Right (fun later ended => state ≤ ended.2 ∧ keeps later ended.2 ∧
      ∀ result, ended.1 = some result → post later ended.2 result) world

variable {Right keeps} {world : World} {state : σ} {post : World → σ → α → Prop}
  (kept : ∀ later, world ≤ later → keeps later state)

include kept

theorem Work.Sound.pure {result : α} (holds : ∀ later, world ≤ later → post later state result) :
    Work.Sound Right keeps post (Pure.pure result) world state := by
  intro later grown
  refine ⟨le_rfl, kept later grown, ?_⟩
  rintro _ ⟨⟩
  exact holds later grown

theorem Work.Sound.fail : Work.Sound Right keeps post Work.fail world state := by
  intro later grown
  refine ⟨le_rfl, kept later grown, ?_⟩
  rintro _ ⟨⟩

omit kept

variable {work : Work Answer σ α}

theorem Work.Sound.bind {mid : World → σ → α → Prop} {post : World → σ → β → Prop} {f : α → Work Answer σ β}
    (first : Work.Sound Right keeps mid work world state)
    (second : ∀ later, world ≤ later → ∀ after, state ≤ after → keeps later after →
      ∀ result, mid later after result → Work.Sound Right keeps post (f result) later after) :
    Work.Sound Right keeps post (work >>= f) world state := by
  refine Talk.Sound.bind first ?_
  rintro later grown ⟨ended, after⟩ held
  cases ended with
  | none => exact fun last longer => ⟨(held last longer).1, (held last longer).2.1, by rintro _ ⟨⟩⟩
  | some result =>
    obtain ⟨further, kept, holds⟩ := held later le_rfl
    refine Talk.Sound.weaken (second later grown after further kept result (holds result rfl)) ?_
    rintro last _ ended ⟨longer, kept, holds⟩
    exact ⟨further.trans longer, kept, holds⟩

theorem Work.Sound.ask {question : Ask} {post : World → σ → Answer question → Prop}
    (kept : ∀ later, world ≤ later → keeps later state)
    (holds : ∀ later, world ≤ later → ∀ answer, Right later question answer →
      ∀ after, later ≤ after → post after state answer) :
    Work.Sound Right keeps post (Work.ask question) world state := by
  intro later grown answer right last longer
  refine ⟨le_rfl, kept last (grown.trans longer), ?_⟩
  rintro _ ⟨⟩
  exact holds later grown answer right last longer

theorem Work.Sound.get {post : World → σ → σ → Prop} (kept : ∀ later, world ≤ later → keeps later state)
    (holds : ∀ later, world ≤ later → post later state state) : Work.Sound Right keeps post Work.get world state := by
  intro later grown
  refine ⟨le_rfl, kept later grown, ?_⟩
  rintro _ ⟨⟩
  exact holds later grown

theorem Work.Sound.set {post : World → σ → Unit → Prop} {next : σ} (further : state ≤ next)
    (kept : ∀ later, world ≤ later → keeps later next) (holds : ∀ later, world ≤ later → post later next ()) :
    Work.Sound Right keeps post (Work.set next) world state := by
  intro later grown
  refine ⟨further, kept later grown, ?_⟩
  rintro _ ⟨⟩
  exact holds later grown

theorem Work.Sound.weaken {post' : World → σ → α → Prop} (sound : Work.Sound Right keeps post work world state)
    (weaker : ∀ later, world ≤ later → ∀ after, state ≤ after → ∀ result,
      post later after result → post' later after result) :
    Work.Sound Right keeps post' work world state := by
  refine Talk.Sound.weaken sound ?_
  rintro later grown ended ⟨further, kept, holds⟩
  exact ⟨further, kept, fun result same => weaker later grown _ further result (holds result same)⟩

end

end Dialogue
