import OpenChime.Daemon.SumWorker

/-! What the nodes of a build rest on. Whatever the writer does between the worker's questions, a
node that is made names inputs that account for every message text it was made of: a message with
the stamp under which that body was on record, a stored node made of that text, or an earlier node
of the same build made of it. The facts are about what has been on record at some time, so nothing
the writer does later undoes them. -/

set_option autoImplicit false

namespace OpenChime.Daemon.Summary

open OpenChime.Shared Dialogue List Work.Sound

variable {Key : Type}

structure Record (Key : Type) where
  -- A message, the stamp it had and its body under that stamp.
  wrote : Set (Nat × Int × Text)
  -- A message and its channel.
  home : Set (Nat × Nat)
  stored : Set (Node Key)

instance : Preorder (Record Key) where
  le a b := a.wrote ⊆ b.wrote ∧ a.home ⊆ b.home ∧ a.stored ⊆ b.stored
  le_refl _ := ⟨subset_rfl, subset_rfl, subset_rfl⟩
  le_trans _ _ _ first second := ⟨first.1.trans second.1, first.2.1.trans second.2.1, first.2.2.trans second.2.2⟩

section Keys

variable (ikey : KeyOf Key → Key) (record : Record Key) (channel : Nat)

/-- The key is made of messages of this channel only, and of at least one. -/
inductive Record.Belongs : KeyOf Key → Prop where
  | chunk {inputs : List (Nat × Int)} (some : inputs ≠ [])
      (each : ∀ i ∈ inputs, (i.1, channel) ∈ record.home) : Belongs (.chunk inputs)
  | part {message : Nat} {stamp : Int} {k n : Nat} (isHome : (message, channel) ∈ record.home) :
      Belongs (.part message stamp k n)
  | kids {kind : NodeKind} {keys : List Key} {dated : Option Int} (origin : Key → KeyOf Key)
      (some : keys ≠ []) (made : ∀ key ∈ keys, key = ikey (origin key))
      (each : ∀ key ∈ keys, Belongs (origin key)) : Belongs (.kids kind keys dated)

def Record.KeyIn (key : Key) : Prop := ∃ origin, key = ikey origin ∧ record.Belongs ikey channel origin

def Record.KeyOk (kind : NodeKind) (key : Key) : Prop :=
  if kind = .period then ∃ inputs start stop zone, key = ikey (.period inputs start stop zone)
  else record.KeyIn ikey channel key

structure Record.Sound : Prop where
  homes : ∀ m c c', (m, c) ∈ record.home → (m, c') ∈ record.home → c = c'
  keyed : ∀ n ∈ record.stored, record.KeyOk ikey n.channel n.kind n.key

end Keys

def World (ikey : KeyOf Key → Key) : Type := { record : Record Key // record.Sound ikey }

instance (ikey : KeyOf Key → Key) : Preorder (World ikey) :=
  inferInstanceAs (Preorder { record : Record Key // record.Sound ikey })

section

variable {ikey : KeyOf Key → Key} {record later : Record Key} {channel : Nat} (grown : record ≤ later)

include grown

theorem Record.Belongs.mono {origin : KeyOf Key}
    (belongs : record.Belongs ikey channel origin) : later.Belongs ikey channel origin := by
  induction belongs with
  | chunk some each => exact .chunk some fun i mem => grown.2.1 (each i mem)
  | part isHome => exact .part (grown.2.1 isHome)
  | kids origin some made _ ih => exact .kids origin some made ih

theorem Record.KeyIn.mono {key : Key} (keyIn : record.KeyIn ikey channel key) : later.KeyIn ikey channel key := by
  obtain ⟨origin, same, belongs⟩ := keyIn
  exact ⟨origin, same, belongs.mono grown⟩

theorem Record.KeyOk.mono {kind : NodeKind} {key : Key}
    (keyOk : record.KeyOk ikey channel kind key) : later.KeyOk ikey channel kind key := by
  unfold Record.KeyOk at keyOk ⊢
  split
  · next isPeriod =>
    rwa [if_pos isPeriod] at keyOk
  next notPeriod =>
  rw [if_neg notPeriod] at keyOk
  exact keyOk.mono grown

omit grown

theorem Record.Belongs.channel_eq (distinct : Function.Injective ikey) (sound : record.Sound ikey)
    {channel' : Nat} {origin : KeyOf Key} (belongs : record.Belongs ikey channel origin)
    (other : record.Belongs ikey channel' origin) : channel = channel' := by
  induction belongs with
  | @chunk inputs some each =>
    cases other with
    | chunk _ each' =>
      obtain ⟨i, mem⟩ := exists_mem_of_ne_nil inputs some
      exact sound.homes _ _ _ (each i mem) (each' i mem)
  | part isHome =>
    cases other with
    | part isHome' => exact sound.homes _ _ _ isHome isHome'
  | @kids kind keys dated origin some made each ih =>
    cases other with
    | kids origin' _ made' each' =>
      obtain ⟨key, mem⟩ := exists_mem_of_ne_nil keys some
      have same : origin key = origin' key := distinct ((made key mem).symm.trans (made' key mem))
      exact ih key mem (same ▸ each' key mem)

structure MsgOk (record : Record Key) (channel : Nat) (m : SumMsg) : Prop where
  wrote : (m.id, m.edited, m.body) ∈ record.wrote
  home : (m.id, channel) ∈ record.home

structure WindowOk (record : Record Key) (channel : Nat) (w : SumWindow) : Prop where
  each : ∀ m ∈ w.msgs, MsgOk record channel m
  single : ∀ m ∈ w.msgs, ∀ m' ∈ w.msgs, m.id = m'.id → m = m'

def Right (world : World ikey) : (question : Question Key) → Reply question → Prop
  | .key key _, answer => ∀ n : Node Key, answer = some n → n ∈ world.1.stored ∧ n.key = key
  | .window channel _ _, window => WindowOk world.1 channel window
  | .period .., _ => True
  | .anchor .., _ => True
  | .model _, _ => True

structure RefOk (ikey : KeyOf Key → Key) (record : Record Key) (channel : Nat) (b : Build Key)
    (r : Ref Key) : Prop where
  keyed : record.KeyIn ikey channel r.key
  made : r.isNew = true → ∃ x, b.nodes[r.id]? = some x ∧ x.texts = r.texts
  stored : r.isNew = false → ∃ n ∈ record.stored, n.id = r.id ∧ n.channel = channel ∧ n.texts = r.texts

/-- An input of the node made at `index`. -/
def InputOk (record : Record Key) (channel index : Nat) : Input → Prop
  | .message .. => True
  | .node id => ∃ n ∈ record.stored, n.id = id ∧ n.channel = channel
  | .made earlier => earlier < index

def Backs (record : Record Key) (nodes : List (NewNode Key)) (shown : Nat × Text) : Input → Prop
  | .message id stamp => id = shown.1 ∧ (id, stamp, shown.2) ∈ record.wrote
  | .node id => ∃ n ∈ record.stored, n.id = id ∧ shown ∈ n.texts
  | .made earlier => ∃ x, nodes[earlier]? = some x ∧ shown ∈ x.texts

structure NewOk (ikey : KeyOf Key → Key) (record : Record Key) (channel : Nat)
    (nodes : List (NewNode Key)) (index : Nat) (x : NewNode Key) : Prop where
  keyed : record.KeyOk ikey channel x.kind x.key
  inputs : ∀ i ∈ x.inputs, InputOk record channel index i
  backed : ∀ shown ∈ x.texts, ∃ i ∈ x.inputs, Backs record nodes shown i

def BuildOk (ikey : KeyOf Key → Key) (record : Record Key) (channel : Nat) (b : Build Key) : Prop :=
  ∀ index x, b.nodes[index]? = some x → NewOk ikey record channel b.nodes index x

variable {b further : Build Key}

variable {x : NewNode Key} {nodes nodes' : List (NewNode Key)}

theorem getElem?_of_prefix (longer : nodes <+: nodes')
    {index : Nat} (here : nodes[index]? = some x) : nodes'[index]? = some x := by
  obtain ⟨more, rfl⟩ := longer
  rw [getElem?_append_left (List.getElem?_eq_some_iff.mp here).1]
  exact here

variable (grown : record ≤ later)

include grown

theorem MsgOk.mono {m : SumMsg} (ok : MsgOk record channel m) : MsgOk later channel m :=
  ⟨grown.1 ok.wrote, grown.2.1 ok.home⟩

theorem RefOk.mono {r : Ref Key} (longer : b ≤ further)
    (ok : RefOk ikey record channel b r) : RefOk ikey later channel further r where
  keyed := ok.keyed.mono grown
  made isNew := by
    obtain ⟨x, here, same⟩ := ok.made isNew
    exact ⟨x, getElem?_of_prefix longer here, same⟩
  stored notNew := by
    obtain ⟨n, isStored, rest⟩ := ok.stored notNew
    exact ⟨n, grown.2.2 isStored, rest⟩

theorem NewOk.mono {index : Nat} (longer : nodes <+: nodes') (ok : NewOk ikey record channel nodes index x) :
    NewOk ikey later channel nodes' index x where
  keyed := ok.keyed.mono grown
  inputs i mem := by
    have here := ok.inputs i mem
    cases i with
    | message id stamp => trivial
    | node id =>
      obtain ⟨n, isStored, rest⟩ := here
      exact ⟨n, grown.2.2 isStored, rest⟩
    | made earlier => exact here
  backed shown mem := by
    obtain ⟨i, isInput, backs⟩ := ok.backed shown mem
    refine ⟨i, isInput, ?_⟩
    cases i with
    | message id stamp => exact ⟨backs.1, grown.1 backs.2⟩
    | node id =>
      obtain ⟨n, isStored, rest⟩ := backs
      exact ⟨n, grown.2.2 isStored, rest⟩
    | made earlier =>
      obtain ⟨y, here, rest⟩ := backs
      exact ⟨y, getElem?_of_prefix longer here, rest⟩

theorem BuildOk.mono (ok : BuildOk ikey record channel b) : BuildOk ikey later channel b :=
  fun index x here => (ok index x here).mono grown (prefix_refl b.nodes)

omit grown

theorem BuildOk.append (ok : BuildOk ikey record channel b) (new : NewOk ikey record channel b.nodes b.nodes.length x) :
    BuildOk ikey record channel { nodes := b.nodes ++ [x] } := by
  intro index y here
  have longer : b.nodes <+: b.nodes ++ [x] := prefix_append _ _
  rw [getElem?_append] at here
  split at here
  · exact (ok index y here).mono le_rfl longer
  next past =>
  rw [getElem?_singleton] at here
  split at here
  · next first =>
    cases here
    rw [show index = b.nodes.length by omega]
    exact new.mono le_rfl longer
  · cases here

end

section Steps

variable {ikey : KeyOf Key → Key} {channel : Nat} {world : World ikey} {state : Build Key} {α : Type}

/-- The work keeps the build as it should be, whatever happens between its questions. -/
abbrev Keeps (ikey : KeyOf Key → Key) (channel : Nat) (post : World ikey → Build Key → α → Prop)
    (work : Building Key α) (world : World ikey) (state : Build Key) : Prop :=
  Work.Sound Right (fun world b => BuildOk ikey world.1 channel b) post work world state

abbrev Gives (ikey : KeyOf Key → Key) (channel : Nat) (work : Building Key (Ref Key)) (world : World ikey)
    (state : Build Key) : Prop :=
  Keeps ikey channel (fun later after r => RefOk ikey later.1 channel after r) work world state

theorem BuildOk.later (kept : BuildOk ikey world.1 channel state) :
    ∀ later : World ikey, world ≤ later → BuildOk ikey later.1 channel state :=
  fun _ grown => kept.mono grown

theorem askFor_sound (question : Question Key) (post : World ikey → Reply question → Prop)
    (kept : BuildOk ikey world.1 channel state)
    (holds : ∀ later, world ≤ later → ∀ answer, Right later question answer →
      ∀ after, later ≤ after → post after answer) :
    Keeps ikey channel (fun later _ answer => post later answer) (askFor question) world state := by
  exact ask kept.later holds

theorem answerOf_sound {prompt : Prompt Key} (kept : BuildOk ikey world.1 channel state) :
    Keeps ikey channel (fun _ _ _ => True) (answerOf prompt) world state := by
  have asked := askFor_sound (.model prompt) (fun _ _ => True) kept (fun _ _ _ _ _ _ => trivial)
  refine bind asked ?_
  intro later _ after _ kept answer _
  cases answer with
  | none => exact fail kept.later
  | some body => exact pure kept.later (fun _ _ => trivial)

variable {x : NewNode Key} {r : Ref Key} {kids : List (Ref Key)} {record : Record Key}
  {kind : NodeKind} {dated : Option Int} {proto : Proto Key} {start stop : Int}
  {cfg : SumConfig Key} {m : SumMsg}

theorem keep_sound (kept : BuildOk ikey world.1 channel state)
    (new : NewOk ikey world.1 channel state.nodes state.nodes.length x) :
    Keeps ikey channel (fun _ after r => r = Ref.ofNew x state.nodes.length x.start x.stop ∧
        after.nodes[state.nodes.length]? = some x) (keep x) world state := by
  have got : Keeps ikey channel (fun _ after b => after = state ∧ b = state) Work.get world state :=
    get kept.later (fun _ _ => ⟨rfl, rfl⟩)
  refine bind got ?_
  rintro later grown after _ keptLater b ⟨same, isState⟩
  rw [same] at keptLater ⊢
  rw [isState]
  have longer := keptLater.append (new.mono grown (prefix_refl _))
  have wrote : Keeps ikey channel (fun _ after _ => after.nodes[state.nodes.length]? = some x)
      (Work.set { nodes := state.nodes ++ [x] }) later state :=
    set (prefix_append _ _) longer.later (fun _ _ => getElem?_concat_length)
  refine bind wrote ?_
  intro last _ after _ kept _ here
  exact pure kept.later (fun _ _ => ⟨rfl, here⟩)

theorem keep_gives (kept : BuildOk ikey world.1 channel state)
    (new : NewOk ikey world.1 channel state.nodes state.nodes.length x)
    (keyed : world.1.KeyIn ikey channel x.key) : Gives ikey channel (keep x) world state := by
  refine weaken (keep_sound kept new) ?_
  rintro later grown after _ r ⟨rfl, here⟩
  refine ⟨keyed.mono grown, fun _ => ⟨x, here, rfl⟩, ?_⟩
  rintro ⟨⟩

theorem Build.find_eq_some [DecidableEq Key] {key : Key} (found : state.find key = some r) :
    ∃ index x, state.nodes[index]? = some x ∧ x.key = key ∧ r = Ref.ofNew x index 0 0 := by
  unfold Build.find at found
  cases first : state.nodes.findIdx? (·.key == key) with
  | none =>
    simp [first] at found
  | some index =>
    rw [first] at found
    obtain ⟨x, here, rfl⟩ := Option.map_eq_some_iff.mp found
    have isKey : (x.key == key) = true := by
      obtain ⟨bound, holds, _⟩ := findIdx?_eq_some_iff_getElem.mp first
      rw [getElem?_eq_getElem bound] at here
      cases here
      exact holds
    exact ⟨index, x, here, by simpa using isKey, rfl⟩

theorem channel_of_found (distinct : Function.Injective ikey) {origin : KeyOf Key} {n : Node Key}
    (belongs : world.1.Belongs ikey channel origin) (isStored : n ∈ world.1.stored)
    (same : n.key = ikey origin) : n.channel = channel := by
  have keyed := world.2.keyed n isStored
  unfold Record.KeyOk at keyed
  split at keyed
  · obtain ⟨inputs, start, stop, zone, isPeriod⟩ := keyed
    cases distinct (same.symm.trans isPeriod)
    cases belongs
  · obtain ⟨origin', isKey, theirs⟩ := keyed
    cases distinct (same.symm.trans isKey)
    exact theirs.channel_eq distinct world.2 belongs

theorem find_sound [DecidableEq Key] (distinct : Function.Injective ikey) {version : Text} {origin : KeyOf Key}
    (belongs : world.1.Belongs ikey channel origin) (kept : BuildOk ikey world.1 channel state) :
    Keeps ikey channel (fun later after found => ∀ r, found = some r →
      RefOk ikey later.1 channel after r) (find version (ikey origin)) world state := by
  have asked := askFor_sound (.key (ikey origin) version)
    (fun later (stored : Option (Node Key)) => ∀ n, stored = some n → n ∈ later.1.stored ∧ n.key = ikey origin) kept
    (fun _ _ _ right _ longer n same => ⟨longer.2.2 (right n same).1, (right n same).2⟩)
  refine bind asked ?_
  intro later grown after _ kept stored isRight
  have belongs := belongs.mono grown
  cases stored with
  | some n =>
    refine pure kept.later ?_
    rintro last longer _ ⟨⟩
    obtain ⟨isStored, same⟩ := isRight n rfl
    have here : n.channel = channel := channel_of_found distinct belongs isStored same
    refine ⟨⟨origin, same, belongs.mono longer⟩, ?_, ?_⟩
    · rintro ⟨⟩
    · exact fun _ => ⟨n, longer.2.2 isStored, rfl, here, rfl⟩
  | none =>
    have got : Keeps ikey channel (fun _ after b => b = after) Work.get later after := get kept.later (fun _ _ => rfl)
    refine bind got ?_
    rintro last longer b _ kept _ rfl
    refine pure kept.later ?_
    intro final much r found
    obtain ⟨index, x, here, same, rfl⟩ := Build.find_eq_some found
    refine ⟨⟨origin, same, (belongs.mono longer).mono much⟩, fun _ => ⟨x, here, rfl⟩, ?_⟩
    rintro ⟨⟩

/-! Notes on notes -/

theorem RefOk.inputOk (ok : RefOk ikey world.1 channel state r) :
    InputOk world.1 channel state.nodes.length r.input := by
  unfold Ref.input
  split
  · next isNew =>
    obtain ⟨x, here, _⟩ := ok.made isNew
    exact (List.getElem?_eq_some_iff.mp here).1
  · next notNew =>
    obtain ⟨n, isStored, same, isHere, _⟩ := ok.stored (Bool.eq_false_iff.mpr notNew)
    exact ⟨n, isStored, same, isHere⟩

theorem RefOk.backs (ok : RefOk ikey world.1 channel state r) {shown : Nat × Text}
    (mem : shown ∈ r.texts) : Backs world.1 state.nodes shown r.input := by
  unfold Ref.input
  split
  · next isNew =>
    obtain ⟨x, here, same⟩ := ok.made isNew
    exact ⟨x, here, same ▸ mem⟩
  · next notNew =>
    obtain ⟨n, isStored, isId, _, same⟩ := ok.stored (Bool.eq_false_iff.mpr notNew)
    exact ⟨n, isStored, isId, same ▸ mem⟩

theorem newOk_of_kids (each : ∀ r ∈ kids, RefOk ikey world.1 channel state r)
    (keyed : world.1.KeyOk ikey channel x.kind x.key) (inputs : x.inputs = kids.map (·.input))
    (texts : x.texts = kids.flatMap (·.texts)) : NewOk ikey world.1 channel state.nodes state.nodes.length x where
  keyed := keyed
  inputs i mem := by
    rw [inputs] at mem
    obtain ⟨r, isKid, rfl⟩ := mem_map.mp mem
    exact (each r isKid).inputOk
  backed shown mem := by
    rw [texts] at mem
    obtain ⟨r, isKid, mem⟩ := mem_flatMap.mp mem
    rw [inputs]
    exact ⟨r.input, mem_map_of_mem isKid, (each r isKid).backs mem⟩

theorem newOk_of_messages (msgs : List SumMsg) (each : ∀ m ∈ msgs, MsgOk world.1 channel m)
    (keyed : world.1.KeyOk ikey channel x.kind x.key) (inputs : x.inputs = msgs.map fun m => .message m.id m.edited)
    (texts : x.texts = msgs.map (·.shown)) : NewOk ikey world.1 channel state.nodes state.nodes.length x where
  keyed := keyed
  inputs i mem := by
    rw [inputs] at mem
    obtain ⟨m, _, rfl⟩ := mem_map.mp mem
    trivial
  backed shown mem := by
    rw [texts] at mem
    obtain ⟨m, isMsg, rfl⟩ := mem_map.mp mem
    rw [inputs]
    exact ⟨_, mem_map_of_mem isMsg, rfl, (each m isMsg).wrote⟩

theorem keyOk_of_keyIn {key : Key} (keyIn : record.KeyIn ikey channel key)
    (notPeriod : kind ≠ .period) : record.KeyOk ikey channel kind key := by
  unfold Record.KeyOk
  rw [if_neg notPeriod]
  exact keyIn

theorem belongs_kids (some : kids ≠ []) (each : ∀ r ∈ kids, RefOk ikey world.1 channel state r) :
    world.1.Belongs ikey channel (.kids kind (kids.map (·.key)) dated) := by
  have origins : ∀ key, key ∈ kids.map (·.key) → ∃ origin, key = ikey origin ∧ world.1.Belongs ikey channel origin := by
    intro key mem
    obtain ⟨r, isKid, rfl⟩ := mem_map.mp mem
    exact (each r isKid).keyed
  have : Nonempty (KeyOf Key) := ⟨.chunk []⟩
  choose! origin made belongs using origins
  exact .kids origin (by simpa using some) made belongs

/-- The key a merged node gets is made of this channel's messages. -/
def Named (ikey : KeyOf Key → Key) (world : World ikey) (channel : Nat) (kids : List (Ref Key))
    (proto : Proto Key) : Prop :=
  match proto.key with
  | none => kids ≠ []
  | some key => world.1.KeyIn ikey channel key

theorem Named.mono {later : World ikey} (grown : world ≤ later)
    (named : Named ikey world channel kids proto) : Named ikey later channel kids proto := by
  unfold Named at named ⊢
  split
  · next none =>
    rwa [none] at named
  next key isKey =>
  rw [isKey] at named
  exact named.mono grown

theorem Named.keyIn (named : Named ikey world channel kids proto)
    (each : ∀ r ∈ kids, RefOk ikey world.1 channel state r) :
    world.1.KeyIn ikey channel (proto.key.getD (ikey (.kids kind (kids.map (·.key)) dated))) := by
  unfold Named at named
  cases isKey : proto.key with
  | none =>
    rw [isKey] at named
    exact ⟨_, rfl, belongs_kids named each⟩
  | some key =>
    rwa [isKey] at named

theorem pure_gives (kept : BuildOk ikey world.1 channel state)
    (ok : RefOk ikey world.1 channel state r) : Gives ikey channel (pure r) world state :=
  pure kept.later fun _ grown => ok.mono grown le_rfl

abbrev GivesAll (ikey : KeyOf Key → Key) (channel : Nat) (work : Building Key (List (Ref Key)))
    (world : World ikey) (state : Build Key) : Prop :=
  Keeps ikey channel (fun later after refs => ∀ r ∈ refs, RefOk ikey later.1 channel after r) work world state

theorem refsOk_mono {refs : List (Ref Key)} {later : World ikey} {after : Build Key} (grown : world ≤ later)
    (longer : state ≤ after) (each : ∀ r ∈ refs, RefOk ikey world.1 channel state r) :
    ∀ r ∈ refs, RefOk ikey later.1 channel after r :=
  fun r mem => (each r mem).mono grown longer

theorem givesAll_cons {work : Building Key (Ref Key)} {more : Building Key (List (Ref Key))}
    (first : Gives ikey channel work world state)
    (second : ∀ later, world ≤ later → ∀ after, BuildOk ikey later.1 channel after →
      GivesAll ikey channel more later after) :
    GivesAll ikey channel (do let r ← work; let refs ← more; pure (r :: refs)) world state := by
  refine bind first ?_
  intro later grown after _ kept r isOk
  refine bind (second later grown after kept) ?_
  intro last much b further kept refs isOks
  refine pure kept.later ?_
  intro final most r' mem
  rcases mem_cons.mp mem with rfl | mem
  · exact isOk.mono (le_trans much most) further
  · exact (isOks r' mem).mono most le_rfl

theorem RefOk.spanning (ok : RefOk ikey record channel state r) :
    RefOk ikey record channel state (r.spanning start stop) := { ok with }

theorem of_mem_sections {cur part : List (Ref Key)} (mem : part ∈ sections cfg dated cur kids) :
    part ≠ [] ∧ ∀ r ∈ part, r ∈ cur ++ kids := by
  fun_induction sections cfg dated cur kids with
  | case1 => exact absurd mem not_mem_nil
  | case2 k cur =>
    rw [mem_singleton] at mem
    subst mem
    exact ⟨cons_ne_nil k cur, fun r isIn => mem_append_left [] isIn⟩
  | case3 kid rest ih => exact ih mem
  | case4 k cur kid rest fit ih => simpa using ih mem
  | case5 k cur kid rest fit single ih =>
    rcases mem_cons.mp mem with rfl | mem
    · refine ⟨cons_ne_nil k _, ?_⟩
      intro r isIn
      simp only [mem_cons, not_mem_nil, or_false, mem_append] at isIn ⊢
      rcases isIn with rfl | rfl
      · exact .inl (.inl rfl)
      · exact .inr (.inl rfl)
    · refine ⟨(ih mem).1, fun r isIn => ?_⟩
      have later := (ih mem).2 r isIn
      exact mem_append_right _ (mem_cons_of_mem kid later)
  | case6 k cur kid rest fit several ih =>
    rcases mem_cons.mp mem with rfl | mem
    · exact ⟨cons_ne_nil k cur, fun r isIn => mem_append_left _ isIn⟩
    · exact ⟨(ih mem).1, fun r isIn => mem_append_right _ ((ih mem).2 r isIn)⟩

theorem sections_ne_nil {cur : List (Ref Key)} (some : cur ++ kids ≠ []) : sections cfg dated cur kids ≠ [] := by
  fun_induction sections cfg dated cur kids with
  | case1 => simp at some
  | case2 k cur => exact cons_ne_nil _ _
  | case3 kid rest ih => exact ih (cons_ne_nil _ _)
  | case4 k cur kid rest fit ih => exact ih (cons_ne_nil _ _)
  | case5 k cur kid rest fit single ih => exact cons_ne_nil _ _
  | case6 k cur kid rest fit several ih => exact cons_ne_nil _ _

theorem WindowOk.mono {later : Record Key} {w : SumWindow} (grown : record ≤ later)
    (ok : WindowOk record channel w) : WindowOk later channel w :=
  ⟨fun m mem => (ok.each m mem).mono grown, ok.single⟩

theorem SumWindow.stamp_eq {w : SumWindow} (ok : WindowOk record channel w) (mem : m ∈ w.msgs) :
    w.stamp m.id = m.edited := by
  unfold SumWindow.stamp
  cases found : w.msgs.find? (·.id == m.id) with
  | none => exact absurd (find?_eq_none.mp found m mem) (by simp)
  | some m' =>
    have same : m'.id = m.id := by simpa using find?_some found
    rw [ok.single m' (mem_of_find?_eq_some found) m mem same]

variable {zone : Int}

theorem keepPeriod_sound {body : Text} {inputs : List Input} {texts : List (Nat × Text)} {seen : List MessageRow}
    (kept : BuildOk ikey world.1 channel state)
    (new : ∀ x : NewNode Key, x.kind = .period → world.1.KeyOk ikey channel x.kind x.key →
      x.inputs = inputs → x.texts = texts →
      NewOk ikey world.1 channel state.nodes state.nodes.length x) :
    Keeps ikey channel (fun _ _ _ => True) (keepPeriod ikey start stop zone body inputs texts seen) world state := by
  refine weaken (keep_sound kept (new _ rfl ?_ rfl rfl)) (fun _ _ _ _ _ _ => trivial)
  exact ⟨inputs, start, stop, zone, rfl⟩

theorem buildOk_nil : BuildOk ikey record channel { nodes := [] } := by
  intro index x here
  cases here

theorem loadCut_sound (kept : BuildOk ikey world.1 channel state) :
    Keeps ikey channel (fun later _ cut => WindowOk later.1 channel cut.1 ∧
      ∀ p ∈ cut.2, ∀ m ∈ p.msgs, m ∈ cut.1.msgs) (loadCut cfg channel start stop) world state := by
  have anchored := askFor_sound (.anchor channel start cfg.gap) (fun _ _ => True) kept (fun _ _ _ _ _ _ => trivial)
  refine bind anchored ?_
  intro later _ after _ kept origin _
  have loaded := askFor_sound (.window channel origin stop)
    (fun later (w : SumWindow) => WindowOk later.1 channel w) kept
    (fun _ _ _ right _ longer => WindowOk.mono longer right)
  refine bind loaded ?_
  intro last _ b _ kept window ok
  refine pure kept.later (fun _ much => ⟨ok.mono much, ?_⟩)
  intro p mem m isMsg
  exact of_mem_cutBuild (mem_of_mem_filter mem) isMsg

variable [DecidableEq Key] {cfg : SumConfig Key} (distinct : Function.Injective ikey)
  (kept : BuildOk ikey world.1 channel state)

include distinct kept

theorem merge_sound (each : ∀ r ∈ kids, RefOk ikey world.1 channel state r)
    (named : Named ikey world channel kids proto) (notPeriod : kind ≠ .period) :
    Gives ikey channel (merge ikey cfg dated kids kind proto) world state := by
  unfold merge
  have keyIn : world.1.KeyIn ikey channel
      (proto.key.getD (ikey (.kids kind (kids.map (·.key)) dated))) := named.keyIn each
  generalize proto.key.getD (ikey (.kids kind (kids.map (·.key)) dated)) = key at keyIn ⊢
  obtain ⟨origin, rfl, belongs⟩ := keyIn
  refine bind (find_sound distinct belongs kept) ?_
  intro later grown after longer kept found isOk
  cases found with
  | some r => exact pure_gives kept (isOk r rfl).spanning
  | none =>
    dsimp only
    split
    · exact fail kept.later
    refine bind (answerOf_sound kept) ?_
    intro last much b further kept body _
    have each : ∀ r ∈ kids, RefOk ikey last.1 channel b r := fun r isKid =>
      (each r isKid).mono (le_trans grown much) (le_trans longer further)
    have keyIn : last.1.KeyIn ikey channel (ikey origin) := ⟨origin, rfl, (belongs.mono grown).mono much⟩
    exact keep_gives kept (newOk_of_kids each (keyOk_of_keyIn keyIn notPeriod) rfl rfl) keyIn

theorem mergeSection_sound {part : List (Ref Key)} (some : part ≠ [])
    (each : ∀ r ∈ part, RefOk ikey world.1 channel state r) :
    Gives ikey channel (mergeSection ikey cfg dated part) world state := by
  unfold mergeSection
  split
  · next alone =>
    exact pure_gives kept (each alone mem_cons_self)
  · exact merge_sound distinct kept each some (by decide)

theorem mergeSections_sound {parts : List (List (Ref Key))}
    (each : ∀ part ∈ parts, part ≠ [] ∧ ∀ r ∈ part, RefOk ikey world.1 channel state r) :
    Keeps ikey channel (fun later after refs => ∀ r ∈ refs.1, RefOk ikey later.1 channel after r)
      (mergeSections ikey cfg dated parts) world state := by
  induction parts generalizing world state with
  | nil => exact pure kept.later (fun _ _ _ mem => absurd mem not_mem_nil)
  | cons part parts ih =>
    obtain ⟨some, refsOk⟩ := each part mem_cons_self
    refine bind (mergeSection_sound distinct kept some refsOk) ?_
    intro later grown after longer kept r isOk
    have rest : ∀ part ∈ parts, part ≠ [] ∧ ∀ r ∈ part, RefOk ikey later.1 channel after r := by
      intro part mem
      obtain ⟨some, refsOk⟩ := each part (mem_cons_of_mem _ mem)
      exact ⟨some, refsOk_mono grown longer refsOk⟩
    refine bind (ih kept rest) ?_
    intro last much b further kept refs isOks
    refine pure kept.later ?_
    intro final most r' mem
    rcases mem_cons.mp mem with rfl | mem
    · exact isOk.mono (le_trans much most) further
    · exact (isOks r' mem).mono most le_rfl

variable (each : ∀ r ∈ kids, RefOk ikey world.1 channel state r)

include each

theorem fitRounds_sound {rounds : Nat} {enough : kids.length ≤ rounds} :
    Keeps ikey channel (fun later after refs => (∀ r ∈ refs, RefOk ikey later.1 channel after r) ∧
      (kids ≠ [] → refs ≠ [])) (fitRounds ikey cfg dated rounds kids enough) world state := by
  induction rounds generalizing world state kids with
  | zero => exact pure kept.later (fun _ much => ⟨refsOk_mono much le_rfl each, id⟩)
  | succ rounds ih =>
    unfold fitRounds
    split
    · exact fail kept.later
    split
    · exact pure kept.later (fun _ much => ⟨refsOk_mono much le_rfl each, id⟩)
    have parts : ∀ part ∈ sections cfg dated [] kids, part ≠ [] ∧ ∀ r ∈ part, RefOk ikey world.1 channel state r := by
      intro part mem
      obtain ⟨some, isIn⟩ := of_mem_sections mem
      exact ⟨some, fun r isPart => each r (by simpa using isIn r isPart)⟩
    refine bind (mergeSections_sound distinct kept parts) ?_
    intro later _ after _ kept refs isOks
    refine weaken (ih kept isOks) ?_
    rintro last _ b _ fitted ⟨isOks, some⟩
    refine ⟨isOks, fun nonempty => some ?_⟩
    have parts : sections cfg dated [] kids ≠ [] := sections_ne_nil nonempty
    rw [← length_pos_iff, refs.2]
    exact length_pos_iff.mpr parts

theorem fit_sound : Keeps ikey channel (fun later after refs => (∀ r ∈ refs, RefOk ikey later.1 channel after r) ∧
      (kids ≠ [] → refs ≠ [])) (fit ikey cfg dated kids) world state :=
  fitRounds_sound distinct kept each

theorem reduceOne_sound (named : Named ikey world channel kids proto) (notPeriod : kind ≠ .period) :
    Gives ikey channel (reduceOne ikey cfg kids kind proto) world state := by
  unfold reduceOne
  split
  · next alone =>
    exact pure_gives kept (each alone mem_cons_self)
  refine bind (fit_sound distinct kept each) ?_
  rintro later grown after _ kept fitted ⟨isOks, some⟩
  have named : Named ikey later channel fitted proto := by
    have before := named.mono grown
    unfold Named at before ⊢
    cases isKey : proto.key with
    | none =>
      rw [isKey] at before
      exact some before
    | some key =>
      rwa [isKey] at before
  split
  · next alone =>
    exact pure_gives kept (isOks alone mem_cons_self)
  · exact merge_sound distinct kept isOks named notPeriod

omit each

/-! Notes on messages -/

theorem buildPart_sound {k n : Nat} (ok : MsgOk world.1 channel m) :
    Gives ikey channel (buildPart ikey cfg m k n) world state := by
  have belongs : world.1.Belongs ikey channel (.part m.id m.edited k n) := .part ok.home
  refine bind (find_sound distinct belongs kept) ?_
  intro later grown after _ kept found isOk
  cases found with
  | some r => exact pure_gives kept (isOk r rfl).spanning
  | none =>
    refine bind (answerOf_sound kept) ?_
    intro last much b _ kept body _
    have keyIn : last.1.KeyIn ikey channel (ikey (.part m.id m.edited k n)) := ⟨_, rfl, (belongs.mono grown).mono much⟩
    refine keep_gives kept (newOk_of_messages [m] ?_ ?_ rfl rfl) keyIn
    · intro m' mem
      rw [mem_singleton.mp mem]
      exact (ok.mono grown).mono much
    · exact keyOk_of_keyIn keyIn (by rintro ⟨⟩)

theorem buildParts_sound {n : Nat} {ks : List Nat} (ok : MsgOk world.1 channel m) :
    GivesAll ikey channel (buildParts ikey cfg m n ks) world state := by
  induction ks generalizing world state with
  | nil => exact pure kept.later (fun _ _ _ mem => absurd mem not_mem_nil)
  | cons k ks ih =>
    exact givesAll_cons (buildPart_sound distinct kept ok) (fun later grown after kept => ih kept (ok.mono grown))

theorem bigMessage_sound {key : Key} (ok : MsgOk world.1 channel m) (keyIn : world.1.KeyIn ikey channel key) :
    Gives ikey channel (bigMessage ikey cfg m stop key) world state := by
  refine bind (buildParts_sound distinct kept ok) ?_
  intro later grown after _ kept kids isOks
  exact reduceOne_sound distinct kept isOks (keyIn.mono grown) (by decide)

theorem buildChunk_sound {c : SumChunk} (each : ∀ m ∈ c.msgs, MsgOk world.1 channel m) :
    Gives ikey channel (buildChunk ikey cfg c) world state := by
  have belongs : world.1.Belongs ikey channel (.chunk c.inputs) := by
    refine .chunk (cons_ne_nil _ _) ?_
    intro i mem
    obtain ⟨m, isMsg, rfl⟩ := mem_map.mp mem
    exact (each m isMsg).home
  refine bind (find_sound distinct belongs kept) ?_
  intro later grown after _ kept found isOk
  have each : ∀ m ∈ c.msgs, MsgOk later.1 channel m := fun m isMsg => (each m isMsg).mono grown
  have keyIn : later.1.KeyIn ikey channel (ikey (.chunk c.inputs)) := ⟨_, rfl, belongs.mono grown⟩
  cases found with
  | some r => exact pure_gives kept (isOk r rfl).spanning
  | none =>
    dsimp only
    split
    · exact bigMessage_sound distinct kept (each c.first mem_cons_self) keyIn
    refine bind (answerOf_sound kept) ?_
    intro last much b _ kept body _
    have keyIn := keyIn.mono much
    refine keep_gives kept (newOk_of_messages c.msgs ?_ ?_ rfl rfl) keyIn
    · exact fun m isMsg => (each m isMsg).mono much
    · exact keyOk_of_keyIn keyIn (by rintro ⟨⟩)

theorem buildChunks_sound {cs : List SumChunk} (each : ∀ c ∈ cs, ∀ m ∈ c.msgs, MsgOk world.1 channel m) :
    GivesAll ikey channel (buildChunks ikey cfg cs) world state := by
  induction cs generalizing world state with
  | nil => exact pure kept.later (fun _ _ _ mem => absurd mem not_mem_nil)
  | cons c cs ih =>
    refine givesAll_cons (buildChunk_sound distinct kept (each c mem_cons_self)) ?_
    intro later grown after kept
    exact ih kept (fun c mem m isMsg => (each c (mem_cons_of_mem _ mem) m isMsg).mono grown)

theorem buildPiece_sound {p : SumPiece} (each : ∀ m ∈ p.msgs, MsgOk world.1 channel m) :
    Gives ikey channel (buildPiece ikey cfg p) world state := by
  have chunks : ∀ c ∈ p.chunks, ∀ m ∈ c.msgs, MsgOk world.1 channel m := fun c isChunk m isMsg =>
    each m (mem_flatMap.mpr ⟨c, isChunk, isMsg⟩)
  cases p with
  | plain chunk => exact buildChunk_sound distinct kept (chunks chunk mem_cons_self)
  | thread first rest stop =>
    refine bind (buildChunk_sound distinct kept (chunks first mem_cons_self)) ?_
    intro later grown after _ kept head isOk
    have others : ∀ c ∈ rest, ∀ m ∈ c.msgs, MsgOk later.1 channel m := fun c isChunk m isMsg =>
      (chunks c (mem_cons_of_mem _ isChunk) m isMsg).mono grown
    refine bind (buildChunks_sound distinct kept others) ?_
    intro last much b further kept tail isOks
    refine reduceOne_sound distinct kept ?_ (cons_ne_nil head tail) (by decide)
    intro r mem
    rcases mem_cons.mp mem with rfl | mem
    · exact isOk.mono much further
    · exact isOks r mem

theorem buildPieces_sound {ps : List SumPiece} (each : ∀ p ∈ ps, ∀ m ∈ p.msgs, MsgOk world.1 channel m) :
    GivesAll ikey channel (buildPieces ikey cfg ps) world state := by
  induction ps generalizing world state with
  | nil => exact pure kept.later (fun _ _ _ mem => absurd mem not_mem_nil)
  | cons p ps ih =>
    refine givesAll_cons (buildPiece_sound distinct kept (each p mem_cons_self)) ?_
    intro later grown after kept
    exact ih kept (fun p mem m isMsg => (each p (mem_cons_of_mem _ mem) m isMsg).mono grown)

/-! A period -/

theorem buildPeriod_sound : Keeps ikey channel (fun _ _ _ => True) (buildPeriod ikey cfg channel start stop zone) world
      state := by
  have asked := askFor_sound (.period channel start stop zone cfg.version) (fun _ _ => True) kept
    (fun _ _ _ _ _ _ => trivial)
  refine bind asked ?_
  intro later _ after _ kept found _
  cases found with
  | some n => exact pure kept.later (fun _ _ => trivial)
  | none =>
    refine bind (loadCut_sound kept) ?_
    rintro last _ b _ kept ⟨window, pieces⟩ ⟨ok, isIn⟩
    have each : ∀ p ∈ pieces, ∀ m ∈ p.msgs, MsgOk last.1 channel m := fun p isPiece m isMsg =>
      ok.each m (isIn p isPiece m isMsg)
    dsimp only
    split
    · refine keepPeriod_sound kept ?_
      intro x _ keyed inputs texts
      exact newOk_of_messages [] (by simp) keyed inputs texts
    split
    · refine bind (answerOf_sound kept) ?_
      intro final much b _ kept body _
      refine keepPeriod_sound kept ?_
      intro x _ keyed inputs texts
      have stamps : (pieces.flatMap (·.msgs)).map (fun m => Input.message m.id (window.stamp m.id)) =
          (pieces.flatMap (·.msgs)).map (fun m => Input.message m.id m.edited) := by
        apply map_congr_left
        intro m mem
        obtain ⟨p, isPiece, isMsg⟩ := mem_flatMap.mp mem
        rw [SumWindow.stamp_eq ok (isIn p isPiece m isMsg)]
      refine newOk_of_messages _ ?_ keyed (inputs.trans stamps) texts
      intro m mem
      obtain ⟨p, isPiece, isMsg⟩ := mem_flatMap.mp mem
      exact (each p isPiece m isMsg).mono much
    · refine bind (buildPieces_sound distinct kept each) ?_
      intro final _ b _ kept refs isOks
      have kids : ∀ r ∈ refs.filter (fun r => !cfg.bodyEmpty r.body), RefOk ikey final.1 channel b r :=
        fun r mem => isOks r (mem_of_mem_filter mem)
      refine bind (fit_sound distinct kept kids) ?_
      rintro w _ b _ kept fitted ⟨isOks, _⟩
      refine bind (answerOf_sound kept) ?_
      intro w' much b' longer kept body _
      refine keepPeriod_sound kept ?_
      intro x _ keyed inputs texts
      exact newOk_of_kids (refsOk_mono much longer isOks) keyed inputs texts

omit kept

theorem runBuild_sound (world : World ikey) : (runBuild ikey cfg channel start stop zone).Sound Right
      (fun later nodes => BuildOk ikey later.1 channel { nodes }) world := by
  refine Talk.Sound.bind (buildPeriod_sound distinct buildOk_nil) ?_
  rintro later _ ⟨ended, b⟩ held after longer
  unfold toStore
  split
  · exact (held after longer).2.1
  split
  · exact (held after longer).2.1
  · exact buildOk_nil

theorem runChunks_sound (world : World ikey) : (runChunks ikey cfg channel start stop).Sound Right
      (fun later nodes => BuildOk ikey later.1 channel { nodes }) world := by
  have spanned : Keeps ikey channel (fun _ _ _ => True) (buildSpan ikey cfg channel start stop) world
      { nodes := [] } := by
    refine bind (loadCut_sound buildOk_nil) ?_
    rintro later _ b _ kept ⟨window, pieces⟩ ⟨ok, isIn⟩
    refine weaken (buildPieces_sound distinct kept ?_) (fun _ _ _ _ _ _ => trivial)
    exact fun p isPiece m isMsg => ok.each m (isIn p isPiece m isMsg)
  refine Talk.Sound.bind spanned ?_
  rintro later _ ⟨ended, b⟩ held after longer
  exact (held after longer).2.1

end Steps

end OpenChime.Daemon.Summary
