import OpenChime.Daemon.SumTexts
import OpenChime.Lib.Run

/-! A stored summary never outlives what it says. The worker builds for minutes while the writer
sends, edits, deletes and restores; what it stores is checked against the stamps it read, and what
changes later takes the summaries above it along. -/

set_option autoImplicit false

namespace OpenChime.Daemon.Summary

open OpenChime.Shared Dialogue List Summary.MessageRow SumDb

variable {Key : Type}

structure Running (Key : Type) where
  channel : Nat
  version : Text
  talk : Talk (@Reply Key) (List (NewNode Key))

structure SumState (Key : Type) where
  db : SumDb Key
  worker : Option (Running Key)

inductive SumEvent (Key : Type) where
  | job (now : Int) (job : SumJob)
  | build (cfg : SumConfig Key) (channel : Nat) (start stop zone : Int)
  | chunks (cfg : SumConfig Key) (channel : Nat) (start stop : Int)
  -- The database answers the question the worker waits on; the model does; the batch is stored.
  | read
  | answer (body : Option Text)
  | store
  | stop

def SumDb.answer [DecidableEq Key] (db : SumDb Key) : (question : Question Key) → Option (Reply question)
  | .period channel start stop zone version =>
    some (db.findPeriod channel start stop zone version false)
  | .key key version => some (db.findKey key version)
  | .anchor channel start gap => some (db.anchor channel start gap)
  | .window channel start stop =>
    some { msgs := db.loadWindow channel start stop, seen := db.messages }
  | .model _ => none

def modelAnswer (body : Option Text) : (question : Question Key) → Option (Reply question)
  | .model _ => some body
  | .period .. => none
  | .key .. => none
  | .anchor .. => none
  | .window .. => none

def Running.goOn (reply : (question : Question Key) → Option (Reply question)) (r : Running Key) :
    Option (Running Key) :=
  match r.talk with
  | .done _ => none
  | .call question next => (reply question).map fun answer => { r with talk := next answer }

def SumState.advance (state : SumState Key)
    (reply : (question : Question Key) → Option (Reply question)) : Option (SumState Key) :=
  (state.worker.bind (Running.goOn reply)).map fun r => { state with worker := some r }

def SumState.begin (state : SumState Key) (r : Running Key) : Option (SumState Key) :=
  match state.worker with
  | some _ => none
  | none => some { state with worker := some r }

def SumState.storeBatch (state : SumState Key) : Option (SumState Key) :=
  match state.worker with
  | some ⟨channel, version, .done nodes⟩ =>
    some { db := state.db.store channel version nodes, worker := none }
  | _ => none

def step [DecidableEq Key] (ikey : KeyOf Key → Key) (state : SumState Key) : SumEvent Key → Option (SumState Key)
  | .job now job => some { state with db := state.db.process now job }
  | .build cfg channel start stop zone =>
    state.begin ⟨channel, cfg.version, runBuild ikey cfg channel start stop zone⟩
  | .chunks cfg channel start stop =>
    state.begin ⟨channel, cfg.version, runChunks ikey cfg channel start stop⟩
  | .read => state.advance state.db.answer
  | .answer body => state.advance (modelAnswer body)
  | .store => state.storeBatch
  | .stop => some { state with worker := none }

def SumState.start (e2e : Nat → Bool) (restoreWindow : Int) : SumState Key :=
  { db := empty e2e restoreWindow, worker := none }

def EditsLater (db : SumDb Key) (now : Int) : SumJob → Prop
  | .edit _ message _ _ _ => ∀ r ∈ db.messages, r.id = message → r.edited < now
  | _ => True

/-- What a restore brings back has no NUL in it, so that the copy is the whole of it. -/
def RestoresWhole (db : SumDb Key) : SumJob → Prop
  | .restore _ message _ _ => ∀ h ∈ db.holds, h.message = message → 0 ∉ h.body
  | _ => True

/-- A node is built on a message, directly or through other stored nodes. -/
inductive Rests (nodes : List (Node Key)) (message : Nat) : Node Key → Prop where
  | direct {n : Node Key} {stamp : Int} (isInput : .message message stamp ∈ n.inputs) : Rests nodes message n
  | through {n below : Node Key} (isInput : .node below.id ∈ n.inputs) (isStored : below ∈ nodes)
      (rests : Rests nodes message below) : Rests nodes message n

/-- The messages and holds agree with what has been on record. -/
structure Tables (record : Record Key) (db : SumDb Key) : Prop where
  unique : Rows.Unique (·.id) db.messages
  home : ∀ r ∈ db.messages, (r.id, r.channel) ∈ record.home
  homeBelow : ∀ m c, (m, c) ∈ record.home → m < db.nextMessage
  threads : ∀ r ∈ db.messages, ∀ p, r.parent = some p →
    ∃ q ∈ db.messages, q.id = p ∧ q.channel = r.channel ∧ q.parent = none
  wrote : ∀ r ∈ db.messages, r.deleted = false → (r.id, r.edited, r.body) ∈ record.wrote
  wroteBelow : ∀ m s b, (m, s, b) ∈ record.wrote → m < db.nextMessage
  stamps : ∀ m s b, (m, s, b) ∈ record.wrote → ∀ r ∈ db.messages, r.id = m → s ≤ r.edited
  one : ∀ m s b b', (m, s, b) ∈ record.wrote → (m, s, b') ∈ record.wrote → b = b'
  held : ∀ h ∈ db.holds, ∃ r ∈ db.messages, r.id = h.message ∧
    r.deleted = true ∧ (r.id, r.edited, h.body) ∈ record.wrote

theorem Tables.below {record : Record Key} {db : SumDb Key} (tables : Tables record db) (r : MessageRow)
    (isRow : r ∈ db.messages) : r.id < db.nextMessage :=
  tables.homeBelow _ _ (tables.home r isRow)

/-- The inputs of the stored nodes stand, and account for their texts. -/
structure Kept (record : Record Key) (db : SumDb Key) : Prop where
  isStored : ∀ n ∈ db.nodes, n ∈ record.stored
  below : ∀ n ∈ record.stored, n.id < db.nextNode
  single : ∀ n ∈ record.stored, ∀ n' ∈ record.stored, n.id = n'.id → n = n'
  onMessages : ∀ n ∈ db.nodes, ∀ id stamp, .message id stamp ∈ n.inputs →
    ∃ r ∈ db.messages, r.id = id ∧ r.channel = n.channel ∧ r.deleted = false ∧ r.edited = stamp
  onNodes : ∀ n ∈ db.nodes, ∀ id, .node id ∈ n.inputs → ∃ n' ∈ db.nodes, n'.id = id ∧ n'.channel = n.channel ∧ id < n.id
  backed : ∀ n ∈ db.nodes, ∀ shown ∈ n.texts,
    (∃ stamp, .message shown.1 stamp ∈ n.inputs ∧ (shown.1, stamp, shown.2) ∈ record.wrote) ∨
      ∃ n' ∈ record.stored, .node n'.id ∈ n.inputs ∧ shown ∈ n'.texts

/-- What a stored node was made of still stands: by induction on the node, since what it is built on
was stored before it. -/
theorem Kept.texts {record : Record Key} {db : SumDb Key} (tables : Tables record db) (kept : Kept record db)
    {n : Node Key} (mem : n ∈ db.nodes) {shown : Nat × Text} (isText : shown ∈ n.texts) :
    Rests db.nodes shown.1 n ∧ ∃ r ∈ db.messages, r.id = shown.1 ∧ r.channel = n.channel ∧
      r.deleted = false ∧ r.body = shown.2 := by
  induction bound : n.id using Nat.strong_induction_on generalizing n with
  | _ id ih =>
    rcases kept.backed n mem shown isText with ⟨stamp, isInput, wrote⟩ | ⟨n', isStored, isInput, isText⟩
    · refine ⟨.direct isInput, ?_⟩
      obtain ⟨r, isRow, same, here, live, isStamp⟩ := kept.onMessages n mem _ _ isInput
      refine ⟨r, isRow, same, here, live, ?_⟩
      have now := tables.wrote r isRow live
      rw [same, isStamp] at now
      exact tables.one _ _ _ _ now wrote
    · obtain ⟨below, isNode, same, here, earlier⟩ := kept.onNodes n mem _ isInput
      have isBelow : below = n' := kept.single below (kept.isStored below isNode) n' isStored same
      subst isBelow
      obtain ⟨rests, r, isRow, isId, there, live, isBody⟩ := ih below.id (by omega) isNode isText rfl
      exact ⟨.through isInput isNode rests, r, isRow, isId, there.trans here, live, isBody⟩

section Answers

variable {record : Record Key} {db : SumDb Key} {channel : Nat} {start stop : Int}

theorem of_mem_loadWindow {m : SumMsg} (mem : m ∈ db.loadWindow channel start stop) :
    ∃ r ∈ db.messages, m = r.read ∧ r.live = true ∧
      ∃ q ∈ db.messages, q.channel = channel ∧ r.inThread q.root = true := by
  unfold loadWindow at mem
  rw [mem_insertionSort] at mem
  obtain ⟨root, isRoot, mem⟩ := mem_flatMap.mp mem
  obtain ⟨r, isRow, rfl⟩ := mem_map.mp mem
  have isRoot := mem_of_mem_filter isRoot
  rw [mem_dedup] at isRoot
  obtain ⟨q, isSpan, rfl⟩ := mem_map.mp isRoot
  have isSpan := mem_filter.mp isSpan
  have isThread := mem_filter.mp isRow
  simp only [Bool.and_eq_true, beq_iff_eq] at isSpan isThread
  exact ⟨r, isThread.1, rfl, isThread.2.2, q, isSpan.1, isSpan.2.1.1.1, isThread.2.1⟩

theorem Tables.root_channel (tables : Tables record db) {r : MessageRow} (isRow : r ∈ db.messages) :
    ∃ root ∈ db.messages, root.id = r.root ∧ root.channel = r.channel := by
  unfold root
  cases isParent : r.parent with
  | none => exact ⟨r, isRow, rfl, rfl⟩
  | some p =>
    obtain ⟨root, isRoot, same, here, _⟩ := tables.threads r isRow p isParent
    exact ⟨root, isRoot, same, here⟩

theorem Tables.channel_of_inThread (tables : Tables record db) {q r : MessageRow} (isQ : q ∈ db.messages)
    (isR : r ∈ db.messages) (inThread : r.inThread q.root = true) : r.channel = q.channel := by
  obtain ⟨root, isRoot, isId, here⟩ := tables.root_channel isQ
  unfold MessageRow.inThread at inThread
  rw [Bool.or_eq_true, beq_iff_eq, beq_iff_eq] at inThread
  rcases inThread with same | isParent
  · rw [tables.unique.eq isR isRoot (same.trans isId.symm), here]
  · obtain ⟨root', isRoot', isId', there, _⟩ := tables.threads r isR _ isParent
    rw [← there, tables.unique.eq isRoot' isRoot (isId'.trans isId.symm), here]

theorem Tables.windowOk (tables : Tables record db) :
    WindowOk record channel { msgs := db.loadWindow channel start stop, seen := db.messages } where
  each m mem := by
    obtain ⟨r, isRow, rfl, live, q, isQ, here, inThread⟩ := of_mem_loadWindow mem
    rw [MessageRow.live, Bool.and_eq_true, Bool.not_eq_true'] at live
    have home := tables.home r isRow
    rw [tables.channel_of_inThread isQ isRow inThread, here] at home
    exact ⟨tables.wrote r isRow live.1, home⟩
  single m mem m' mem' same := by
    obtain ⟨r, isRow, rfl, _⟩ := of_mem_loadWindow mem
    obtain ⟨r', isRow', rfl, _⟩ := of_mem_loadWindow mem'
    rw [tables.unique.eq isRow isRow' same]

variable {ikey : KeyOf Key → Key} {question : Question Key} {answer : Reply question}

theorem answer_right [DecidableEq Key] {world : World ikey} (tables : Tables world.1 db) (kept : Kept world.1 db)
    (given : db.answer question = some answer) : Right world question answer := by
  cases question with
  | period => trivial
  | anchor => trivial
  | model => trivial
  | key key version =>
    cases given
    intro n found
    have isKey := find?_some found
    simp only [Bool.and_eq_true, beq_iff_eq] at isKey
    exact ⟨kept.isStored n (mem_of_find?_eq_some found), isKey.1⟩
  | window channel start stop =>
    cases given
    exact tables.windowOk

theorem modelAnswer_right {world : World ikey} {body : Option Text}
    (given : modelAnswer body question = some answer) : Right world question answer := by
  cases question with
  | model => trivial
  | period => trivial
  | anchor => trivial
  | key => cases given
  | window => cases given

end Answers

section Storing

variable {ikey : KeyOf Key → Key} {record : Record Key} {db db' : SumDb Key} {channel : Nat} {version : Text}

theorem Tables.of_same {record' : Record Key} (tables : Tables record db) (wrote : record'.wrote = record.wrote)
    (home : record'.home = record.home) (messages : db'.messages = db.messages) (holds : db'.holds = db.holds)
    (next : db'.nextMessage = db.nextMessage) : Tables record' db' := by
  obtain ⟨unique, isHome, homeBelow, threads, isWrote, wroteBelow, stamps, one, held⟩ := tables
  constructor <;> simp only [wrote, home, messages, holds, next] <;> assumption

def Made (db : SumDb Key) (channel : Nat) (batch : List (NewNode Key)) (made : List Nat) : Prop :=
  ∀ (index id : Nat), made[index]? = some id → ∃ x : NewNode Key, batch[index]? = some x ∧
      ∃ n ∈ db.nodes, n.id = id ∧ n.channel = channel ∧ n.texts = x.texts

def storedNode (db : SumDb Key) (channel : Nat) (version : Text) (made : List Nat) (x : NewNode Key) : Node Key :=
  { id := db.nextNode, channel, kind := x.kind, key := x.key, start := x.start, stop := x.stop
    zone := x.zone, version, body := x.body, inputs := x.inputs.map (Input.child made)
    texts := x.texts, seen := x.seen }

variable {made : List Nat} {x : NewNode Key} {batch : List (NewNode Key)}

theorem passed_message {id : Nat} {stamp : Int} (passed : db.fault channel made (.message id stamp) = none) :
    ∃ r ∈ db.messages, r.id = id ∧ r.channel = channel ∧ r.deleted = false ∧ r.edited = stamp := by
  dsimp only [fault] at passed
  split at passed
  · next any =>
    obtain ⟨r, isRow, holds⟩ := any_eq_true.mp any
    simp only [Bool.and_eq_true, beq_iff_eq, Bool.not_eq_true'] at holds
    exact ⟨r, isRow, holds.1.1.1, holds.1.1.2, holds.1.2, holds.2⟩
  · cases passed

theorem passed_node {id : Nat} (passed : db.fault channel made (.node id) = none) : ∃ n ∈ db.nodes, n.id = id := by
  dsimp only [fault] at passed
  split at passed
  · next any =>
    obtain ⟨n, isNode, holds⟩ := any_eq_true.mp any
    exact ⟨n, isNode, by simpa using holds⟩
  · cases passed

theorem passed_made {index : Nat} (passed : db.fault channel made (.made index) = none) :
    made[index]? = some (made.getD index 0) := by
  dsimp only [fault] at passed
  split at passed
  · next bound => rw [getD_eq_getElem?_getD, getElem?_eq_getElem bound, Option.getD_some]
  · cases passed

theorem node_of_input {i : Input} {id : Nat} (kept : Kept record db) (isMade : Made db channel batch made)
    (ok : InputOk record channel made.length i) (passed : db.fault channel made i = none)
    (isChild : i.child made = .node id) : ∃ n ∈ db.nodes, n.id = id ∧ n.channel = channel := by
  cases i with
  | message id' stamp => cases isChild
  | node id' =>
    cases isChild
    obtain ⟨n, isNode, same⟩ := passed_node passed
    obtain ⟨n', isStored, same', here⟩ := ok
    have equal := kept.single n (kept.isStored n isNode) n' isStored (same.trans same'.symm)
    exact ⟨n, isNode, same, equal ▸ here⟩
  | made index =>
    obtain ⟨x, _, n, isNode, same, here, _⟩ := isMade index _ (passed_made passed)
    cases isChild
    exact ⟨n, isNode, same, here⟩

theorem backed_of_backs {i : Input} {shown : Nat × Text} (kept : Kept record db) (isMade : Made db channel batch made)
    (passed : db.fault channel made i = none) (backs : Backs record batch shown i) :
    (∃ stamp, i.child made = .message shown.1 stamp ∧ (shown.1, stamp, shown.2) ∈ record.wrote) ∨
      ∃ n' ∈ record.stored, i.child made = .node n'.id ∧ shown ∈ n'.texts := by
  cases i with
  | message id stamp =>
    obtain ⟨same, wrote⟩ := backs
    exact .inl ⟨stamp, by rw [← same]; rfl, by rw [← same]; exact wrote⟩
  | node id =>
    obtain ⟨n, isStored, rfl, isText⟩ := backs
    exact .inr ⟨n, isStored, rfl, isText⟩
  | made index =>
    obtain ⟨y, isBatch, isText⟩ := backs
    obtain ⟨x, isBatch', n, isNode, same, _, texts⟩ := isMade index _ (passed_made passed)
    rw [isBatch] at isBatch'
    cases isBatch'
    exact .inr ⟨n, kept.isStored n isNode, by rw [same]; rfl, texts ▸ isText⟩

theorem eq_of_mem_insert {α β : Type} {s : Set α} {new : α} (key : α → β) (fresh : ∀ a ∈ s, key a ≠ key new)
    (single : ∀ a ∈ s, ∀ b ∈ s, key a = key b → a = b) :
    ∀ a ∈ insert new s, ∀ b ∈ insert new s, key a = key b → a = b := by
  rintro a (rfl | isOld) b (rfl | isOld') same
  · rfl
  · exact absurd same.symm (fresh b isOld')
  · exact absurd same (fresh a isOld)
  · exact single a isOld b isOld' same

def Record.storing (record : Record Key) (n : Node Key) : Record Key := { record with stored := insert n record.stored }

theorem Record.le_storing (record : Record Key) (n : Node Key) : record ≤ record.storing n :=
  ⟨subset_rfl, subset_rfl, Set.subset_insert n record.stored⟩

theorem Record.Sound.storing {n : Node Key} (sound : record.Sound ikey)
    (keyed : record.KeyOk ikey n.channel n.kind n.key) : (record.storing n).Sound ikey where
  homes := sound.homes
  keyed n' mem := by
    rcases Set.mem_insert_iff.mp mem with rfl | old
    · exact keyed.mono (record.le_storing n')
    · exact (sound.keyed n' old).mono (record.le_storing n)

theorem Kept.insertNode (kept : Kept record db) (isMade : Made db channel batch made)
    (ok : NewOk ikey record channel batch made.length x) (passed : ∀ i ∈ x.inputs, db.fault channel made i = none) :
    Kept (record.storing (storedNode db channel version made x)) (db.insertNode channel version made x) := by
  have cases : ∀ n ∈ (db.insertNode channel version made x).nodes,
      n ∈ db.nodes ∨ n = storedNode db channel version made x := fun _ => Rows.mem_insert.mp
  have older : ∀ n ∈ db.nodes, n ∈ (db.insertNode channel version made x).nodes := fun n mem =>
    mem_append_left _ mem
  constructor
  case isStored =>
    intro n mem
    rcases cases n mem with old | rfl
    · exact Set.mem_insert_of_mem _ (kept.isStored n old)
    · exact Set.mem_insert _ _
  case below =>
    intro n mem
    rcases Set.mem_insert_iff.mp mem with rfl | old
    · exact Nat.lt_succ_self _
    · exact Nat.lt_succ_of_lt (kept.below n old)
  case single =>
    exact eq_of_mem_insert Node.id (fun n old => (kept.below n old).ne) kept.single
  case onMessages =>
    intro n mem id stamp isInput
    rcases cases n mem with old | rfl
    · exact kept.onMessages n old id stamp isInput
    obtain ⟨i, isIn, isChild⟩ := mem_map.mp isInput
    cases i with
    | message id' stamp' =>
      cases isChild
      have row := passed_message (passed _ isIn)
      exact row
    | node id' => cases isChild
    | made index => cases isChild
  case onNodes =>
    intro n mem id isInput
    rcases cases n mem with old | rfl
    · obtain ⟨n', isNode, rest⟩ := kept.onNodes n old id isInput
      exact ⟨n', older n' isNode, rest⟩
    obtain ⟨i, isIn, isChild⟩ := mem_map.mp isInput
    obtain ⟨n', isNode, rfl, here⟩ := node_of_input kept isMade (ok.inputs i isIn) (passed i isIn) isChild
    exact ⟨n', older n' isNode, rfl, here, kept.below n' (kept.isStored n' isNode)⟩
  case backed =>
    intro n mem shown isText
    rcases cases n mem with old | rfl
    · rcases kept.backed n old shown isText with onMessage | ⟨n', isStored, rest⟩
      · exact .inl onMessage
      · exact .inr ⟨n', Set.mem_insert_of_mem _ isStored, rest⟩
    obtain ⟨i, isIn, backs⟩ := ok.backed shown isText
    rcases backed_of_backs kept isMade (passed i isIn) backs with
      ⟨stamp, isChild, wrote⟩ | ⟨n', isStored, isChild, isText⟩
    · exact .inl ⟨stamp, isChild ▸ mem_map_of_mem isIn, wrote⟩
    · exact .inr ⟨n', Set.mem_insert_of_mem _ isStored, isChild ▸ mem_map_of_mem isIn, isText⟩

theorem Made.insertNode (isMade : Made db channel batch made) (here : batch[made.length]? = some x) :
    Made (db.insertNode channel version made x) channel batch (made ++ [db.nextNode]) := by
  intro index id entry
  rw [getElem?_append] at entry
  split at entry
  · obtain ⟨y, isBatch, n, isNode, rest⟩ := isMade index id entry
    exact ⟨y, isBatch, n, mem_append_left _ isNode, rest⟩
  next past =>
  rw [getElem?_singleton] at entry
  split at entry
  · next first =>
    cases entry
    have last : index = made.length := by omega
    refine ⟨x, last ▸ here, storedNode db channel version made x, ?_, rfl, rfl, rfl⟩
    exact mem_concat_self
  · cases entry

theorem storeNodes_kept {rest done : List (NewNode Key)} {world : World ikey} (isBatch : batch = done ++ rest)
    (same : done.length = made.length) (ok : BuildOk ikey world.1 channel { nodes := batch })
    (tables : Tables world.1 db) (kept : Kept world.1 db) (isMade : Made db channel batch made)
    (stored : storeNodes channel version rest made db = .ok db') :
    ∃ later : World ikey, world ≤ later ∧ Tables later.1 db' ∧ Kept later.1 db' := by
  induction rest generalizing done made db world with
  | nil =>
    cases stored
    exact ⟨world, le_rfl, tables, kept⟩
  | cons x rest ih =>
    unfold storeNodes at stored
    split at stored
    · cases stored
    next passed =>
    rw [findSome?_eq_none_iff] at passed
    have here : batch[made.length]? = some x := by
      rw [isBatch, getElem?_append_right (Nat.le_of_eq same), same, Nat.sub_self]
      rfl
    have new := ok made.length x here
    let later : World ikey := ⟨world.1.storing (storedNode db channel version made x), world.2.storing new.keyed⟩
    have grown : world ≤ later := world.1.le_storing _
    have isBatch : batch = (done ++ [x]) ++ rest := by rw [isBatch, append_cons]
    have longerOk : BuildOk ikey later.1 channel { nodes := batch } := ok.mono grown
    have tables : Tables later.1 (db.insertNode channel version made x) := tables.of_same rfl rfl rfl rfl rfl
    obtain ⟨last, longer, result⟩ := ih isBatch (by simp [same]) longerOk tables
      (kept.insertNode isMade new passed) (isMade.insertNode here) stored
    exact ⟨last, grown.trans longer, result⟩

end Storing

section Jobs

variable {ikey : KeyOf Key → Key} {record record' : Record Key} {db db' : SumDb Key}

theorem Kept.grow (kept : Kept record db) (stored : record'.stored = record.stored)
    (wrote : record.wrote ⊆ record'.wrote) : Kept record' db where
  __ := kept
  isStored := stored ▸ kept.isStored
  below := stored ▸ kept.below
  single := stored ▸ kept.single
  backed n mem shown isText := by
    rcases kept.backed n mem shown isText with ⟨stamp, isInput, isWrote⟩ | ⟨n', isStored, rest⟩
    · exact .inl ⟨stamp, isInput, wrote isWrote⟩
    · exact .inr ⟨n', stored ▸ isStored, rest⟩

variable {channel message : Nat} {f : MessageRow → MessageRow} {holds : List HoldRow} {body : Text} {row : MessageRow}

variable (kept : Kept record db) (nodes : db'.nodes = db.nodes) (next : db'.nextNode = db.nextNode)
  (rows : ∀ r ∈ db.messages, r.id ≠ message → r ∈ db'.messages)

include kept nodes next rows

/-- Nodes go that hold the message or are built on nodes that go; the others keep their inputs. -/
theorem Kept.purge {root : Nat} {created : Int} : Kept record (db'.purge channel message root created) := by
  have remains : ∀ n, n ∈ (db'.purge channel message root created).nodes ↔
      n ∈ db.nodes ∧ db'.gone channel message root created n = false := by
    intro n
    rw [← nodes]
    exact Rows.mem_delete
  constructor
  case isStored => exact fun n mem => kept.isStored n ((remains n).mp mem).1
  case below => exact fun n isStored => Nat.lt_of_lt_of_eq (kept.below n isStored) next.symm
  case single => exact kept.single
  case onMessages =>
    intro n mem id stamp isInput
    obtain ⟨isNode, notGone⟩ := (remains n).mp mem
    obtain ⟨r, isRow, isId, rest⟩ := kept.onMessages n isNode id stamp isInput
    refine ⟨r, rows r isRow ?_, isId, rest⟩
    intro same
    have holds : n.holds message = true := any_eq_true.mpr ⟨_, isInput, by simp [Child.isMessage, ← isId, same]⟩
    have gone : db'.gone channel message root created n = true := Upward.upward_of_seed (by simp [holds])
    simp [notGone] at gone
  case onNodes =>
    intro n mem id isInput
    obtain ⟨isNode, notGone⟩ := (remains n).mp mem
    obtain ⟨n', isNode', isId, rest⟩ := kept.onNodes n isNode id isInput
    refine ⟨n', (remains n').mpr ⟨isNode', ?_⟩, isId, rest⟩
    by_contra gone
    have built : n.builtOn n' = true := any_eq_true.mpr ⟨_, isInput, by rw [isId]; exact beq_self_eq_true _⟩
    have gone : db'.gone channel message root created n = true :=
      Upward.upward_of_on (nodes ▸ isNode) (nodes ▸ isNode') (Bool.eq_true_of_not_eq_false gone) built
    simp [notGone] at gone
  case backed => exact fun n mem => kept.backed n ((remains n).mp mem).1

theorem Kept.purgeMessage (present : ∃ r ∈ db'.messages, r.id = message) : Kept record (db'.purgeMessage message) := by
  unfold SumDb.purgeMessage
  cases found : db'.messages.find? (·.id == message) with
  | none =>
    obtain ⟨r, isRow, same⟩ := present
    exact absurd (find?_eq_none.mp found r isRow) (by simp [same])
  | some r => exact kept.purge nodes next rows

omit kept nodes next rows

theorem purgeMessage_same (db : SumDb Key) (message : Nat) :
    (db.purgeMessage message).messages = db.messages ∧ (db.purgeMessage message).holds = db.holds ∧
      (db.purgeMessage message).nextMessage = db.nextMessage ∧
      (db.purgeMessage message).e2e = db.e2e := by
  unfold purgeMessage
  split <;> exact ⟨rfl, rfl, rfl, rfl⟩

theorem Tables.purgeMessage (tables : Tables record db) (message : Nat) : Tables record (db.purgeMessage message) := by
  obtain ⟨messages, holds, next, _⟩ := purgeMessage_same db message
  exact tables.of_same rfl rfl messages holds next

theorem mem_change {r : MessageRow} : r ∈ (db.change message f).messages ↔
      (∃ old ∈ db.messages, old.id = message ∧ r = f old) ∨ r ∈ db.messages ∧ r.id ≠ message := by
  unfold change
  rw [Rows.mem_update]
  simp only [beq_iff_eq, beq_eq_false_iff_ne, ne_eq]

theorem Tables.fewerHolds (tables : Tables record db) (fewer : ∀ h ∈ holds, h ∈ db.holds) :
    Tables record { db with holds } :=
  { tables with held := fun h mem => tables.held h (fewer h mem) }

/-! A new message -/

def Record.posting (record : Record Key) (id channel : Nat) (body : Text) : Record Key :=
  { record with wrote := insert (id, 0, body) record.wrote, home := insert (id, channel) record.home }

theorem Record.le_posting (record : Record Key) (id channel : Nat) (body : Text) :
    record ≤ record.posting id channel body :=
  ⟨Set.subset_insert _ _, Set.subset_insert _ _, subset_rfl⟩

theorem Record.Sound.posting {id : Nat} (sound : record.Sound ikey)
    (fresh : ∀ c, (id, c) ∉ record.home) : (record.posting id channel body).Sound ikey where
  homes m c c' mem mem' := by
    have single : ∀ a ∈ record.home, ∀ b ∈ record.home, a.1 = b.1 → a = b := fun a old b old' same =>
      Prod.ext same (sound.homes a.1 a.2 b.2 old (same ▸ old'))
    have isFresh : ∀ a ∈ record.home, a.1 ≠ id := fun a old same => fresh a.2 (same ▸ old)
    exact congrArg Prod.snd (eq_of_mem_insert Prod.fst isFresh single _ mem _ mem' rfl)
  keyed n mem := (sound.keyed n mem).mono (record.le_posting id channel body)

theorem Tables.single (tables : Tables record db) : ∀ a ∈ record.wrote, ∀ b ∈ record.wrote,
    (a.1, a.2.1) = (b.1, b.2.1) → a = b := by
  rintro ⟨m, s, body⟩ mem ⟨m', s', body'⟩ mem' same
  cases same
  rw [tables.one m s body body' mem mem']

variable {now : Int}

theorem Tables.insertMessage {author kind : Nat} {parent : Option Nat} (tables : Tables record db)
    (threaded : ∀ p, parent = some p → ∃ q ∈ db.messages, q.id = p ∧ q.channel = channel ∧ q.parent = none) :
    Tables (record.posting db.nextMessage channel body) (db.insertMessage channel author parent now kind body) := by
  have cases : ∀ r ∈ (db.insertMessage channel author parent now kind body).messages,
      r ∈ db.messages ∨ r = ⟨db.nextMessage, channel, author, parent, now, 0, false, kind, body⟩ :=
    fun _ => Rows.mem_insert.mp
  have older : ∀ r ∈ db.messages, r ∈ (db.insertMessage channel author parent now kind body).messages :=
    fun r mem => mem_append_left _ mem
  constructor
  case unique =>
    refine tables.unique.insert ?_
    exact fun r mem => (tables.below r mem).ne
  case home =>
    intro r mem
    rcases cases r mem with old | rfl
    · exact Set.mem_insert_of_mem _ (tables.home r old)
    · exact Set.mem_insert _ _
  case homeBelow =>
    intro m c mem
    rcases Set.mem_insert_iff.mp mem with isNew | old
    · cases isNew
      exact Nat.lt_succ_self _
    · exact Nat.lt_succ_of_lt (tables.homeBelow m c old)
  case threads =>
    intro r mem p isParent
    rcases cases r mem with old | rfl
    · obtain ⟨q, isRow, rest⟩ := tables.threads r old p isParent
      exact ⟨q, older q isRow, rest⟩
    · obtain ⟨q, isRow, rest⟩ := threaded p isParent
      exact ⟨q, older q isRow, rest⟩
  case wrote =>
    intro r mem live
    rcases cases r mem with old | rfl
    · exact Set.mem_insert_of_mem _ (tables.wrote r old live)
    · exact Set.mem_insert _ _
  case wroteBelow =>
    intro m s b mem
    rcases Set.mem_insert_iff.mp mem with isNew | old
    · cases isNew
      exact Nat.lt_succ_self _
    · exact Nat.lt_succ_of_lt (tables.wroteBelow m s b old)
  case stamps =>
    intro m s b mem r isRow same
    rcases cases r isRow with old | rfl <;> rcases Set.mem_insert_iff.mp mem with isNew | isOld
    · cases isNew
      exact absurd same ((tables.below r old).ne)
    · exact tables.stamps m s b isOld r old same
    · cases isNew
      exact le_rfl
    · exact absurd same.symm ((tables.wroteBelow m s b isOld).ne)
  case one =>
    intro m s b b' mem mem'
    have fresh : ∀ a ∈ record.wrote, (a.1, a.2.1) ≠ (db.nextMessage, 0) := fun a old same =>
      (tables.wroteBelow _ _ _ old).ne (congrArg Prod.fst same)
    exact congrArg (·.2.2) (eq_of_mem_insert (fun a => (a.1, a.2.1)) fresh tables.single _ mem _ mem' rfl)
  case held =>
    intro h mem
    obtain ⟨r, isRow, same, deleted, wrote⟩ := tables.held h mem
    exact ⟨r, older r isRow, same, deleted, Set.mem_insert_of_mem _ wrote⟩

/-! A message changed in place -/

structure InPlace (f : MessageRow → MessageRow) : Prop where
  id : ∀ r, (f r).id = r.id
  channel : ∀ r, (f r).channel = r.channel
  parent : ∀ r, (f r).parent = r.parent

theorem inPlace_edit (body : Text) (now : Int) : InPlace (edit body now) := ⟨fun _ => rfl, fun _ => rfl, fun _ => rfl⟩

theorem inPlace_erase : InPlace erase := ⟨fun _ => rfl, fun _ => rfl, fun _ => rfl⟩

theorem inPlace_bringBack (body : Text) : InPlace (bringBack body) := ⟨fun _ => rfl, fun _ => rfl, fun _ => rfl⟩

theorem Tables.change (tables : Tables record db) (inPlace : InPlace f)
    (isRow : row ∈ db.messages) (isId : row.id = message) (home : record'.home = record.home)
    (grown : record.wrote ⊆ record'.wrote)
    (isWrote : (f row).deleted = false → (message, (f row).edited, (f row).body) ∈ record'.wrote)
    (stamped : ∀ s b, (message, s, b) ∈ record'.wrote → s ≤ (f row).edited)
    (elsewhere : ∀ m s b, m ≠ message → (m, s, b) ∈ record'.wrote → (m, s, b) ∈ record.wrote)
    (one : ∀ s b b', (message, s, b) ∈ record'.wrote → (message, s, b') ∈ record'.wrote → b = b')
    (heldHere : ∀ h ∈ holds, h.message = message →
      (f row).deleted = true ∧ (message, (f row).edited, h.body) ∈ record'.wrote)
    (heldElsewhere : ∀ h ∈ holds, h.message ≠ message → h ∈ db.holds) :
    Tables record' ({ db with holds }.change message f) := by
  have only : ∀ old ∈ db.messages, old.id = message → old = row := fun old mem same =>
    tables.unique.eq mem isRow (same.trans isId.symm)
  have cases : ∀ r ∈ ({ db with holds }.change message f).messages, r = f row ∨ r ∈ db.messages ∧ r.id ≠ message := by
    intro r mem
    rcases mem_change.mp mem with ⟨old, isOld, same, rfl⟩ | other
    · exact .inl (by rw [only old isOld same])
    · exact .inr other
  have fRow : (f row).id = message := (inPlace.id row).trans isId
  have small : message < db.nextMessage := isId ▸ tables.below row isRow
  constructor
  case unique => exact tables.unique.update inPlace.id
  case home =>
    intro r mem
    rw [home]
    rcases cases r mem with rfl | ⟨old, _⟩
    · rw [inPlace.id, inPlace.channel]
      exact tables.home row isRow
    · exact tables.home r old
  case homeBelow =>
    rw [home]
    exact tables.homeBelow
  case threads =>
    -- A parent is where it was, changed or not.
    have still : ∀ q ∈ db.messages, ∃ q' ∈ ({ db with holds }.change message f).messages,
        q'.id = q.id ∧ q'.channel = q.channel ∧ q'.parent = q.parent := by
      intro q mem
      by_cases same : q.id = message
      · exact ⟨f q, mem_change.mpr (.inl ⟨q, mem, same, rfl⟩), inPlace.id q, inPlace.channel q, inPlace.parent q⟩
      · exact ⟨q, mem_change.mpr (.inr ⟨mem, same⟩), rfl, rfl, rfl⟩
    have lift : ∀ r ∈ db.messages, ∀ p, r.parent = some p → ∃ q ∈ ({ db with holds }.change message f).messages,
          q.id = p ∧ q.channel = r.channel ∧ q.parent = none := by
      intro r mem p isParent
      obtain ⟨q, isQ, same, here, top⟩ := tables.threads r mem p isParent
      obtain ⟨q', isQ', same', here', top'⟩ := still q isQ
      exact ⟨q', isQ', same'.trans same, here'.trans here, top'.trans top⟩
    intro r mem p isParent
    rcases cases r mem with rfl | ⟨old, _⟩
    · rw [inPlace.parent] at isParent
      rw [inPlace.channel]
      exact lift row isRow p isParent
    · exact lift r old p isParent
  case wrote =>
    intro r mem live
    rcases cases r mem with rfl | ⟨old, _⟩
    · rw [fRow]
      exact isWrote live
    · exact grown (tables.wrote r old live)
  case wroteBelow =>
    intro m s b mem
    by_cases same : m = message
    · rw [same]
      exact small
    · exact tables.wroteBelow m s b (elsewhere m s b same mem)
  case stamps =>
    intro m s b mem r isRow' same
    rcases cases r isRow' with rfl | ⟨old, other⟩
    · rw [← same, fRow] at mem
      exact stamped s b mem
    · exact tables.stamps m s b (elsewhere m s b (same ▸ other) mem) r old same
  case one =>
    intro m s b b' mem mem'
    by_cases same : m = message
    · subst same
      exact one s b b' mem mem'
    · exact tables.one m s b b' (elsewhere m s b same mem) (elsewhere m s b' same mem')
  case held =>
    intro h mem
    by_cases here : h.message = message
    · obtain ⟨deleted, wrote⟩ := heldHere h mem here
      refine ⟨f row, mem_change.mpr (.inl ⟨row, isRow, isId, rfl⟩), fRow.trans here.symm, deleted, ?_⟩
      rw [fRow]
      exact wrote
    · obtain ⟨r, isOld, same, deleted, wrote⟩ := tables.held h (heldElsewhere h mem here)
      exact ⟨r, mem_change.mpr (.inr ⟨isOld, same ▸ here⟩), same, deleted, grown wrote⟩

def Record.writing (record : Record Key) (id : Nat) (stamp : Int) (body : Text) : Record Key :=
  { record with wrote := insert (id, stamp, body) record.wrote }

theorem Record.le_writing (record : Record Key) (id : Nat) (stamp : Int) (body : Text) :
    record ≤ record.writing id stamp body :=
  ⟨Set.subset_insert _ _, subset_rfl, subset_rfl⟩

theorem Record.Sound.writing {id : Nat} {stamp : Int} (sound : record.Sound ikey) :
    (record.writing id stamp body).Sound ikey where
  homes := sound.homes
  keyed n mem := (sound.keyed n mem).mono (record.le_writing id stamp body)

variable (tables : Tables record db) (isRow : row ∈ db.messages) (isId : row.id = message) (live : row.deleted = false)

include tables isRow isId live

theorem Tables.unheld : ∀ h ∈ db.holds, h.message ≠ message := by
  intro h mem same
  obtain ⟨r, isHeld, isTheirs, deleted, -⟩ := tables.held h mem
  rw [tables.unique.eq isHeld isRow (isTheirs.trans (same.trans isId.symm)), live] at deleted
  cases deleted

theorem Tables.edit (later : row.edited < now) :
    Tables (record.writing message now body) (db.change message (edit body now)) := by
  have older : ∀ s b, (message, s, b) ∈ record.wrote → s < now := fun s b mem =>
    lt_of_le_of_lt (tables.stamps message s b mem row isRow isId) later
  have unheld := tables.unheld isRow isId live
  refine tables.change (inPlace_edit body now) isRow isId rfl (Set.subset_insert _ _) ?_ ?_ ?_ ?_ ?_ ?_
  · exact fun _ => Set.mem_insert _ _
  · intro s b mem
    rcases Set.mem_insert_iff.mp mem with isNew | old
    · cases isNew
      exact le_rfl
    · exact (older s b old).le
  · intro m s b other mem
    rcases Set.mem_insert_iff.mp mem with isNew | old
    · cases isNew
      exact absurd rfl other
    · exact old
  · intro s b b' mem mem'
    have fresh : ∀ a ∈ record.wrote, (a.1, a.2.1) ≠ (message, now) := by
      rintro a old same
      cases same
      exact lt_irrefl _ (older _ _ old)
    exact congrArg (·.2.2) (eq_of_mem_insert (fun a => (a.1, a.2.1)) fresh tables.single _ mem _ mem' rfl)
  · exact fun h mem same => absurd same (unheld h mem)
  · exact fun h mem _ => mem

theorem Tables.delete {user : Nat} : Tables record ((db.holdDeleted row user now).change message erase) := by
  have wrote := tables.wrote row isRow live
  rw [isId] at wrote
  have unheld := tables.unheld isRow isId live
  have stamped : ∀ s b, (message, s, b) ∈ record.wrote → s ≤ row.edited := fun s b mem =>
    tables.stamps message s b mem row isRow isId
  have changed : ∀ holds : List HoldRow, (∀ h ∈ holds, h.message = message → h.body = row.body) →
      (∀ h ∈ holds, h.message ≠ message → h ∈ db.holds) →
      Tables record ({ db with holds }.change message erase) := by
    intro holds here elsewhere
    refine tables.change inPlace_erase isRow isId rfl subset_rfl ?_ stamped (fun _ _ _ _ => id)
      (tables.one message) ?_ elsewhere
    · rintro ⟨⟩
    · intro h mem same
      rw [here h mem same]
      exact ⟨rfl, wrote⟩
  unfold holdDeleted
  split
  · exact changed db.holds (fun h mem same => absurd same (unheld h mem)) (fun h mem _ => mem)
  apply changed
  · intro h mem same
    rcases mem_append.mp mem with old | isNew
    · exact absurd same (unheld h (Rows.mem_delete.mp old).1)
    · rw [mem_singleton.mp isNew]
  · intro h mem other
    rcases mem_append.mp mem with old | isNew
    · exact (Rows.mem_delete.mp old).1
    · rw [mem_singleton.mp isNew] at other
      exact absurd isId other

omit live

theorem Tables.bringBack {hold : HoldRow} (isHold : hold ∈ db.holds) (isTheirs : hold.message = message) :
    Tables record ((db.dropHold message).change message (bringBack hold.body)) := by
  obtain ⟨r, isHeld, same, -, wrote⟩ := tables.held hold isHold
  rw [tables.unique.eq isHeld isRow (same.trans (isTheirs.trans isId.symm)), isId] at wrote
  refine tables.change (inPlace_bringBack hold.body) isRow isId rfl subset_rfl (fun _ => wrote)
    (fun s b mem => tables.stamps message s b mem row isRow isId) (fun _ _ _ _ => id)
    (tables.one message) ?_ ?_
  · intro h mem same
    have other := (Rows.mem_delete.mp mem).2
    simp [same] at other
  · exact fun h mem _ => (Rows.mem_delete.mp mem).1

omit tables isRow isId

/-! One job -/

theorem Kept.withHolds (kept : Kept record db) : Kept record { db with holds } :=
  { kept with }

structure Agrees (world : World ikey) (db : SumDb Key) : Prop where
  tables : Tables world.1 db
  kept : Kept world.1 db

variable {world : World ikey}

theorem Agrees.post (agrees : Agrees world db) (channel author kind : Nat) (parent : Option Nat) (now : Int)
    (body : Text)
    (threaded : ∀ p, parent = some p → ∃ q ∈ db.messages, q.id = p ∧ q.channel = channel ∧ q.parent = none) :
    ∃ later : World ikey, world ≤ later ∧ Agrees later (db.insertMessage channel author parent now kind body) ∧
      Agrees later ((db.insertMessage channel author parent now kind body).purgeMessage db.nextMessage) := by
  have fresh : ∀ c, (db.nextMessage, c) ∉ world.1.home := fun c mem =>
    lt_irrefl _ (agrees.tables.homeBelow _ c mem)
  let later : World ikey := ⟨world.1.posting db.nextMessage channel body, world.2.posting fresh⟩
  have tables : Tables later.1 (db.insertMessage channel author parent now kind body) :=
    agrees.tables.insertMessage threaded
  have kept : Kept later.1 db := agrees.kept.grow rfl (Set.subset_insert _ _)
  have rows : ∀ r ∈ db.messages, r ∈ (db.insertMessage channel author parent now kind body).messages :=
    fun r mem => mem_append_left _ mem
  refine ⟨later, world.1.le_posting _ _ _, ⟨tables, ?_⟩, ⟨tables.purgeMessage _, ?_⟩⟩
  · refine { kept with onMessages := ?_ }
    intro n mem id stamp isInput
    obtain ⟨r, isRow, rest⟩ := kept.onMessages n mem id stamp isInput
    exact ⟨r, rows r isRow, rest⟩
  · refine kept.purgeMessage rfl rfl (fun r mem _ => rows r mem) ?_
    exact ⟨_, mem_concat_self, rfl⟩

theorem Kept.changed (kept : Kept record db) (inPlace : InPlace f) (isRow : row ∈ db.messages)
    (isId : row.id = message) :
    Kept record (({ db with holds }.change message f).purgeMessage message) := by
  refine kept.purgeMessage rfl rfl ?_ ?_
  · exact fun r mem other => mem_change.mpr (.inr ⟨mem, other⟩)
  · exact ⟨f row, mem_change.mpr (.inl ⟨row, isRow, isId, rfl⟩), (inPlace.id row).trans isId⟩

theorem Tables.of_parent (tables : Tables record db) {parent : Nat} (found : db.lookup channel parent = some row) :
    ∃ q ∈ db.messages, q.id = row.root ∧ q.channel = channel ∧ q.parent = none := by
  obtain ⟨isRow, _, here⟩ := of_lookup found
  unfold root
  cases isParent : row.parent with
  | none => exact ⟨row, isRow, rfl, here, isParent⟩
  | some p =>
    obtain ⟨q, isQ, same, there, top⟩ := tables.threads row isRow p isParent
    exact ⟨q, isQ, same, there.trans here, top⟩

theorem holdDeleted_eq (db : SumDb Key) (row : MessageRow) (user : Nat) (now : Int) :
    ∃ holds, db.holdDeleted row user now = { db with holds } := by
  unfold holdDeleted
  split
  · exact ⟨_, rfl⟩
  · exact ⟨_, rfl⟩

theorem Agrees.process {job : SumJob} (agrees : Agrees world db) (later : EditsLater db now job)
    (whole : RestoresWhole db job) : ∃ later : World ikey, world ≤ later ∧ Agrees later (db.process now job) := by
  have purged : Agrees world (db.holdsPurge now) :=
    ⟨agrees.tables.fewerHolds (holdsPurge_fewer db now), agrees.kept.withHolds⟩
  have done := process_cases db now job
  generalize db.process now job = ended at done ⊢
  cases done with
  | idle fewer => exact ⟨world, le_rfl, agrees.tables.fewerHolds fewer, agrees.kept.withHolds⟩
  | @sent channel user body granted =>
    obtain ⟨after, grown, _, result⟩ := agrees.post channel user 0 none now body (by rintro _ ⟨⟩)
    exact ⟨after, grown, result⟩
  | @replied channel user parent body granted row found =>
    have threaded : ∀ p, some row.root = some p → ∃ q ∈ db.messages, q.id = p ∧
        q.channel = channel ∧ q.parent = none := by
      rintro _ ⟨⟩
      exact agrees.tables.of_parent found
    obtain ⟨after, grown, _, result⟩ := agrees.post channel user 0 (some row.root) now body threaded
    exact ⟨after, grown, result⟩
  | @hooked channel creator body =>
    obtain ⟨after, grown, result, _⟩ := agrees.post channel creator 0 none now body (by rintro _ ⟨⟩)
    exact ⟨after, grown, result⟩
  | @called channel user body =>
    obtain ⟨after, grown, result, _⟩ := agrees.post channel user callKind none now body (by rintro _ ⟨⟩)
    exact ⟨after, grown, result⟩
  | @edited channel message user body granted row found live =>
    obtain ⟨isRow, isId, _⟩ := of_lookup found
    let after : World ikey := ⟨world.1.writing message now body, world.2.writing⟩
    have tables : Tables after.1 (db.change message (edit body now)) :=
      agrees.tables.edit isRow isId live (later row isRow isId)
    have kept : Kept after.1 db := agrees.kept.grow rfl (Set.subset_insert _ _)
    exact ⟨after, world.1.le_writing _ _ _, tables.purgeMessage message,
      kept.changed (inPlace_edit body now) isRow isId⟩
  | @deleted channel message user granted row found live =>
    obtain ⟨isRow, isId, _⟩ := of_lookup found
    have tables : Tables world.1 (((db.holdsPurge now).holdDeleted row user now).change message
        erase) := purged.tables.delete isRow isId live
    obtain ⟨holds, same⟩ := holdDeleted_eq (db.holdsPurge now) row user now
    rw [same] at tables ⊢
    exact ⟨world, le_rfl, tables.purgeMessage message, purged.kept.changed inPlace_erase isRow isId⟩
  | @restored channel message user granted row hold found isHold isTheirs =>
    obtain ⟨isRow, isId, _⟩ := of_lookup found
    rw [cstr_eq_self (whole hold (holdsPurge_fewer db now hold isHold) isTheirs)]
    have tables := purged.tables.bringBack isRow isId isHold isTheirs
    obtain ⟨messages, holds, next, _⟩ := purgeMessage_same
      ((db.holdsPurge now).change message (bringBack hold.body)) message
    refine ⟨world, le_rfl, tables.of_same rfl rfl messages ?_ next, ?_⟩
    · exact congrArg (Rows.delete (·.message == message)) holds
    · exact (purged.kept.changed (inPlace_bringBack hold.body) isRow isId).withHolds

theorem Agrees.store {version : Text} {batch : List (NewNode Key)} (agrees : Agrees world db)
    (ok : BuildOk ikey world.1 channel { nodes := batch }) :
    ∃ later : World ikey, world ≤ later ∧ Agrees later (db.store channel version batch) := by
  unfold SumDb.store
  split
  · next stored same =>
    have none : Made db channel batch [] := by
      intro index id entry
      cases entry
    obtain ⟨later, grown, tables, kept⟩ :=
      storeNodes_kept (nil_append batch).symm rfl ok agrees.tables agrees.kept none same
    exact ⟨later, grown, tables, kept⟩
  · exact ⟨world, le_rfl, agrees⟩

end Jobs

section Runs

variable {ikey : KeyOf Key → Key}

/-- The tables agree with the record, and the build under way can only come to a batch that does. -/
structure Coherent (ikey : KeyOf Key → Key) (state : SumState Key) (world : World ikey) : Prop where
  agrees : Agrees world state.db
  worker : ∀ r, state.worker = some r →
    r.talk.Sound Right (fun later nodes => BuildOk ikey later.1 r.channel { nodes }) world

variable {state after : SumState Key} {world : World ikey}

theorem Coherent.advance {reply : (question : Question Key) → Option (Reply question)}
    (coherent : Coherent ikey state world)
    (right : ∀ question answer, reply question = some answer → Right world question answer)
    (taken : state.advance reply = some after) : Coherent ikey after world := by
  obtain ⟨r', goes, rfl⟩ := Option.map_eq_some_iff.mp taken
  obtain ⟨r, isWorker, goes⟩ := Option.bind_eq_some_iff.mp goes
  refine ⟨coherent.agrees, ?_⟩
  rintro _ ⟨⟩
  have sound := coherent.worker r isWorker
  unfold Running.goOn at goes
  cases isTalk : r.talk with
  | done nodes =>
    simp [isTalk] at goes
  | call question next =>
    rw [isTalk] at goes sound
    obtain ⟨answer, given, rfl⟩ := Option.map_eq_some_iff.mp goes
    exact sound world le_rfl answer (right question answer given)

theorem Coherent.begin {r : Running Key} (coherent : Coherent ikey state world)
    (sound : r.talk.Sound Right (fun later nodes => BuildOk ikey later.1 r.channel { nodes }) world)
    (taken : state.begin r = some after) : Coherent ikey after world := by
  unfold SumState.begin at taken
  split at taken
  · cases taken
  cases taken
  refine ⟨coherent.agrees, ?_⟩
  rintro _ ⟨⟩
  exact sound

def Whole (state : SumState Key) : SumEvent Key → Prop
  | .job now job => EditsLater state.db now job ∧ RestoresWhole state.db job
  | _ => True

theorem Coherent.step [DecidableEq Key] (distinct : Function.Injective ikey) {event : SumEvent Key}
    (coherent : Coherent ikey state world) (whole : Whole state event) (taken : step ikey state event = some after) :
    ∃ later : World ikey, world ≤ later ∧ Coherent ikey after later := by
  cases event with
  | job now job =>
    cases taken
    obtain ⟨later, grown, agrees⟩ := coherent.agrees.process whole.1 whole.2
    exact ⟨later, grown, agrees, fun r isWorker => (coherent.worker r isWorker).mono grown⟩
  | build cfg channel start stop zone =>
    exact ⟨world, le_rfl, coherent.begin (runBuild_sound distinct world) taken⟩
  | chunks cfg channel start stop =>
    exact ⟨world, le_rfl, coherent.begin (runChunks_sound distinct world) taken⟩
  | read =>
    exact ⟨world, le_rfl, coherent.advance
      (fun _ _ given => answer_right coherent.agrees.tables coherent.agrees.kept given) taken⟩
  | answer body =>
    exact ⟨world, le_rfl, coherent.advance (fun _ _ given => modelAnswer_right given) taken⟩
  | store =>
    dsimp only [Summary.step, SumState.storeBatch] at taken
    split at taken
    · next channel version nodes isWorker =>
      cases taken
      have ok := coherent.worker _ isWorker world le_rfl
      obtain ⟨later, grown, agrees⟩ := coherent.agrees.store ok
      exact ⟨later, grown, agrees, by rintro _ ⟨⟩⟩
    · cases taken
  | stop =>
    cases taken
    exact ⟨world, le_rfl, coherent.agrees, by rintro _ ⟨⟩⟩

theorem coherent_start (e2e : Nat → Bool) (restoreWindow : Int) :
    ∃ world : World ikey, Coherent ikey (SumState.start e2e restoreWindow) world := by
  refine ⟨⟨⟨∅, ∅, ∅⟩, ⟨by rintro _ _ _ ⟨⟩, by rintro _ ⟨⟩⟩⟩, ⟨?_, ?_⟩, by rintro _ ⟨⟩⟩
  · constructor <;> intros <;> simp_all [SumState.start, empty, Rows.Unique]
  · constructor <;> intros <;> simp_all [SumState.start, empty]

/-- In every run whose restores bring back no NUL: a message whose text a stored node was made of is
an input of that node, directly or through other stored nodes, is in its channel, is not deleted and
has the body it had when it was read. -/
theorem stored_summary_never_outlives_what_it_says [DecidableEq Key] (distinct : Function.Injective ikey)
    {e2e : Nat → Bool} {restoreWindow : Int} {events : List (SumEvent Key)} {state : SumState Key}
    (run : Machine.Run (step ikey) Whole (SumState.start e2e restoreWindow) events state) :
    ∀ n ∈ state.db.nodes, ∀ shown ∈ n.texts, Rests state.db.nodes shown.1 n ∧
      ∃ r ∈ state.db.messages, r.id = shown.1 ∧ r.channel = n.channel ∧ r.deleted = false ∧ r.body = shown.2 := by
  have coherent : ∃ world : World ikey, Coherent ikey state world := by
    refine run.invariant (fun _ state => ∃ world : World ikey, Coherent ikey state world)
      (coherent_start e2e restoreWindow) ?_
    rintro _ event state after ⟨world, coherent⟩ whole taken
    obtain ⟨later, _, coherent⟩ := coherent.step distinct whole taken
    exact ⟨later, coherent⟩
  obtain ⟨world, coherent⟩ := coherent
  intro n mem shown isText
  exact coherent.agrees.kept.texts coherent.agrees.tables mem isText

end Runs

/-! ### A body with a NUL

Keys that are what they are made of, so that no two are the same. -/

inductive PlainKey where
  | chunk (inputs : List (Nat × Int))
  | part (message : Nat) (stamp : Int) (k n : Nat)
  | period (inputs : List Input) (start stop zone : Int)
  | nil (kind : NodeKind) (dated : Option Int)
  | cons (head tail : PlainKey)
deriving DecidableEq

def PlainKey.list (kind : NodeKind) (dated : Option Int) : List PlainKey → PlainKey
  | [] => .nil kind dated
  | key :: keys => .cons key (list kind dated keys)

def PlainKey.of : KeyOf PlainKey → PlainKey
  | .chunk inputs => .chunk inputs
  | .part message stamp k n => .part message stamp k n
  | .period inputs start stop zone => .period inputs start stop zone
  | .kids kind keys dated => list kind dated keys

theorem PlainKey.list_inj {keys keys' : List PlainKey} {kind kind' : NodeKind}
    {dated dated' : Option Int} (same : list kind dated keys = list kind' dated' keys') :
    KeyOf.kids kind keys dated = .kids kind' keys' dated' := by
  induction keys generalizing keys' with
  | nil =>
    cases keys' with
    | nil =>
      cases same
      rfl
    | cons key' keys' => cases same
  | cons key keys ih =>
    cases keys' with
    | nil => cases same
    | cons key' keys' =>
      injection same with head tail
      cases ih tail
      rw [head]

theorem PlainKey.list_cases (kind : NodeKind) (dated : Option Int) (keys : List PlainKey) :
    list kind dated keys = .nil kind dated ∨ ∃ head tail, list kind dated keys = .cons head tail := by
  cases keys with
  | nil => exact .inl rfl
  | cons key keys => exact .inr ⟨_, _, rfl⟩

theorem PlainKey.of_injective : Function.Injective PlainKey.of := by
  intro a b same
  cases a with
  | kids kind keys dated =>
    cases b with
    | kids kind' keys' dated' => exact PlainKey.list_inj same
    | _ =>
      rcases PlainKey.list_cases kind dated keys with isNil | ⟨head, tail, isCons⟩
      · cases isNil.symm.trans same
      · cases isCons.symm.trans same
  | _ =>
    cases b with
    | kids kind keys dated =>
      rcases PlainKey.list_cases kind dated keys with isNil | ⟨head, tail, isCons⟩
      · cases same.trans isNil
      · cases same.trans isCons
    | _ =>
      cases same
      try rfl

instance {db : SumDb Key} {now : Int} {job : SumJob} : Decidable (EditsLater db now job) :=
  match job with
  | .edit _ message _ _ _ =>
    inferInstanceAs (Decidable (∀ r ∈ db.messages, r.id = message → r.edited < now))
  | .send .. | .reply .. | .webhookPost .. | .callEvent .. | .delete .. | .restore .. => isTrue trivial

instance {db : SumDb Key} {job : SumJob} : Decidable (RestoresWhole db job) :=
  match job with
  | .restore _ message _ _ =>
    inferInstanceAs (Decidable (∀ h ∈ db.holds, h.message = message → 0 ∉ h.body))
  | .send .. | .reply .. | .webhookPost .. | .callEvent .. | .delete .. | .edit .. => isTrue trivial

def Timely (state : SumState Key) : SumEvent Key → Prop
  | .job now job => EditsLater state.db now job
  | _ => True

instance {state : SumState Key} {event : SumEvent Key} : Decidable (Timely state event) :=
  match event with
  | .job now job => inferInstanceAs (Decidable (EditsLater state.db now job))
  | .build .. | .chunks .. | .read | .answer _ | .store | .stop => isTrue trivial

instance {state : SumState Key} {event : SumEvent Key} : Decidable (Whole state event) :=
  match event with
  | .job now job =>
    inferInstanceAs (Decidable (EditsLater state.db now job ∧ RestoresWhole state.db job))
  | .build .. | .chunks .. | .read | .answer _ | .store | .stop => isTrue trivial

def plainConfig : SumConfig PlainKey :=
  { version := [], threshold := 1000, gap := 1000, tokens := fun _ => 1, partCount := fun _ => 1
    kidsTokens := fun _ _ => some 1, linesTokens := fun _ => 1, bodyEmpty := fun _ => false }

/-- A message is read for a period; before the period is stored it is deleted and restored. -/
def undoneWhileBuilding (body : Text) : List (SumEvent PlainKey) :=
  [.job 1000 (.send 1 7 body true), .build plainConfig 1 0 5000 0, .read, .read, .read,
    .answer (some [46]), .job 1100 (.delete 1 1 7 true), .job 1200 (.restore 1 1 7 true), .store]

theorem summary_of_a_cut_body : ∃ (events : List (SumEvent PlainKey)) (state : SumState PlainKey),
      Machine.Run (step PlainKey.of) Timely (SumState.start (fun _ => false) 120000) events state ∧
        ∃ n ∈ state.db.nodes, ∃ shown ∈ n.texts, ∀ r ∈ state.db.messages, r.id = shown.1 → r.body ≠ shown.2 := by
  obtain ⟨state, followed⟩ : ∃ state, Machine.follow (step PlainKey.of)
      (fun state event => decide (Timely state event)) (SumState.start (fun _ => false) 120000)
      (undoneWhileBuilding [97, 0, 98]) = some state := ⟨_, rfl⟩
  have run : Machine.Run (step PlainKey.of) Timely (SumState.start (fun _ => false) 120000)
      ([] ++ undoneWhileBuilding [97, 0, 98]) state :=
    Machine.Run.nil.of_follow (fun _ _ => of_decide_eq_true) followed
  have rows : state.db.messages.map (fun r => (r.id, r.body)) = [(1, [97])] := by
    cases followed
    rfl
  have texts : state.db.nodes.map (·.texts) = [[(1, [97, 0, 98])]] := by
    cases followed
    rfl
  obtain ⟨n, isNode, same⟩ := mem_map.mp (texts ▸ mem_cons_self)
  refine ⟨_, state, run, n, isNode, (1, [97, 0, 98]), same ▸ mem_cons_self, ?_⟩
  intro r isRow _ isBody
  have mem : (r.id, r.body) ∈ [((1 : Nat), ([97] : Text))] := rows ▸ mem_map_of_mem isRow
  rw [isBody] at mem
  simp at mem

theorem stored_summary_never_outlives_what_it_says_undone : ∃ state : SumState PlainKey,
      Machine.Run (step PlainKey.of) Whole (SumState.start (fun _ => false) 120000)
        ([] ++ undoneWhileBuilding [97, 98]) state ∧
      ∃ n ∈ state.db.nodes, (1, [97, 98]) ∈ n.texts ∧ Rests state.db.nodes 1 n ∧
        ∃ r ∈ state.db.messages, r.id = 1 ∧ r.channel = n.channel ∧ r.deleted = false ∧ r.body = [97, 98] := by
  obtain ⟨state, followed⟩ : ∃ state, Machine.follow (step PlainKey.of)
      (fun state event => decide (Whole state event)) (SumState.start (fun _ => false) 120000)
      (undoneWhileBuilding [97, 98]) = some state := ⟨_, rfl⟩
  have run : Machine.Run (step PlainKey.of) Whole (SumState.start (fun _ => false) 120000)
      ([] ++ undoneWhileBuilding [97, 98]) state :=
    Machine.Run.nil.of_follow (fun _ _ => of_decide_eq_true) followed
  have texts : state.db.nodes.map (·.texts) = [[(1, [97, 98])]] := by
    cases followed
    rfl
  obtain ⟨n, isNode, same⟩ := mem_map.mp (texts ▸ mem_cons_self)
  have isText : (1, [97, 98]) ∈ n.texts := same ▸ mem_cons_self
  exact ⟨state, run, n, isNode, isText,
    stored_summary_never_outlives_what_it_says PlainKey.of_injective run n isNode _ isText⟩

end OpenChime.Daemon.Summary
