import OpenChime.Crypto.RatchetInvariant

/-! The first delivery of a message, wherever the receiver stands: its key was kept when
it was passed, it lies ahead in the receiving chain, or it belongs to the chain the
sender has turned to. Each opens it and keeps the invariant. -/

set_option autoImplicit false

namespace OpenChime.Crypto

open List Ratchet World Party Function Crypto.Flow

variable {Key Nonce : Type}

/-- The world once `p` has taken a message: its ratchet, what has been delivered to it,
and one more key pair drawn. -/
def World.took (w : World Key Nonce) (p : Party) (after : Ratchet Key)
    (delivered : List (Sent Key)) (pk : Key) : World Key Nonce :=
  { w with
    ratchet := update w.ratchet p after
    delivered := update w.delivered p delivered
    drawn := pk :: w.drawn }

variable {prim : Primitives Key Nonce} {origin : Key → Origin Key} {drawn : List Key}
  {ad fresh dhOut' : Key} {s r : Ratchet Key} {sent delivered : List (Sent Key)} {f : Flow Key}
  {passed : List (Header Key)} {m : Sent Key} {p ahead : Party} {lane : Lane Key} {n : Nat}
  {skipped : Slots.Table (Skipped Key) maxSkip} {w : World Key Nonce} {flow : Party → Flow Key} {owner : Party}
  (sends : Sends prim origin drawn ad owner s sent f)

include sends

theorem Sends.receive (drawnPk : Key) (skipped : Slots.Table (Skipped Key) maxSkip) (ckr : Option Key) (nr : Nat) :
    Sends prim origin (drawnPk :: drawn) ad owner { s with skipped, ckr, nr } sent f :=
  { sends with valid := fun pk known => (sends.valid pk known).mono drawnPk }

theorem Sends.pass (drawnPk : Key) (known : ∀ pk ∈ { f with passed }.keys, pk ∈ f.keys) :
    Sends prim origin (drawnPk :: drawn) ad owner s sent { f with passed } :=
  { sends with
    valid := fun pk member => (sends.valid pk (known pk member)).mono drawnPk
    apart := fun pk member => sends.apart pk (known pk member) }

theorem Sends.mem_iff_header (heard : ∀ m ∈ delivered, m ∈ sent) (sentHere : m ∈ sent) :
    m.header ∈ delivered.map (·.header) ↔ m ∈ delivered := by
  constructor
  · intro listed
    obtain ⟨m', arrived, same⟩ := mem_map.mp listed
    have := inj_on_of_nodup_map sends.unique (heard m' arrived) sentHere same
    exact this ▸ arrived
  · exact mem_map_of_mem

omit sends

def turnedTo (prim : Primitives Key Nonce) (fresh : Key) (r : Ratchet Key) (lane : Lane Key)
    (dhOut dhOut' : Key) (n : Nat) (skipped : Slots.Table (Skipped Key) maxSkip) : Ratchet Key :=
  (r.turned prim fresh lane.pk dhOut dhOut').movedTo prim (prim.hkdfRoot r.rk dhOut).2 (n + 1) skipped

theorem Sends.turn {dhOut : Key} (sends : Sends prim origin drawn ad p r sent f)
    (known : ∀ m ∈ sent, m.header.dh ∈ f.keys) (next : f.next = none) (unused : prim.publicKey fresh ∉ drawn)
    (theirs : (origin lane.pk).Valid prim drawn p.other lane.pk)
    (born : origin (prim.publicKey fresh) = ⟨p, fresh, (prim.hkdfRoot r.rk dhOut).1, dhOut', lane.pk, r.ns⟩)
    (agreed : prim.x25519 fresh lane.pk = some dhOut') :
    Sends prim origin (prim.publicKey fresh :: drawn) ad p
      (turnedTo prim fresh r lane dhOut dhOut' n skipped) sent
      { f with next := some ⟨prim.publicKey fresh, 0⟩ } := by
  have differs : ∀ pk ∈ drawn, pk ≠ prim.publicKey fresh := fun pk member same => unused (same ▸ member)
  have keys : { f with next := some ⟨prim.publicKey fresh, 0⟩ }.keys =
      f.keys ++ [prim.publicKey fresh] := by
    simp [Flow.keys, seen, next]
  refine { sends with numbered := ?_, valid := ?_, apart := ?_, live := ?_, idle := ?_, bounded := ?_ }
  · intro m sentHere same
    exact absurd same (differs _ (sends.valid _ (known m sentHere)).pkDrawn)
  · rw [keys]
    intro pk member
    rcases mem_append.mp member with old | new
    · exact (sends.valid pk old).mono _
    obtain rfl := mem_singleton.mp new
    rw [born]
    exact
      { owner := rfl
        pair := rfl
        peerPair := ⟨_, theirs.pair⟩
        agreed := agreed
        pkDrawn := mem_cons_self
        peerDrawn := mem_cons_of_mem _ theirs.pkDrawn }
  · rw [keys]
    intro pk member
    rcases mem_append.mp member with old | new
    · have valid := sends.valid pk old
      refine ⟨differs _ valid.peerDrawn, fun same => ?_⟩
      have samePk : lane.pk = pk := Option.some.inj same
      subst samePk
      exact other_ne p (theirs.owner.symm.trans valid.owner)
    · obtain rfl := mem_singleton.mp new
      rw [born]
      refine ⟨differs _ theirs.pkDrawn, fun same => ?_⟩
      exact differs _ theirs.pkDrawn (Option.some.inj same)
  · intro lane' live
    obtain rfl : (⟨prim.publicKey fresh, 0⟩ : Lane Key) = lane' := Option.some.inj live
    simp only [born]
    exact ⟨rfl, rfl, rfl, rfl⟩
  · intro nothing
    cases nothing
  · intro lane' which
    rcases which with current | isNext
    · exact sends.bounded lane' (.inl current)
    · obtain rfl : (⟨prim.publicKey fresh, 0⟩ : Lane Key) = lane' := Option.some.inj isNext
      exact Nat.zero_lt_succ _

theorem Sends.followed {q : Party} (sends : Sends prim origin drawn ad q s sent f) (drawnPk : Key)
    (next : f.next = some lane) (known : ∀ pk ∈ (⟨passed, some lane, none⟩ : Flow Key).keys, pk ∈ f.keys) :
    Sends prim origin (drawnPk :: drawn) ad q s sent ⟨passed, some lane, none⟩ := by
  have live : f.live = some lane := by simp [Flow.live, next]
  refine { sends with valid := ?_, apart := ?_, live := ?_, idle := ?_, bounded := ?_ }
  · exact fun pk member => (sends.valid pk (known pk member)).mono _
  · exact fun pk member => sends.apart pk (known pk member)
  · intro lane' live'
    obtain rfl : lane = lane' := Option.some.inj live'
    exact sends.live lane live
  · intro nothing
    cases nothing
  · intro lane' which
    rcases which with current | isNext
    · obtain rfl : lane = lane' := Option.some.inj current
      exact sends.bounded lane (.inr next)
    · cases isNext

variable [DecidableEq Key]

theorem Inv.took_within (inv : Inv prim w ad origin flow ahead) (p : Party) (drawnPk : Key)
    {ckr : Option Key} {nr : Nat} (passed : List (Header Key))
    (known : ∀ pk ∈ { flow p.other with passed }.keys, pk ∈ (flow p.other).keys)
    (hears : Hears prim origin { w.ratchet p with skipped, ckr, nr } (w.sent p.other) delivered
      { flow p.other with passed }) :
    Inv prim (w.took p { w.ratchet p with skipped, ckr, nr } delivered drawnPk) ad origin
      (update flow p.other { flow p.other with passed }) ahead where
  ads q := by
    rcases eq_or_eq_other q p with rfl | rfl <;> simp [took, inv.ads]
  pair q := by
    rcases eq_or_eq_other q p with rfl | rfl <;> simp [took, inv.pair]
  pkDrawn q := by
    rcases eq_or_eq_other q p with rfl | rfl <;> simp [took, inv.pkDrawn]
  dhrDrawn q pk held := by
    apply mem_cons_of_mem
    apply inv.dhrDrawn q pk
    rcases eq_or_eq_other q p with rfl | rfl <;> simpa [took] using held
  sends q := by
    rcases eq_or_eq_other q p with rfl | rfl
    · simpa [took, (other_ne q).symm] using (inv.sends q).receive drawnPk skipped ckr nr
    · simpa [took] using (inv.sends p.other).pass drawnPk known
  hears q := by
    rcases eq_or_eq_other q p with rfl | rfl
    · simpa [took] using hears
    · simpa [took, (other_ne p).symm] using inv.hears p.other
  log := inv.log
  tie := by
    obtain ⟨lane, tie⟩ := inv.tie
    refine ⟨lane, ?_⟩
    rcases eq_or_eq_other ahead p with rfl | rfl
    · simpa [took, (other_ne ahead).symm] using { tie with }
    · rw [other_other] at tie
      simpa [took] using { tie with }
  settled := by
    rcases eq_or_eq_other ahead p with rfl | rfl
    · simpa using inv.settled
    · simpa [(other_ne p).symm] using inv.settled

theorem missing_append (delivered : List (Sent Key)) (passed more : List (Header Key)) :
    missing delivered (passed ++ more) = missing delivered passed ++ missing delivered more :=
  filter_append ..

theorem missing_of_unheard {more : List (Header Key)} (heard : ∀ m ∈ delivered, m.header ∈ passed)
    (unique : (passed ++ more).Nodup) : missing delivered more = more := by
  apply filter_eq_self.mpr
  intro h later
  simp only [decide_eq_true_eq, mem_map, not_exists, not_and]
  rintro m arrived rfl
  exact disjoint_of_nodup_append unique (heard m arrived) later

theorem missing_cons_of_notMem (absent : m.header ∉ passed) :
    missing (m :: delivered) passed = missing delivered passed := by
  apply filter_congr
  intro h member
  have differs : h ≠ m.header := fun same => absent (same ▸ member)
  simp [differs]

theorem missing_extend {skipped : List (Header Key)} (heard : ∀ m ∈ delivered, m.header ∈ passed)
    (unique : (passed ++ skipped ++ [m.header]).Nodup) :
    missing (m :: delivered) (passed ++ skipped ++ [m.header]) = missing delivered passed ++ skipped := by
  have before : m.header ∉ passed ++ skipped := fun earlier =>
    disjoint_of_nodup_append unique earlier mem_cons_self
  have uniqueBefore := unique.of_append_left
  rw [missing_append, missing_cons_of_notMem before, missing_append, missing_of_unheard heard uniqueBefore]
  simp [missing]

theorem missing_perm_cons (unique : passed.Nodup) (passedHere : m.header ∈ passed)
    (unheard : m.header ∉ delivered.map (·.header)) :
    (missing delivered passed).Perm (m.header :: missing (m :: delivered) passed) := by
  have listed : m.header ∈ missing delivered passed := by
    simpa [missing, passedHere] using unheard
  have rest : missing (m :: delivered) passed = (missing delivered passed).erase m.header := by
    have uniqueMissing : (missing delivered passed).Nodup := unique.filter _
    rw [uniqueMissing.erase_eq_filter]
    simp only [missing, filter_filter]
    apply filter_congr
    intro h _
    by_cases same : h = m.header <;> simp [same]
  rw [rest]
  exact perm_cons_erase listed

variable (inv : Inv prim w ad origin flow ahead)

include inv

theorem Inv.map_overtaken {front back : List (Header Key)} (sentHere : m ∈ w.sent p.other)
    (split : (w.sent p.other).map (·.header) = front ++ m.header :: back) :
    (w.overtaken p m).map (·.header) = missing (w.delivered p) front := by
  have unique := (inv.sends p.other).unique
  obtain ⟨before, rest, whole, rfl, restHeaders⟩ := map_eq_append_iff.mp split
  obtain ⟨m', after, rfl, sameHeader, -⟩ := map_eq_cons_iff.mp restHeaders
  have same : m' = m := inj_on_of_nodup_map unique (by simp [whole]) sentHere sameHeader
  subst same
  have notBefore : m' ∉ before := by
    intro earlier
    rw [whole, map_append] at unique
    exact disjoint_of_nodup_append unique (mem_map_of_mem earlier) (mem_map_of_mem mem_cons_self)
  have front : (before ++ m' :: after).takeWhile (· ≠ m') = before := by
    rw [takeWhile_append_of_pos]
    · simp
    · intro x earlier
      simpa using fun same : x = m' => notBefore (same ▸ earlier)
  unfold overtaken missing
  rw [whole, front, filter_map]
  congr 1
  apply filter_congr
  intro x earlier
  have sentX : x ∈ w.sent p.other := by simp [whole, earlier]
  have := (inv.sends p.other).mem_iff_header (fun m arrived => ((inv.hears p).heard m arrived).1) sentX
  simp [← this]

theorem Inv.opens [DecidableEq Nonce] (sentHere : m ∈ w.sent p) :
    openMessage prim w.log (messageKey prim origin m.header) ad m.header m.ct = some m.pt := by
  rw [(inv.sends p).sealed m sentHere]
  exact openMessage_of_mem ((inv.log _).mpr ⟨p, m, sentHere, rfl⟩)

theorem Inv.kept_eq (sentHere : m ∈ w.sent p.other) {entry : Skipped Key} (held : entry ∈ (w.ratchet p).skipped.entries)
    (matched : keptFor m.header entry) : entry = keptKey prim origin m.header ∧ m.header ∈ (flow p.other).passed := by
  obtain ⟨m', sentThere, passed, -, rfl⟩ := (inv.hears p).of_kept held
  obtain ⟨n, dh⟩ := keptFor_iff.mp matched
  have same := (inv.sends p.other).eq_of_position sentThere sentHere dh n
  subst same
  exact ⟨rfl, passed⟩

omit inv

theorem Hears.clear (hears : Hears prim origin r sent delivered f) (unique : (sent.map (·.header)).Nodup)
    (sentHere : m ∈ sent) (passed : m.header ∈ f.passed) (unheard : m.header ∉ delivered.map (·.header))
    (found : r.skipped.entries.find? (keptFor m.header) = some (keptKey prim origin m.header))
    (only : ∀ entry ∈ r.skipped.entries, keptFor m.header entry → entry = keptKey prim origin m.header) :
    Hears prim origin { r with skipped := r.skipped.clear (keptFor m.header) } sent (m :: delivered) f where
  __ := hears
  heard m' arrived := by
    rcases mem_cons.mp arrived with rfl | earlier
    · exact ⟨sentHere, passed⟩
    · exact hears.heard m' earlier
  kept := by
    rw [hears.headers] at unique
    have before := hears.kept.trans ((missing_perm_cons unique.of_append_left passed unheard).map (keptKey prim origin))
    obtain ⟨entry, front, back, -, matched, whole, erased⟩ := exists_of_eraseP
      (mem_of_find?_eq_some found) (find?_some found)
    have held : entry ∈ r.skipped.entries := by simp [whole]
    rw [only entry held matched] at whole
    rw [whole] at before
    rw [Slots.Table.entries_clear, erased]
    exact (perm_middle.symm.trans before).cons_inv
  receiving lane current := by
    obtain ⟨placed, reached, behind⟩ := hears.receiving lane current
    exact ⟨⟨placed.dhr, placed.ckr⟩, reached, behind⟩

theorem Inv.opens_stored [DecidableEq Nonce] (inv : Inv prim w ad origin flow ahead) (fresh : Key)
    (sentHere : m ∈ w.sent p.other) (first : m ∉ w.delivered p) (passed : m.header ∈ (flow p.other).passed) :
    ∃ after, (w.ratchet p).decryptInto prim w.log fresh m.header m.ct = some (after, m.pt) ∧
      Inv prim (w.took p after (m :: w.delivered p) (prim.publicKey fresh)) ad origin flow
        ahead := by
  have hears := inv.hears p
  have sends := inv.sends p.other
  have unheard : m.header ∉ (w.delivered p).map (·.header) := by
    rwa [sends.mem_iff_header (fun m arrived => (hears.heard m arrived).1) sentHere]
  have held : keptKey prim origin m.header ∈ (w.ratchet p).skipped.entries := by
    apply hears.kept.mem_iff.mpr
    apply mem_map_of_mem
    simpa [missing, passed] using unheard
  have only : ∀ entry ∈ (w.ratchet p).skipped.entries, keptFor m.header entry → entry = keptKey prim origin m.header :=
    fun _ member matched => (inv.kept_eq sentHere member matched).1
  have found : (w.ratchet p).skipped.entries.find? (keptFor m.header) = some (keptKey prim origin m.header) := by
    cases search : (w.ratchet p).skipped.entries.find? (keptFor m.header) with
    | none =>
      have refused := find?_eq_none.mp search _ held
      exact absurd (keptFor_iff.mpr ⟨rfl, rfl⟩) refused
    | some entry =>
      rw [only entry (mem_of_find?_eq_some search) (find?_some search)]
  refine ⟨_, decryptInto_stored found ?_, ?_⟩
  · rw [inv.ads p]
    exact inv.opens sentHere
  · have after := inv.took_within p (prim.publicKey fresh) (flow p.other).passed (fun _ member => member)
      (hears.clear sends.unique sentHere passed unheard found only)
    simpa using after

theorem Inv.find_pending (inv : Inv prim w ad origin flow ahead) (sentHere : m ∈ w.sent p.other)
    (ahead : m.header ∉ (flow p.other).passed) : (w.ratchet p).skipped.entries.find? (keptFor m.header) = none := by
  apply find?_eq_none.mpr
  intro entry held matched
  exact ahead (inv.kept_eq sentHere held matched).2

/-- The keys kept and those that opening `m` has to add are one for each overtaken message. -/
theorem Inv.length_overtaken (inv : Inv prim w ad origin flow ahead)
    {skipped back : List (Header Key)} (sentHere : m ∈ w.sent p.other)
    (split : (w.sent p.other).map (·.header) = (flow p.other).passed ++ skipped ++ m.header :: back) :
    (w.overtaken p m).length = (w.ratchet p).skipped.entries.length + skipped.length := by
  have unique := (inv.sends p.other).unique
  rw [split] at unique
  have heard : ∀ m ∈ w.delivered p, m.header ∈ (flow p.other).passed :=
    fun m arrived => ((inv.hears p).heard m arrived).2
  have headers := inv.map_overtaken sentHere split
  rw [missing_append, missing_of_unheard heard unique.of_append_left] at headers
  have lengths := congrArg length headers
  rw [length_map, length_append] at lengths
  rw [lengths, (inv.hears p).kept.length_eq, length_map]

theorem Hears.forward (hears : Hears prim origin r sent delivered f)
    (unique : (sent.map (·.header)).Nodup) (sentHere : m ∈ sent) (current : f.current = some lane)
    (bounded : lane.len < UInt32.size) (reached : r.nr ≤ n) (short : n < lane.len)
    (header : m.header = headerAt origin lane.pk n)
    (own : ∀ h ∈ (range' r.nr (n - r.nr)).map (headerAt origin lane.pk) ++ [m.header], h.dh = lane.pk)
    (held : skipped.entries.Perm (r.skipped.entries ++ (range' r.nr (n - r.nr)).map
      (Ratchet.kept prim lane.pk ((origin lane.pk).chainStart prim)))) :
    Hears prim origin (r.movedTo prim ((origin lane.pk).chainStart prim) (n + 1) skipped) sent (m :: delivered) { f with
        passed := f.passed ++ ((range' r.nr (n - r.nr)).map (headerAt origin lane.pk) ++ [m.header]) } where
  headers := by
    rw [hears.headers]
    simp only [pending, current, Option.toList_some, flatMap_singleton,
      lane.headers_split origin reached short, movedTo, header]
    simp
  heard m' arrived := by
    rcases mem_cons.mp arrived with rfl | earlier
    · exact ⟨sentHere, by simp⟩
    · obtain ⟨sentThere, passed⟩ := hears.heard m' earlier
      exact ⟨sentThere, by simp [passed]⟩
  kept := by
    have split : (f.passed ++ (range' r.nr (n - r.nr)).map (headerAt origin lane.pk) ++ [m.header]).Nodup := by
      rw [hears.headers] at unique
      simp only [pending, current, Option.toList_some, flatMap_singleton,
        lane.headers_split origin reached short, ← header] at unique
      refine unique.sublist ?_
      simp
    rw [← append_assoc, missing_extend (fun m arrived => (hears.heard m arrived).2) split, map_append,
      ← map_kept_range (by omega)]
    exact held.trans (hears.kept.append_right _)
  receiving lane' current' := by
    have same : lane = lane' := Option.some.inj (current.symm.trans current')
    subst same
    obtain ⟨placed, -, behind⟩ := hears.receiving lane current
    refine ⟨⟨placed.dhr, rfl⟩, short, ?_⟩
    intro h passed dh
    simp only [movedTo]
    simp only [mem_append, mem_map, mem_singleton] at passed
    rcases passed with earlier | ⟨k, range, rfl⟩ | rfl
    · have := behind h earlier dh
      omega
    · have := mem_range'_1.mp range
      rw [headerAt_toNat (by omega)]
      omega
    · rw [header, headerAt_toNat (by omega)]
      omega
  silent nothing := by
    rw [show f.current = none from nothing] at current
    cases current
  ahead next isNext := by
    obtain ⟨unseen, differs⟩ := hears.ahead next isNext
    exact ⟨fun seen => unseen (seen_of_passing current own seen), differs⟩
  apart pk seen := hears.apart pk (seen_of_passing current own seen)

theorem Inv.opens_current [DecidableEq Nonce] (inv : Inv prim w ad origin flow ahead) (fresh : Key)
    (sentHere : m ∈ w.sent p.other) (current : (flow p.other).current = some lane)
    (listed : m.header ∈ lane.headers origin (w.ratchet p).nr) (room : (w.overtaken p m).length ≤ maxSkip) :
    ∃ after flow', (w.ratchet p).decryptInto prim w.log fresh m.header m.ct = some (after, m.pt) ∧
      Inv prim (w.took p after (m :: w.delivered p) (prim.publicKey fresh)) ad origin flow'
        ahead := by
  have hears := inv.hears p
  have sends := inv.sends p.other
  obtain ⟨n, reached, short, header⟩ := mem_headers listed
  have bounded := sends.bounded lane (.inl current)
  obtain ⟨placed, -, -⟩ := hears.receiving lane current
  have number : m.header.n.toNat = n := by rw [header, headerAt_toNat (by omega)]
  have own : ∀ h ∈ (range' (w.ratchet p).nr (n - (w.ratchet p).nr)).map
      (headerAt origin lane.pk) ++ [m.header], h.dh = lane.pk := by
    intro h member
    simp only [mem_append, mem_map, mem_singleton] at member
    rcases member with ⟨k, -, rfl⟩ | rfl
    · rfl
    · rw [header]
      rfl
  have split := hears.headers
  simp only [pending, current, Option.toList_some, flatMap_singleton,
    lane.headers_split origin reached short, ← header, append_assoc, cons_append] at split
  rw [← append_assoc] at split
  have kept := inv.length_overtaken sentHere split
  rw [length_map, length_range'] at kept
  have ahead : m.header ∉ (flow p.other).passed := by
    have unique := sends.unique
    rw [split, append_assoc] at unique
    intro earlier
    exact disjoint_of_nodup_append unique earlier (by simp)
  have receives : Ratchet.Receives prim (w.ratchet p) m.header.dh ((origin lane.pk).chainStart prim) := by
    rw [header]
    exact placed
  obtain ⟨skipped, advanced, held⟩ := exists_advance receives (by omega) (by omega)
    (show (w.ratchet p).skipped.entries.length + (m.header.n.toNat - (w.ratchet p).nr) ≤ maxSkip by
      omega)
  rw [number] at advanced held
  rw [show m.header.dh = lane.pk by rw [header]; rfl] at held
  have known : ∀ pk ∈ { flow p.other with
        passed := (flow p.other).passed ++
          ((range' (w.ratchet p).nr (n - (w.ratchet p).nr)).map (headerAt origin lane.pk) ++
            [m.header]) }.keys, pk ∈ (flow p.other).keys := by
    intro pk member
    rcases mem_append.mp member with seen | next
    · exact mem_append_left _ (seen_of_passing current own seen)
    · exact mem_append_right _ next
  have after := inv.took_within p (prim.publicKey fresh) _ known
    (hears.forward sends.unique sentHere current bounded reached short header own held)
  refine ⟨_, _, decryptInto_fresh (inv.find_pending sentHere ahead) (follow_same receives.dhr) advanced ?_, after⟩
  have opened := inv.opens sentHere
  rwa [← inv.ads p, messageKey, number, show m.header.dh = lane.pk by rw [header]; rfl] at opened

theorem Inv.congr {origin' : Key → Origin Key} (inv : Inv prim w ad origin flow ahead)
    (agree : ∀ pk ∈ w.drawn, origin' pk = origin pk) : Inv prim w ad origin' flow ahead := by
  have onKeys : ∀ p, ∀ pk ∈ (flow p).keys, origin' pk = origin pk :=
    fun p pk known => agree pk ((inv.sends p).valid pk known).pkDrawn
  have onSent : ∀ p, ∀ m ∈ w.sent p, origin' m.header.dh = origin m.header.dh := by
    intro p m sentHere
    have hears := inv.hears p.other
    rw [other_other] at hears
    exact onKeys p _ (hears.mem_keys sentHere)
  have onMessageKey : ∀ p, ∀ m ∈ w.sent p, messageKey prim origin' m.header = messageKey prim origin m.header := by
    intro p m sentHere
    rw [messageKey, messageKey, onSent p m sentHere]
  have onLane : ∀ p lane, (flow p).current = some lane ∨ (flow p).next = some lane →
      origin' lane.pk = origin lane.pk := by
    intro p lane which
    apply onKeys p
    rcases which with current | next
    · exact mem_append_left _ (mem_append_right _ (by simp [current]))
    · exact mem_append_right _ (by simp [next])
  refine { inv with sends := ?_, hears := ?_, log := ?_, tie := ?_ }
  · intro p
    refine { inv.sends p with shape := ?_, sealed := ?_, valid := ?_, apart := ?_, live := ?_ }
    · intro m sentHere
      rw [headerAt, onSent p m sentHere]
      exact (inv.sends p).shape m sentHere
    · intro m sentHere
      rw [onMessageKey p m sentHere]
      exact (inv.sends p).sealed m sentHere
    · intro pk known
      rw [onKeys p pk known]
      exact (inv.sends p).valid pk known
    · intro pk known
      rw [onKeys p pk known]
      exact (inv.sends p).apart pk known
    · intro lane live
      rw [onLane p lane (lane_of_live live)]
      exact (inv.sends p).live lane live
  · intro p
    have hears := inv.hears p
    refine { hears with headers := ?_, kept := ?_, receiving := ?_, apart := ?_ }
    · rw [hears.headers, pending_congr (onKeys p.other)]
    · refine hears.kept.trans (List.Perm.of_eq ?_)
      apply map_congr_left
      intro h listed
      have passed := (mem_filter.mp listed).1
      have same := onKeys p.other h.dh (mem_append_left _ (mem_append_left _ (mem_map_of_mem passed)))
      simp only [keptKey, messageKey, same]
    · intro lane current
      rw [onLane p.other lane (.inl current)]
      exact hears.receiving lane current
    · intro pk seen
      rw [onKeys p.other pk (mem_append_left _ seen)]
      exact hears.apart pk seen
  · intro entry
    rw [inv.log]
    refine exists_congr fun p => exists_congr fun m => and_congr_right fun sentHere => ?_
    rw [onMessageKey p m sentHere]
  · obtain ⟨lane, tie⟩ := inv.tie
    refine ⟨lane, ?_⟩
    have same := onLane ahead lane (.inr tie.next)
    exact
      { next := tie.next
        root := same ▸ tie.root
        peer := same ▸ tie.peer
        rk := same ▸ tie.rk
        sk := same ▸ tie.sk
        pn := same ▸ tie.pn }

variable (hears : Hears prim origin r sent delivered f)

include hears

theorem Hears.offered (next : f.next = none) {pk : Key} (unseen : pk ∉ f.seen) (differs : r.dhr ≠ some pk) :
    Hears prim origin r sent delivered { f with next := some ⟨pk, 0⟩ } := by
  refine { hears with headers := ?_, ahead := ?_ }
  · rw [hears.headers]
    simp [pending, next, Lane.headers]
  · intro lane isNext
    obtain rfl : (⟨pk, 0⟩ : Lane Key) = lane := Option.some.inj isNext
    exact ⟨unseen, differs⟩

variable (next : f.next = some lane)

include next

theorem Hears.split_next (short : n < lane.len) : sent.map (·.header) = f.passed ++ f.skippedTo origin lane r.nr n ++
      headerAt origin lane.pk n :: lane.headers origin (n + 1) := by
  rw [hears.headers]
  simp [pending, skippedTo, next, lane.headers_split origin (Nat.zero_le n) short]

/-- What is passed at the turn comes from known chains, and ends with number `n` of the next. -/
theorem Hears.passed_next (bounded : lane.len < UInt32.size) (short : n < lane.len) :
    ∀ h ∈ f.passed ++ f.skippedTo origin lane r.nr n ++ [headerAt origin lane.pk n],
      h.dh ∈ f.keys ∧ (h.dh = lane.pk → h.n.toNat < n + 1) := by
  obtain ⟨unseen, -⟩ := hears.ahead lane next
  have known : lane.pk ∈ f.keys := mem_append_right _ (by simp [next])
  have ofSeen : ∀ h : Header Key, h.dh ∈ f.seen → h.dh ∈ f.keys ∧ (h.dh = lane.pk → h.n.toNat < n + 1) :=
    fun h seen => ⟨mem_append_left _ seen, fun same => absurd (same ▸ seen) unseen⟩
  intro h member
  simp only [skippedTo, mem_append, mem_flatMap, mem_map, mem_singleton, Option.mem_toList] at member
  rcases member with (passed | ⟨lane', current, inLane⟩ | ⟨k, range, rfl⟩) | rfl
  · exact ofSeen h (mem_append_left _ (mem_map_of_mem passed))
  · obtain ⟨k, -, -, rfl⟩ := mem_headers inLane
    exact ofSeen _ (mem_append_right _ (mem_map_of_mem (Option.mem_toList.mpr current)))
  · have := mem_range'_1.mp range
    refine ⟨known, fun _ => ?_⟩
    rw [headerAt_toNat (by omega)]
    omega
  · refine ⟨known, fun _ => ?_⟩
    rw [headerAt_toNat (by omega)]
    omega

theorem Hears.keys_next (bounded : lane.len < UInt32.size) (short : n < lane.len) :
    ∀ pk ∈ (⟨f.passed ++ f.skippedTo origin lane r.nr n ++ [headerAt origin lane.pk n], some lane,
      none⟩ : Flow Key).keys, pk ∈ f.keys := by
  intro pk member
  simp only [Flow.keys, seen, mem_append, mem_map, Option.toList_some,
    mem_singleton, Option.toList_none, map_nil, not_mem_nil, or_false] at member
  rcases member with ⟨h, passed, rfl⟩ | ⟨lane', rfl, rfl⟩
  · apply (hears.passed_next next bounded short h _).1
    simpa [or_assoc] using passed
  · exact mem_append_right _ (by simp [next])

omit next

theorem Hears.turn {dhOut : Key} (unique : (sent.map (·.header)).Nodup) (sentHere : m ∈ sent)
    (next : f.next = some lane) (bounded : lane.len < UInt32.size) (short : n < lane.len)
    (header : m.header = headerAt origin lane.pk n)
    (derived : (prim.hkdfRoot r.rk dhOut).2 = (origin lane.pk).chainStart prim)
    (apart : ∀ pk ∈ f.keys, (origin pk).peer ≠ prim.publicKey fresh)
    (held : skipped.entries.Perm (r.skipped.entries ++ (f.skippedTo origin lane r.nr n).map (keptKey prim origin))) :
    Hears prim origin (turnedTo prim fresh r lane dhOut dhOut' n skipped) sent (m :: delivered)
      ⟨f.passed ++ f.skippedTo origin lane r.nr n ++ [headerAt origin lane.pk n], some lane,
        none⟩ := by
  have split := hears.split_next next short
  refine
    { headers := ?_, heard := ?_, kept := ?_, receiving := ?_, silent := ?_, ahead := ?_,
      apart := ?_ }
  · rw [split]
    simp [pending, turnedTo, movedTo]
  · intro m' arrived
    rcases mem_cons.mp arrived with rfl | earlier
    · exact ⟨sentHere, by simp [header]⟩
    · obtain ⟨sentThere, passed⟩ := hears.heard m' earlier
      exact ⟨sentThere, by simp [passed]⟩
  · have uniquePassed : (f.passed ++ f.skippedTo origin lane r.nr n ++ [headerAt origin lane.pk n]).Nodup := by
      rw [split] at unique
      refine unique.sublist ?_
      simp
    rw [← header] at uniquePassed ⊢
    rw [missing_extend (fun m arrived => (hears.heard m arrived).2) uniquePassed, map_append]
    exact held.trans (hears.kept.append_right _)
  · intro lane' current
    obtain rfl : lane = lane' := Option.some.inj current
    exact ⟨⟨rfl, by rw [← derived]; rfl⟩, short, fun h passed => (hears.passed_next next bounded short h passed).2⟩
  · intro nothing
    cases nothing
  · intro lane' isNext
    cases isNext
  · intro pk seen
    exact apart pk (hears.keys_next next bounded short pk (mem_append_left _ seen))

theorem Hears.skip_rest (bounded : ∀ lane, f.current = some lane → lane.len < UInt32.size)
    (room : r.skipped.entries.length +
      (f.current.toList.flatMap fun lane => lane.headers origin r.nr).length ≤ maxSkip) :
    ∃ skipped ckr nr, r.skipMessageKeys prim (f.current.elim 0 (·.len)) = some { r with skipped, ckr, nr } ∧
      skipped.entries.Perm (r.skipped.entries ++ (f.current.toList.flatMap fun lane => lane.headers origin r.nr).map
          (keptKey prim origin)) := by
  cases current : f.current with
  | none =>
    refine ⟨r.skipped, r.ckr, r.nr, ?_, by simp⟩
    unfold skipMessageKeys
    rw [if_pos (hears.silent current).1]
  | some lane =>
    obtain ⟨placed, reached, -⟩ := hears.receiving lane current
    have small := bounded lane current
    simp only [current, Option.toList_some, flatMap_singleton, Lane.headers, length_map, length_range'] at room
    obtain ⟨after, done⟩ := exists_skipMessageKeys placed reached room
    obtain ⟨skipped, rfl, held⟩ := skipMessageKeys_spec placed reached done
    refine ⟨skipped, _, _, done, ?_⟩
    rw [map_kept_range (by omega)] at held
    simpa [Lane.headers] using held

omit hears

variable (tie : Tie prim origin (w.ratchet p.other) (w.ratchet p) (flow p.other) lane)
  (unused : prim.publicKey fresh ∉ w.drawn) (born : origin (prim.publicKey fresh) = ⟨p, fresh,
    (prim.hkdfRoot (w.ratchet p).rk (origin lane.pk).secret).1, dhOut', lane.pk, (w.ratchet p).ns⟩)

include tie unused born

theorem Inv.took_turn (inv : Inv prim w ad origin flow p.other) (agreed : prim.x25519 fresh lane.pk = some dhOut')
    (known : ∀ pk ∈ (⟨passed, some lane, none⟩ : Flow Key).keys, pk ∈ (flow p.other).keys)
    (hears : Hears prim origin (turnedTo prim fresh (w.ratchet p) lane (origin lane.pk).secret dhOut' n skipped)
      (w.sent p.other) delivered ⟨passed, some lane, none⟩) :
    Inv prim (w.took p
        (turnedTo prim fresh (w.ratchet p) lane (origin lane.pk).secret dhOut' n skipped) delivered
        (prim.publicKey fresh)) ad origin
      (update (update flow p
          { flow p with next := some ⟨prim.publicKey fresh, 0⟩ }) p.other
        ⟨passed, some lane, none⟩) p := by
  have apart := other_ne p
  have settled : (flow p).next = none := by simpa using inv.settled
  have hearsThere := inv.hears p.other
  rw [other_other] at hearsThere
  have theirs := (inv.sends p.other).valid lane.pk (mem_append_right _ (by simp [tie.next]))
  have drawnKey : ∀ pk ∈ (flow p).keys, pk ∈ w.drawn := fun pk member => ((inv.sends p).valid pk member).pkDrawn
  have lastPn : (w.ratchet p).ns = (flow p).current.elim 0 (·.len) := by
    have live : (flow p).live = (flow p).current := by simp [live, settled]
    cases current : (flow p).current with
    | none => exact ((inv.sends p).idle (live.trans current)).2
    | some lane' => exact ((inv.sends p).live lane' (live.trans current)).2.1
  have sentOn : (w.ratchet p.other).dhsPk = lane.pk :=
    ((inv.sends p.other).live lane (by simp [live, tie.next])).1
  refine
    { ads := ?_, pair := ?_, pkDrawn := ?_, dhrDrawn := ?_, sends := ?_, hears := ?_
      log := inv.log, tie := ?_, settled := ?_ }
  · intro q
    rcases eq_or_eq_other q p with rfl | rfl
    · simpa [took, turnedTo, movedTo, turned] using inv.ads q
    · simpa [took] using inv.ads p.other
  · intro q
    rcases eq_or_eq_other q p with rfl | rfl
    · simp [took, turnedTo, movedTo, turned]
    · simpa [took] using inv.pair p.other
  · intro q
    rcases eq_or_eq_other q p with rfl | rfl
    · simp [took, turnedTo, movedTo, turned]
    · simpa [took] using .inr (inv.pkDrawn p.other)
  · intro q pk held
    apply mem_cons_of_mem
    rcases eq_or_eq_other q p with rfl | rfl
    · have same : some lane.pk = some pk := by
        simpa [took, turnedTo, movedTo, turned] using held
      exact Option.some.inj same ▸ theirs.pkDrawn
    · exact inv.dhrDrawn p.other pk (by simpa [took] using held)
  · intro q
    rcases eq_or_eq_other q p with rfl | rfl
    · simpa [took, apart.symm] using (inv.sends q).turn
        (fun m sentHere => hearsThere.mem_keys sentHere) settled unused theirs born agreed
    · simpa [took] using (inv.sends p.other).followed (prim.publicKey fresh) tie.next known
  · intro q
    rcases eq_or_eq_other q p with rfl | rfl
    · simpa [took] using hears
    simpa [took, apart.symm] using hearsThere.offered settled
      (fun seen => unused (drawnKey _ (mem_append_left _ seen)))
      (fun held => unused (inv.dhrDrawn p.other _ held))
  · refine ⟨⟨prim.publicKey fresh, 0⟩, ?_⟩
    simp only [took, update_self, update_of_ne apart,
      update_of_ne apart.symm]
    exact
      { next := rfl
        root := by rw [born, tie.rk, tie.root]
        peer := by rw [born, sentOn]
        rk := by rw [born]; rfl
        sk := by rw [born]; rfl
        pn := by rw [born]; exact lastPn }
  · simp

/-- A message of the chain the sender has turned to since, when `fresh` is the receiver's
next ratchet key. -/
theorem Inv.opens_turn [DecidableEq Nonce] (inv : Inv prim w ad origin flow p.other)
    (agreed : prim.x25519 (w.ratchet p).dhsSk lane.pk = some (origin lane.pk).secret)
    (agreed' : prim.x25519 fresh lane.pk = some dhOut') (sentHere : m ∈ w.sent p.other)
    (listed : m.header ∈ lane.headers origin 0) (room : (w.overtaken p m).length ≤ maxSkip) :
    ∃ after flow', (w.ratchet p).decryptInto prim w.log fresh m.header m.ct = some (after, m.pt) ∧
      Inv prim (w.took p after (m :: w.delivered p) (prim.publicKey fresh)) ad origin flow' p := by
  have next := tie.next
  have hears := inv.hears p
  have sends := inv.sends p.other
  obtain ⟨n, -, short, header⟩ := mem_headers listed
  have bounded := sends.bounded lane (.inr next)
  have boundedCurrent : ∀ lane, (flow p.other).current = some lane → lane.len < UInt32.size :=
    fun lane current => sends.bounded lane (.inl current)
  have number : m.header.n.toNat = n := by rw [header, headerAt_toNat (by omega)]
  have dh : m.header.dh = lane.pk := by rw [header]; rfl
  have pn : m.header.pn.toNat = (flow p.other).current.elim 0 (·.len) := by
    have small : (origin lane.pk).pn < UInt32.size := by
      rw [tie.pn]
      cases current : (flow p.other).current with
      | none => exact Nat.zero_lt_succ _
      | some lane' => exact boundedCurrent lane' current
    rw [header, ← tie.pn]
    rw [headerAt, UInt32.toNat_ofNat', Nat.mod_eq_of_lt small]
  have derived : (prim.hkdfRoot (w.ratchet p).rk (origin lane.pk).secret).2 = (origin lane.pk).chainStart prim := by
    rw [tie.root]
    rfl
  have split := hears.split_next next short
  rw [← header] at split
  have kept := inv.length_overtaken sentHere split
  simp only [skippedTo, length_append, length_map, length_range'] at kept
  have notPassed : m.header ∉ (flow p.other).passed := by
    have unique := sends.unique
    rw [split, append_assoc] at unique
    intro earlier
    exact disjoint_of_nodup_append unique earlier (by simp)
  obtain ⟨skipped₁, ckr, nr, skipDone, held₁⟩ := hears.skip_rest boundedCurrent (by omega)
  have length₁ := held₁.length_eq
  simp only [length_append, length_map] at length₁
  have differs : (w.ratchet p).dhr ≠ some m.header.dh := by
    rw [dh]
    exact (hears.ahead lane next).2
  obtain ⟨followed, skipped, followDone, advanced, held⟩ := exists_turn differs
    (by rw [pn]; exact skipDone) (by rw [dh]; exact agreed)
    (show prim.x25519 fresh m.header.dh = some dhOut' by rw [dh]; exact agreed')
    (by omega) (by omega)
  rw [number, dh] at advanced
  rw [number, dh, derived, map_kept_range (by omega)] at held
  have heldAll := held.trans (held₁.append_right _)
  rw [append_assoc, ← map_append] at heldAll
  have drawnApart : ∀ pk ∈ (flow p.other).keys, (origin pk).peer ≠ prim.publicKey fresh :=
    fun pk member same => unused (same ▸ (sends.valid pk member).peerDrawn)
  have after := inv.took_turn tie unused born agreed' (hears.keys_next next bounded short)
    (hears.turn sends.unique sentHere next bounded short header derived drawnApart heldAll)
  refine ⟨_, _, decryptInto_fresh (inv.find_pending sentHere notPassed) followDone advanced ?_, after⟩
  have opened := inv.opens sentHere
  rwa [← inv.ads p, messageKey, number, dh, ← derived] at opened

omit tie unused born

theorem Inv.opens_next (ideal : prim.Ideal) [DecidableEq Nonce] (inv : Inv prim w ad origin flow ahead)
    (unused : prim.publicKey fresh ∉ w.drawn) (sentHere : m ∈ w.sent p.other) (next : (flow p.other).next = some lane)
    (listed : m.header ∈ lane.headers origin 0) (room : (w.overtaken p m).length ≤ maxSkip) :
    ∃ after origin' flow', (w.ratchet p).decryptInto prim w.log fresh m.header m.ct = some (after, m.pt) ∧
      Inv prim (w.took p after (m :: w.delivered p) (prim.publicKey fresh)) ad origin' flow' p := by
  have theirTurn : ahead = p.other := by
    rcases eq_or_eq_other ahead p with rfl | rfl
    · rw [inv.settled] at next
      cases next
    · rfl
  subst theirTurn
  have theirs := (inv.sends p.other).valid lane.pk (mem_append_right _ (by simp [next]))
  have apart : lane.pk ≠ prim.publicKey fresh := fun same => unused (same ▸ theirs.pkDrawn)
  obtain ⟨dhOut', agreed'⟩ := ideal.x25519_public fresh (origin lane.pk).sk
  rw [theirs.pair] at agreed'
  -- The receiver's next key is given its origin before it is used.
  let origin' := update origin (prim.publicKey fresh)
    ⟨p, fresh, (prim.hkdfRoot (w.ratchet p).rk (origin lane.pk).secret).1, dhOut', lane.pk, (w.ratchet p).ns⟩
  have same : origin' lane.pk = origin lane.pk := update_of_ne apart _ _
  have inv' : Inv prim w ad origin' flow p.other := inv.congr fun pk drawn =>
    update_of_ne (fun same : pk = prim.publicKey fresh => unused (same ▸ drawn)) _ _
  obtain ⟨lane', tie⟩ := inv'.tie
  obtain rfl : lane = lane' := Option.some.inj (next.symm.trans tie.next)
  rw [other_other] at tie
  have agreed : prim.x25519 (w.ratchet p).dhsSk lane.pk = some (origin' lane.pk).secret := by
    have theirs' := (inv'.sends p.other).valid lane.pk (mem_append_right _ (by simp [next]))
    have secret := theirs'.agreed
    rwa [← tie.peer, inv.pair p, ideal.x25519_comm, theirs'.pair] at secret
  obtain ⟨after, flow', opened, held⟩ := inv'.opens_turn tie unused
    (by rw [same]; exact update_self ..) agreed agreed' sentHere
    (by rw [Lane.headers_congr same]; exact listed) room
  exact ⟨after, origin', flow', opened, held⟩

end OpenChime.Crypto
