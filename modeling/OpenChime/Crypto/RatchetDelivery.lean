import OpenChime.Crypto.RatchetReceiving
import Mathlib.Data.Nat.Pairing

/-! Every message is opened exactly once, over every order of sending and delivery. -/

set_option autoImplicit false

namespace OpenChime.Crypto

open List Crypto.Flow World Party Ratchet

variable {Key Nonce : Type}

variable {prim : Primitives Key Nonce} {origin : Key → Origin Key} {ad : Key} {p ahead : Party}
  {sent delivered : List (Sent Key)} {f : Flow Key} {lane : Lane Key} {r : Ratchet Key}
  {m : Sent Key} {w : World Key Nonce} {flow : Party → Flow Key}

theorem Sends.extend {drawn : List Key} {s : Ratchet Key} (sends : Sends prim origin drawn ad p s sent f)
    (live : f.live = some lane) (below : s.ns ≠ UInt32.size - 1) (pt : List UInt8) :
    Sends prim origin drawn ad p
      { s with
        cks := some (prim.hmacTwo^[lane.len + 1] ((origin lane.pk).chainStart prim))
        ns := s.ns + 1 }
      (sent ++ [⟨headerAt origin lane.pk lane.len,
        ciphertext prim (messageKey prim origin (headerAt origin lane.pk lane.len)) ad
          (headerAt origin lane.pk lane.len) pt, pt⟩])
      f.extend := by
  obtain ⟨pk, ns, pn, cks⟩ := sends.live lane live
  have bounded : lane.len + 1 < UInt32.size := by
    have small : lane.len < UInt32.size := by
      exact sends.bounded lane (lane_of_live live)
    omega
  have number : (headerAt origin lane.pk lane.len).n.toNat = lane.len :=
    headerAt_toNat (by omega)
  refine
    { unique := ?_, shape := ?_, sealed := ?_, numbered := ?_, valid := ?_, apart := ?_, live := ?_
      idle := ?_, bounded := ?_ }
  · rw [map_append]
    refine nodup_append.mpr ⟨sends.unique, nodup_singleton _, ?_⟩
    intro h earlier h' last same
    obtain ⟨m, sentHere, rfl⟩ := mem_map.mp earlier
    obtain rfl := mem_singleton.mp last
    have before := sends.numbered m sentHere (by rw [same, pk]; rfl)
    rw [same, number] at before
    omega
  · intro m member
    rcases mem_append.mp member with earlier | last
    · exact sends.shape m earlier
    obtain rfl := mem_singleton.mp last
    rw [number]
    rfl
  · intro m member
    rcases mem_append.mp member with earlier | last
    · exact sends.sealed m earlier
    · obtain rfl := mem_singleton.mp last
      rfl
  · intro m member same
    rcases mem_append.mp member with earlier | last
    · have := sends.numbered m earlier same
      simp only
      omega
    obtain rfl := mem_singleton.mp last
    simp only
    omega
  · rw [keys_extend]
    exact sends.valid
  · rw [keys_extend]
    exact sends.apart
  · intro lane' live'
    rw [live_extend, live, Option.map_some, Option.some.injEq] at live'
    subst live'
    exact ⟨pk, by simp only [ns], pn, rfl⟩
  · intro nothing
    rw [live_extend, live] at nothing
    cases nothing
  · intro lane' which
    rcases lane_extend which with before | ⟨before, isLive, rfl⟩
    · exact sends.bounded lane' before
    · obtain rfl : lane = before := Option.some.inj (live.symm.trans isLive)
      exact bounded

variable [DecidableEq Key] (hears : Hears prim origin r sent delivered f)

include hears

theorem Hears.extend (live : f.live = some lane) (header : m.header = headerAt origin lane.pk lane.len) :
    Hears prim origin r (sent ++ [m]) delivered f.extend := by
  refine
    { headers := ?_, heard := ?_, kept := ?_, receiving := ?_, silent := ?_, ahead := ?_
      apart := ?_ }
  · rw [map_append, map_singleton, hears.headers, header, passed_extend,
      pending_extend origin live fun lane current => (hears.receiving lane current).2.1,
      append_assoc]
  · intro m' arrived
    obtain ⟨sentThere, passed⟩ := hears.heard m' arrived
    exact ⟨mem_append_left _ sentThere, by rwa [passed_extend]⟩
  · rw [passed_extend]
    exact hears.kept
  · intro lane' current
    rw [passed_extend]
    unfold Flow.extend at current
    split at current
    · exact hears.receiving lane' current
    obtain ⟨before, isCurrent, rfl⟩ := Option.map_eq_some_iff.mp current
    obtain ⟨placed, reached, behind⟩ := hears.receiving before isCurrent
    exact ⟨placed, by simp only; omega, behind⟩
  · intro nothing
    rw [passed_extend]
    apply hears.silent
    unfold Flow.extend at nothing
    split at nothing
    · exact nothing
    · simpa using nothing
  · intro lane' isNext
    rw [seen_extend]
    unfold Flow.extend at isNext
    split at isNext
    · rename_i last next
      cases isNext
      exact hears.ahead last next
    · rename_i next
      rw [show f.next = some lane' from isNext] at next
      cases next
  · rw [seen_extend]
    exact hears.apart

theorem Hears.sending (cks : Option Key) (ns : Nat) : Hears prim origin { r with cks, ns } sent delivered f :=
  { hears with
    receiving := fun lane current => by
      obtain ⟨placed, reached, behind⟩ := hears.receiving lane current
      exact ⟨⟨placed.dhr, placed.ckr⟩, reached, behind⟩ }

omit hears

/-- The world once `p` has sent `m`. -/
def World.sentOne (prim : Primitives Key Nonce) (origin : Key → Origin Key) (ad : Key)
    (w : World Key Nonce) (p : Party) (r : Ratchet Key) (m : Sent Key) : World Key Nonce :=
  { w with
    ratchet := Function.update w.ratchet p r
    log := logEntry prim (messageKey prim origin m.header) ad m.header m.pt :: w.log
    sent := Function.update w.sent p (w.sent p ++ [m]) }

theorem Inv.sent_one (inv : Inv prim w ad origin flow ahead) {cks : Option Key} {ns : Nat}
    (live : (flow p).live = some lane) (header : m.header = headerAt origin lane.pk lane.len)
    (sends : Sends prim origin w.drawn ad p { w.ratchet p with cks, ns } (w.sent p ++ [m]) (flow p).extend) :
    Inv prim (w.sentOne prim origin ad p { w.ratchet p with cks, ns } m) ad origin
      (Function.update flow p (flow p).extend) ahead := by
  have hearsThere := inv.hears p.other
  rw [other_other] at hearsThere
  refine
    { ads := ?_, pair := ?_, pkDrawn := ?_, dhrDrawn := ?_, sends := ?_, hears := ?_
      log := ?_, tie := ?_, settled := ?_ }
  · intro q
    rcases eq_or_eq_other q p with rfl | rfl <;> simp [sentOne, inv.ads]
  · intro q
    rcases eq_or_eq_other q p with rfl | rfl <;> simp [sentOne, inv.pair]
  · intro q
    rcases eq_or_eq_other q p with rfl | rfl <;> simp [sentOne, inv.pkDrawn]
  · intro q pk held
    apply inv.dhrDrawn q pk
    rcases eq_or_eq_other q p with rfl | rfl <;> simpa [sentOne] using held
  · intro q
    rcases eq_or_eq_other q p with rfl | rfl
    · simpa [sentOne] using sends
    · simpa [sentOne] using inv.sends p.other
  · intro q
    rcases eq_or_eq_other q p with rfl | rfl
    · simpa [sentOne] using (inv.hears q).sending cks ns
    · simpa [sentOne] using hearsThere.extend live header
  · intro entry
    simp only [sentOne, mem_cons, inv.log]
    constructor
    · rintro (rfl | ⟨q, m', sentHere, rfl⟩)
      · exact ⟨p, m, by simp, rfl⟩
      · refine ⟨q, m', ?_, rfl⟩
        rcases eq_or_eq_other q p with rfl | rfl
        · simp [sentHere]
        · simpa using sentHere
    · rintro ⟨q, m', sentHere, rfl⟩
      rcases eq_or_eq_other q p with rfl | rfl
      · rw [Function.update_self] at sentHere
        rcases mem_append.mp sentHere with earlier | last
        · exact .inr ⟨q, m', earlier, rfl⟩
        · obtain rfl := mem_singleton.mp last
          exact .inl rfl
      · exact .inr ⟨p.other, m', by simpa using sentHere, rfl⟩
  · obtain ⟨last, tie⟩ := inv.tie
    rcases eq_or_eq_other ahead p with rfl | rfl
    · refine ⟨{ last with len := last.len + 1 }, ?_⟩
      simp only [sentOne, Function.update_self, Function.update_of_ne (other_ne ahead), extend, tie.next]
      exact { tie with next := rfl }
    rw [other_other] at tie
    refine ⟨last, ?_⟩
    simp only [sentOne, Function.update_self, Function.update_of_ne (other_ne p), other_other]
    exact { tie with }
  · rcases eq_or_eq_other ahead p with rfl | rfl
    · simpa using inv.settled
    have settled := inv.settled
    rw [other_other] at settled
    simp [extend, settled]

theorem Inv.send {after : World Key Nonce} (inv : Inv prim w ad origin flow ahead)
    {pt : List UInt8} (done : w.send prim p pt = some after) :
    Inv prim after ad origin (Function.update flow p (flow p).extend) ahead := by
  simp only [World.send, Option.bind_eq_bind, Option.bind_eq_some_iff, Option.some.injEq] at done
  obtain ⟨⟨r, header, ct, log⟩, encrypted, rfl⟩ := done
  obtain ⟨cks, hasCks, below, rfl, rfl, rfl, rfl⟩ := encrypt_spec encrypted
  have sends := inv.sends p
  cases live : (flow p).live with
  | none =>
    rw [(sends.idle live).1] at hasCks
    cases hasCks
  | some lane =>
    obtain ⟨pk, ns, pn, chain⟩ := sends.live lane live
    have bounded := sends.bounded lane (lane_of_live live)
    have header : (w.ratchet p).headerOf = headerAt origin lane.pk lane.len := by
      simp only [headerOf, headerAt, pk, ns, pn]
    obtain rfl : cks = prim.hmacTwo^[lane.len] ((origin lane.pk).chainStart prim) :=
      Option.some.inj (hasCks.symm.trans chain)
    have key : prim.hmacOne (prim.hmacTwo^[lane.len] ((origin lane.pk).chainStart prim)) =
        messageKey prim origin (headerAt origin lane.pk lane.len) := by
      rw [messageKey, headerAt_toNat bounded]
      rfl
    have sentNow := inv.sent_one live rfl (sends.extend live below pt)
    simpa only [sentOne, header, key, inv.ads p, Function.iterate_succ_apply'] using sentNow

theorem Inv.start {rk bobSk aliceSk : Key} (distinct : prim.publicKey aliceSk ≠ prim.publicKey bobSk)
    (started : start prim rk ad bobSk aliceSk = some w) : ∃ origin flow, Inv prim w ad origin flow .alice := by
  simp only [World.start, initAlice, Option.bind_eq_bind, Option.bind_eq_some_iff, Option.some.injEq] at started
  obtain ⟨alice, ⟨dhOut, agreed, rfl⟩, rfl⟩ := started
  refine ⟨fun _ => ⟨.alice, aliceSk, rk, dhOut, prim.publicKey bobSk, 0⟩,
    pick ⟨[], none, some ⟨prim.publicKey aliceSk, 0⟩⟩ ⟨[], none, none⟩, ?_⟩
  refine
    { ads := ?_, pair := ?_, pkDrawn := ?_, dhrDrawn := ?_, sends := ?_, hears := ?_
      log := ?_, tie := ?_, settled := rfl }
  · rintro (_ | _) <;> rfl
  · rintro (_ | _) <;> rfl
  · rintro (_ | _) <;> simp [initBob]
  · rintro (_ | _) pk held
    · obtain rfl := Option.some.inj held
      simp
    · cases held
  · rintro (_ | _)
    · refine
        { unique := nodup_nil, shape := by simp, sealed := by simp, numbered := by simp
          valid := ?_, apart := ?_, live := ?_, idle := ?_, bounded := ?_ }
      · rintro pk known
        obtain rfl := mem_singleton.mp known
        exact
          { owner := rfl, pair := rfl, peerPair := ⟨bobSk, rfl⟩, agreed := agreed
            pkDrawn := by simp, peerDrawn := by simp }
      · rintro pk known
        obtain rfl := mem_singleton.mp known
        exact ⟨distinct.symm, fun same => distinct (Option.some.inj same).symm⟩
      · intro lane live
        obtain rfl : (⟨prim.publicKey aliceSk, 0⟩ : Lane Key) = lane := Option.some.inj live
        exact ⟨rfl, rfl, rfl, rfl⟩
      · intro nothing
        cases nothing
      · rintro lane (nothing | next)
        · cases nothing
        · obtain rfl : (⟨prim.publicKey aliceSk, 0⟩ : Lane Key) = lane := Option.some.inj next
          exact Nat.zero_lt_succ _
    · exact
        { unique := nodup_nil, shape := by simp, sealed := by simp, numbered := by simp
          valid := by simp [Flow.keys, seen], apart := by simp [Flow.keys, seen]
          live := by simp [live], idle := fun _ => ⟨rfl, rfl⟩, bounded := by simp }
  · rintro (_ | _)
    · exact
        { headers := rfl, heard := by simp, kept := by simp [missing]
          receiving := fun lane current => by cases current
          silent := fun _ => ⟨rfl, rfl, rfl⟩
          ahead := fun lane next => by cases next
          apart := by simp [seen] }
    · exact
        { headers := rfl, heard := by simp, kept := by simp [missing, initBob]
          receiving := fun lane current => by cases current
          silent := fun _ => ⟨rfl, rfl, rfl⟩
          ahead := fun lane next => by simp [seen, initBob]
          apart := by simp [seen] }
  · simp
  · exact ⟨⟨prim.publicKey aliceSk, 0⟩, { next := rfl, root := rfl, peer := rfl, rk := rfl, sk := rfl, pn := rfl }⟩

variable {delivered' : List (Sent Key)}

theorem Hears.redelivered (hears : Hears prim origin r sent delivered f) (same : ∀ m, m ∈ delivered' ↔ m ∈ delivered) :
    Hears prim origin r sent delivered' f := by
  refine { hears with heard := fun m arrived => hears.heard m ((same m).mp arrived), kept := ?_ }
  have missingSame : missing delivered' f.passed = missing delivered f.passed := by
    apply filter_congr
    intro h _
    simp only [mem_map, same]
  rw [missingSame]
  exact hears.kept

theorem Inv.genuine_eq (inv : Inv prim w ad origin flow ahead) (sentHere : m ∈ w.sent p.other)
    {m' : Sent Key} : m' ∈ w.genuine p m.header m.ct ↔ m' = m := by
  simp only [genuine, mem_filter, decide_eq_true_eq]
  constructor
  · rintro ⟨sentThere, sameHeader, -⟩
    exact inj_on_of_nodup_map (inv.sends p.other).unique sentThere sentHere sameHeader
  · rintro rfl
    exact ⟨sentHere, rfl, rfl⟩

theorem Inv.redelivered {after : Ratchet Key} {drawnPk : Key}
    (inv : Inv prim (w.took p after delivered drawnPk) ad origin flow ahead)
    (same : ∀ m, m ∈ delivered' ↔ m ∈ delivered) :
    Inv prim (w.took p after delivered' drawnPk) ad origin flow ahead := by
  refine { inv with hears := ?_ }
  intro q
  have hears := inv.hears q
  rcases eq_or_eq_other q p with rfl | rfl
  · refine hears.redelivered fun m => ?_
    simpa [took] using same m
  · simpa [took] using hears

variable [DecidableEq Nonce]

/-- The first delivery of a message returns its plaintext and keeps the invariant. -/
theorem Inv.opens_first (ideal : prim.Ideal) (inv : Inv prim w ad origin flow ahead) {fresh : Key}
    (unused : prim.publicKey fresh ∉ w.drawn) (sentHere : m ∈ w.sent p.other)
    (first : m ∉ w.delivered p) (room : (w.overtaken p m).length ≤ maxSkip) :
    ∃ after, (w.ratchet p).decryptInto prim w.log fresh m.header m.ct = some (after, m.pt) ∧ ∃ origin' flow' ahead',
        Inv prim (w.took p after (m :: w.delivered p) (prim.publicKey fresh)) ad origin' flow'
          ahead' := by
  have listed : m.header ∈ (flow p.other).passed ++ (flow p.other).pending origin (w.ratchet p).nr := by
    rw [← (inv.hears p).headers]
    exact mem_map_of_mem sentHere
  simp only [pending, mem_append, mem_flatMap, Option.mem_toList] at listed
  rcases listed with passed | ⟨lane, current, inLane⟩ | ⟨lane, next, inLane⟩
  · obtain ⟨after, opened, held⟩ := inv.opens_stored fresh sentHere first passed
    exact ⟨after, opened, origin, flow, ahead, held⟩
  · obtain ⟨after, flow', opened, held⟩ := inv.opens_current fresh sentHere current inLane room
    exact ⟨after, opened, origin, flow', ahead, held⟩
  · obtain ⟨after, origin', flow', opened, held⟩ := inv.opens_next ideal unused sentHere next inLane room
    exact ⟨after, opened, origin', flow', p, held⟩

theorem Inv.deliver (ideal : prim.Ideal) (inv : Inv prim w ad origin flow ahead) {fresh : Key}
    {header : Header Key} {ct : List UInt8} (unused : prim.publicKey fresh ∉ w.drawn)
    (room : ∀ m ∈ w.genuine p header ct, m ∉ w.delivered p → (w.overtaken p m).length ≤ maxSkip) :
    ∃ origin' flow' ahead', Inv prim (w.deliver prim p fresh header ct) ad origin' flow' ahead' := by
  by_cases stale : ∀ m ∈ w.genuine p header ct, m ∈ w.delivered p
  · -- Nothing new: the state stays, and so do the delivered messages.
    have refused : ((w.ratchet p).decrypt prim w.log fresh header ct).1 = w.ratchet p := by
      rw [decrypt, inv.refuses ideal stale]
    have held : Inv prim (w.took p (w.ratchet p) (w.delivered p) (prim.publicKey fresh)) ad origin flow ahead := by
      simpa using inv.took_within p (prim.publicKey fresh) (flow p.other).passed (fun _ member => member) (inv.hears p)
    refine ⟨origin, flow, ahead, ?_⟩
    unfold World.deliver
    rw [refused]
    refine held.redelivered fun m => ?_
    simpa using stale m
  simp only [not_forall, exists_prop] at stale
  obtain ⟨m, isGenuine, first⟩ := stale
  obtain ⟨sentHere, rfl, rfl⟩ : m ∈ w.sent p.other ∧ m.header = header ∧ m.ct = ct := by
    simpa [genuine] using isGenuine
  obtain ⟨after, opened, origin', flow', ahead', held⟩ :=
    inv.opens_first ideal unused sentHere first (room m isGenuine first)
  have next : ((w.ratchet p).decrypt prim w.log fresh m.header m.ct).1 = after := by
    rw [decrypt, opened]
  refine ⟨origin', flow', ahead', ?_⟩
  unfold World.deliver
  rw [next]
  refine held.redelivered fun m' => ?_
  rw [mem_append, mem_cons, inv.genuine_eq sentHere]

theorem World.Reachable.inv (ideal : prim.Ideal) (reachable : w.Reachable prim) :
    ∃ ad origin flow ahead, Inv prim w ad origin flow ahead := by
  induction reachable with
  | start rk ad bobSk aliceSk distinct started =>
    obtain ⟨origin, flow, inv⟩ := Inv.start distinct started
    exact ⟨ad, origin, flow, .alice, inv⟩
  | step before taken ih =>
    obtain ⟨ad, origin, flow, ahead, inv⟩ := ih
    cases taken with
    | send p pt done => exact ⟨ad, origin, _, ahead, inv.send done⟩
    | deliver p fresh header ct unused room =>
      obtain ⟨origin', flow', ahead', held⟩ := inv.deliver ideal unused room
      exact ⟨ad, origin', flow', ahead', held⟩

/-- In every run, the first delivery of a message returns its plaintext; a later delivery of
it, and anything that was not sent by the other side, returns nothing and changes nothing. -/
theorem ratchet_delivery {prim : Primitives Key Nonce} (ideal : prim.Ideal) {w : World Key Nonce}
    (reachable : w.Reachable prim) (p : Party) {fresh : Key}
    (unused : prim.publicKey fresh ∉ w.drawn) :
    (∀ m ∈ w.sent p.other, m ∉ w.delivered p → (w.overtaken p m).length ≤ maxSkip →
      ((w.ratchet p).decrypt prim w.log fresh m.header m.ct).2 = some m.pt) ∧
    (∀ m ∈ w.delivered p, (w.ratchet p).decrypt prim w.log fresh m.header m.ct = (w.ratchet p, none)) ∧
    (∀ header ct, (∀ m ∈ w.sent p.other, ¬ (m.header = header ∧ m.ct = ct)) →
      (w.ratchet p).decrypt prim w.log fresh header ct = (w.ratchet p, none)) := by
  obtain ⟨ad, origin, flow, ahead, inv⟩ := reachable.inv ideal
  refine ⟨?_, ?_, ?_⟩
  · intro m sentHere first room
    obtain ⟨after, opened, -⟩ := inv.opens_first ideal unused sentHere first room
    rw [decrypt, opened]
  · intro m arrived
    have sentHere := ((inv.hears p).heard m arrived).1
    rw [decrypt, inv.refuses ideal fun m' isGenuine =>
      (inv.genuine_eq sentHere).mp isGenuine ▸ arrived]
  · intro header ct forged
    have stale : ∀ m ∈ w.genuine p header ct, m ∈ w.delivered p := by
      intro m isGenuine
      obtain ⟨sentHere, same⟩ : m ∈ w.sent p.other ∧ m.header = header ∧ m.ct = ct := by
        simpa [genuine] using isGenuine
      exact absurd same (forged m sentHere)
    rw [decrypt, inv.refuses ideal stale]

/-- A key that is put aside is the one of a message still under way, which it opens: the keys of the
messages that have arrived are gone. -/
theorem keys_put_aside_are_of_messages_under_way {prim : Primitives Key Nonce} (ideal : prim.Ideal)
    {w : World Key Nonce} (reachable : w.Reachable prim) (p : Party) : ∀ entry ∈ (w.ratchet p).skipped.entries,
      (∃ m ∈ w.sent p.other, m ∉ w.delivered p ∧ keptFor m.header entry ∧
        openMessage prim w.log entry.messageKey (w.ratchet p).ad m.header m.ct = some m.pt) ∧
      ∀ m ∈ w.delivered p, ¬keptFor m.header entry := by
  intro entry held
  obtain ⟨ad, origin, flow, ahead, inv⟩ := reachable.inv ideal
  obtain ⟨m, sentHere, -, absent, rfl⟩ := (inv.hears p).of_kept held
  have opens := inv.opens sentHere
  rw [← inv.ads p] at opens
  refine ⟨⟨m, sentHere, fun arrived => absent (mem_map_of_mem arrived), decide_eq_true ⟨rfl, rfl⟩, opens⟩,
    fun m' arrived kept => ?_⟩
  obtain ⟨n, dh⟩ := of_decide_eq_true kept
  have same := (inv.sends p.other).eq_of_position sentHere ((inv.hears p).heard m' arrived).1 dh n
  exact absent (mem_map_of_mem (same ▸ arrived))

/-- Primitives that keep their inputs apart by pairing them. -/
def paired : Primitives Nat Unit where
  publicKey sk := sk
  x25519 mine theirs := some (Nat.pair (min mine theirs) (max mine theirs))
  hkdfRoot rk dhOut := (Nat.pair rk dhOut, Nat.pair rk dhOut)
  hmacOne ck := ck
  hmacTwo ck := ck + 1
  hkdfMessage mk := (mk, ())
  gcm :=
    { encrypt := fun _ _ _ text => text ++ List.replicate tagLen 0
      length_encrypt := by simp
      encrypt_injective := fun _ _ _ _ _ same => append_cancel_right same }

theorem paired_ideal : paired.Ideal where
  x25519_comm mine theirs := by simp [paired, min_comm, max_comm]
  x25519_public mine theirs := ⟨_, rfl⟩
  x25519_injective mine theirs others same := by
    simp only [paired, Option.some.injEq, Nat.pair_eq_pair] at same ⊢
    omega
  hkdfRoot_injective same := by simpa [paired, Nat.pair_eq_pair] using same
  hmacOne_injective := fun _ _ same => same
  hmacTwo_injective := fun _ _ same => by simpa [paired] using same
  hkdfMessage_injective := fun _ _ same => by simpa [paired] using same

private def started : World Nat Unit := (start paired 0 0 1 2).get rfl

private def sentOnce : World Nat Unit := (started.send paired .alice [1]).get rfl

private def sentTwice : World Nat Unit := (sentOnce.send paired .alice [2]).get rfl

private def late : Sent Nat := ⟨⟨2, 0, 0⟩, 1 :: List.replicate tagLen 0, [1]⟩

private def early : Sent Nat := ⟨⟨2, 0, 1⟩, 2 :: List.replicate tagLen 0, [2]⟩

private def reordered : World Nat Unit := sentTwice.deliver paired .bob 3 early.header early.ct

private theorem reordered_reachable : reordered.Reachable paired := by
  have start : started.Reachable paired := .start 0 0 1 2 (by decide) (Option.some_get _).symm
  have once : sentOnce.Reachable paired := start.step (.send .alice [1] (Option.some_get _).symm)
  have twice : sentTwice.Reachable paired := once.step (.send .alice [2] (Option.some_get _).symm)
  exact twice.step (.deliver .bob 3 early.header early.ct (by decide) (by decide))

/-- The second of two messages arrives first; the first then opens, and the second does not
open again. -/
theorem ratchet_delivery_reordered : reordered.Reachable paired ∧ reordered.sent .alice = [late, early] ∧
      reordered.delivered .bob = [early] ∧
      ((reordered.ratchet .bob).decrypt paired reordered.log 4 late.header late.ct).2 = some late.pt ∧
      (reordered.ratchet .bob).decrypt paired reordered.log 4 early.header early.ct =
        (reordered.ratchet .bob, none) := by
  have unused : paired.publicKey 4 ∉ reordered.drawn := by decide
  obtain ⟨first, later, -⟩ := ratchet_delivery paired_ideal reordered_reachable .bob unused
  refine ⟨reordered_reachable, rfl, by decide, ?_, ?_⟩
  · exact first late (by decide) (by decide) (by decide)
  · exact later early (by decide)

theorem keys_put_aside_reordered : (reordered.ratchet .bob).skipped.entries ≠ [] ∧
    ∀ entry ∈ (reordered.ratchet .bob).skipped.entries, ¬keptFor early.header entry ∧ ∃ m ∈ reordered.sent .alice,
      openMessage paired reordered.log entry.messageKey (reordered.ratchet .bob).ad m.header m.ct = some m.pt := by
  refine ⟨by decide, fun entry held => ?_⟩
  obtain ⟨⟨m, sentHere, -, -, opens⟩, gone⟩ :=
    keys_put_aside_are_of_messages_under_way paired_ideal reordered_reachable .bob entry held
  exact ⟨gone early (by decide), m, sentHere, opens⟩

namespace Ratchet

variable {Key Nonce : Type}

/-- Which of the steps of `oc_ratchet_encrypt` fail: an HMAC of `kdf_ck`, or the HKDF or the GCM of
`seal`. -/
structure Failing where
  kdf : Bool
  aead : Bool

/-- `oc_ratchet_encrypt` where mbedTLS may fail. `kdf_ck` replaces the chain key in place. -/
def encryptFallible (prim : Primitives Key Nonce) (log : Log Key Nonce) (failing : Failing)
    (r : Ratchet Key) (pt : List UInt8) :
    Ratchet Key × Option (Header Key × List UInt8 × Log Key Nonce) :=
  match r.cks with
  | none => (r, none)
  | some cks =>
    if r.ns = UInt32.size - 1 then (r, none)
    else if failing.kdf then (r, none)
    else
      let r := { r with cks := some (prim.hmacTwo cks) }
      if failing.aead then (r, none)
      else
        let header := r.headerOf
        let sealed := sealMessage prim log (prim.hmacOne cks) r.ad header pt
        ({ r with ns := r.ns + 1 }, some (header, sealed))

theorem encryptFallible_of_encrypt {prim : Primitives Key Nonce} {log log' : Log Key Nonce} {r after : Ratchet Key}
    {header : Header Key} {pt ct : List UInt8} (done : encrypt prim log r pt = some (after, header, ct, log')) :
    encryptFallible prim log ⟨false, false⟩ r pt = (after, some (header, ct, log')) := by
  obtain ⟨cks, ready, left, rfl, rfl, rfl, rfl⟩ := encrypt_spec done
  rw [encryptFallible, ready]
  exact (if_neg left).trans rfl

/-- The chain stands where it stood unless its key was replaced for a message that was not sealed. -/
theorem failed_encrypt_keeps_iff (prim : Primitives Key Nonce) (log : Log Key Nonce) (failing : Failing)
    (r : Ratchet Key) (pt : List UInt8) (failed : (encryptFallible prim log failing r pt).2 = none) :
    (encryptFallible prim log failing r pt).1 = r ↔
      r.ns = UInt32.size - 1 ∨ failing.kdf = true ∨ ∀ cks, r.cks = some cks → prim.hmacTwo cks = cks := by
  rw [encryptFallible] at failed ⊢
  cases chain : r.cks with
  | none => exact iff_of_true rfl (Or.inr (Or.inr nofun))
  | some cks =>
    rw [chain] at failed
    dsimp only at failed ⊢
    split at failed
    · next exhausted => exact iff_of_true (by rw [if_pos exhausted]) (Or.inl exhausted)
    next left =>
    rw [if_neg left]
    split at failed
    · next kdf => exact iff_of_true (by rw [if_pos kdf]) (Or.inr (Or.inl kdf))
    next kdf =>
    split at failed
    · next aead =>
      rw [if_neg kdf, if_pos aead]
      constructor
      · intro same
        refine Or.inr (Or.inr fun cks' chain' => ?_)
        have key := congrArg Ratchet.cks same
        rw [chain] at key
        rw [← Option.some.inj chain']
        exact Option.some.inj key
      · rintro (exhausted | failing | fixed)
        · exact absurd exhausted left
        · exact absurd failing kdf
        · rw [fixed cks rfl, ← chain]
    · cases failed

/-- An HMAC that fails leaves the ratchet as it was. -/
theorem failed_encrypt_keeps_started : ((started.ratchet .alice).encryptFallible paired [] ⟨true, false⟩ [1]).2 = none ∧
      ((started.ratchet .alice).encryptFallible paired [] ⟨true, false⟩ [1]).1 = started.ratchet .alice :=
  ⟨rfl, (failed_encrypt_keeps_iff paired [] ⟨true, false⟩ _ [1] rfl).mpr (Or.inr (Or.inl rfl))⟩

private def afterFailure : Ratchet Nat := ((started.ratchet .alice).encryptFallible paired [] ⟨false, true⟩ [1]).1

/-- The GCM fails for Alice's first message: the next one is sealed with another key than Bob derives
for its number, and does not open. -/
theorem failed_encrypt_loses_next : ((started.ratchet .alice).encryptFallible paired [] ⟨false, true⟩ [1]).2 = none ∧
      afterFailure ≠ started.ratchet .alice ∧
      ∃ after header ct log, afterFailure.encrypt paired [] [2] = some (after, header, ct, log) ∧
        ((started.ratchet .bob).decrypt paired log 3 header ct).2 = none :=
  ⟨rfl, by decide, _, _, _, _, rfl, by decide⟩

end Ratchet

end OpenChime.Crypto
