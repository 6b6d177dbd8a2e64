import Selatpay.Settlement.Watching

/-!
# References and links of payments

The reference of a payment and the intent it is linked to come from two separate
reads of the reference map, and an upsert merges the intent into a stored row but
not the reference. The two columns agree as long as the second read still finds
what the first one has matched and a row that was stored without a link is not
linked later.
-/

namespace Selatpay.Settlement

open Store Saga Chain

/-- The reference is the one of the intent. -/
def ReferenceOf (db : Db) (pub : PublicKey) (intentID : UUID) : Prop :=
  ∃ i ∈ db.intents, i.id = intentID ∧ i.referencePubkey = some pub

/-- Reference and link are both there or both not there, and they name one intent. -/
def Agree (db : Db) (reference : Option PublicKey) (intentID : Option UUID) : Prop :=
  (reference = none ↔ intentID = none) ∧
    ∀ pub ∈ reference, ∀ id ∈ intentID, ReferenceOf db pub id

instance (db : Db) (pub : PublicKey) (intentID : UUID) : Decidable (ReferenceOf db pub intentID) :=
  inferInstanceAs (Decidable (∃ i ∈ db.intents, _))

instance (db : Db) (reference : Option PublicKey) (intentID : Option UUID) :
    Decidable (Agree db reference intentID) :=
  inferInstanceAs (Decidable (_ ∧ ∀ pub ∈ reference, ∀ id ∈ intentID, _))

/-- The second read of the reference map finds what the first one has matched, and no stored row
without a link is linked. -/
def KeepsLinks (s : World) : Event → Prop
  | .link n => match s.sightings[n]? with
    | some (.seen _ (some pub)) => s.refs.lookup pub ≠ 0
    | _ => True
  | .record n _ _ => match s.sightings[n]? with
    | some (.linked deposit _ (some _)) =>
      ∀ p ∈ s.db.payments, p.signature = deposit.signature → p.intentID ≠ none
    | _ => True
  | _ => True

instance (s : World) (e : Event) : Decidable (KeepsLinks s e) := by
  unfold KeepsLinks
  split
  · split <;> infer_instance
  · split <;> infer_instance
  · infer_instance

/-- What the watcher knows of references agrees with the intents. -/
structure Linked (s : World) : Prop where
  refs : ∀ r ∈ s.refs, ReferenceOf s.db r.1 r.2
  sightings : ∀ deposit hit intentID, .linked deposit hit intentID ∈ s.sightings →
    Agree s.db hit intentID
  payments : ∀ p ∈ s.db.payments, Agree s.db p.referencePubkey p.intentID

section Links

variable {db db' : Db}

theorem ReferenceOf.mono {pub : PublicKey} {intentID : UUID} (h : ReferenceOf db pub intentID)
    (hg : Grows db db') : ReferenceOf db' pub intentID := by
  obtain ⟨i, hi, hid, href⟩ := h
  obtain ⟨i', hi', hterms⟩ := hg.intent hi
  obtain ⟨hid', -, -, -, href'⟩ := terms_eq hterms
  exact ⟨i', hi', hid'.trans hid, href'.trans href⟩

theorem Agree.mono {reference : Option PublicKey} {intentID : Option UUID}
    (h : Agree db reference intentID) (hg : Grows db db') : Agree db' reference intentID :=
  ⟨h.1, fun pub hpub id hid => (h.2 pub hpub id hid).mono hg⟩

theorem referenceOf_refreshReferences {r : PublicKey × UUID} (h : r ∈ refreshReferences db) :
    ReferenceOf db r.1 r.2 := by
  simp only [refreshReferences, List.mem_filterMap, List.mem_filter, Option.map_eq_some_iff] at h
  obtain ⟨i, ⟨hi, -⟩, pub, href, rfl⟩ := h
  exact ⟨i, hi, rfl, href⟩

/-- What the second read makes of a matched reference that is still known. -/
theorem agree_linkReference {refs : References} (hrefs : ∀ r ∈ refs, ReferenceOf db r.1 r.2)
    {hit : Option PublicKey} (hknown : ∀ pub ∈ hit, refs.lookup pub ≠ 0) :
    Agree db hit (hit.bind fun pub => intentIDPtr (refs.lookup pub)) := by
  cases hit with
  | none => simp [Agree]
  | some pub =>
    have hne : refs.lookup pub ≠ 0 := hknown pub rfl
    have href := hrefs _ (mem_of_lookup hne)
    rw [Option.bind_some, intentIDPtr, if_neg hne]
    refine ⟨by simp, fun pub' hpub id hid => ?_⟩
    rw [← Option.mem_some.mp hpub, ← Option.mem_some.mp hid]
    exact href

/-- An upsert that links no stored row without a link keeps the agreement. -/
theorem agree_upserted {payments payments' : List OnchainPayment} {new : OnchainPayment}
    (h : PaymentsUpserted payments new payments')
    (hold : ∀ p ∈ payments, Agree db p.referencePubkey p.intentID)
    (hnew : Agree db new.referencePubkey new.intentID)
    (hlate : new.intentID ≠ none →
      ∀ p ∈ payments, p.signature = new.signature → p.intentID ≠ none) :
    ∀ p ∈ payments', Agree db p.referencePubkey p.intentID := by
  intro p hp
  cases h with
  | inserted =>
    rcases List.mem_append.mp hp with hp | hp
    · exact hold p hp
    · rw [List.mem_singleton.mp hp]
      exact hnew
  | merged =>
    obtain ⟨a, ha, rfl⟩ := Table.mem_update hp
    split
    · rename_i hsig
      have hmerged : a.intentID.or new.intentID = a.intentID := by
        cases hid : a.intentID with
        | some id => rfl
        | none =>
          by_contra hne
          exact hlate hne a ha hsig hid
      change Agree db a.referencePubkey (a.intentID.or new.intentID)
      rw [hmerged]
      exact hold a ha
    · exact hold a ha

end Links

section Step

variable {env : Env} {s t : World} {e : Event}

theorem linked_step (hl : Linked s) (hok : KeepsLinks s e) (hst : s.step env e = some t) :
    Linked t := by
  have hg := grows_change (step_change hst)
  have hrefs : ∀ r ∈ s.refs, ReferenceOf t.db r.1 r.2 := fun r hr => (hl.refs r hr).mono hg
  have hsightings : ∀ deposit hit intentID, .linked deposit hit intentID ∈ s.sightings →
      Agree t.db hit intentID :=
    fun deposit hit intentID hmem => (hl.sightings deposit hit intentID hmem).mono hg
  have hpayments : ∀ p ∈ s.db.payments, Agree t.db p.referencePubkey p.intentID :=
    fun p hp => (hl.payments p hp).mono hg
  cases step_watcher hst with
  | other hr hs hp => exact ⟨hr ▸ hrefs, hs ▸ hsightings, hp ▸ hpayments⟩
  | refresh hr hs hdb =>
    refine ⟨?_, hs ▸ hsightings, fun p hp => hpayments p (hdb ▸ hp)⟩
    rw [hr, hdb]
    exact fun r => referenceOf_refreshReferences
  | observe hcheck hr hs hdb =>
    refine ⟨hr ▸ hrefs, ?_, fun p hp => hpayments p (hdb ▸ hp)⟩
    intro deposit hit intentID hmem
    rw [hs] at hmem
    rcases List.mem_append.mp hmem with hmem | hmem
    · exact hsightings deposit hit intentID hmem
    · cases List.mem_singleton.mp hmem
  | @link n deposit hit hn hr hs hdb =>
    refine ⟨hr ▸ hrefs, ?_, fun p hp => hpayments p (hdb ▸ hp)⟩
    intro deposit' hit' intentID hmem
    rw [hs] at hmem
    rcases List.mem_or_eq_of_mem_set hmem with hmem | heq
    · exact hsightings deposit' hit' intentID hmem
    · cases heq
      refine agree_linkReference hrefs fun pub hpub => ?_
      rw [Option.mem_def.mp hpub] at hn
      simpa [KeepsLinks, hn] using hok
  | @record n uuid began deposit hit intentID hn hacceptable hr hs hdb =>
    refine ⟨hr ▸ hrefs, fun deposit hit intentID hmem =>
      hsightings deposit hit intentID (List.mem_of_mem_eraseIdx (hs ▸ hmem)), ?_⟩
    obtain ⟨payments, sagas, heq, hupserted, -⟩ :=
      recordDeposit_spec s.db (depositRow deposit hit intentID began) uuid began
    have hnew := hsightings deposit hit intentID (List.mem_of_getElem? hn)
    have hstored : t.db.payments = payments := by rw [hdb, heq]
    rw [hstored]
    refine agree_upserted hupserted hpayments hnew fun hne p hp hsig => ?_
    obtain ⟨id, hid⟩ := Option.ne_none_iff_exists'.mp hne
    have hlinked : intentID = some id := hid
    rw [hlinked] at hn
    simp only [KeepsLinks, hn] at hok
    exact hok p hp hsig
  | forget hr hs hdb =>
    exact ⟨hr ▸ hrefs, fun deposit hit intentID hmem =>
      hsightings deposit hit intentID (List.mem_of_mem_eraseIdx (hs ▸ hmem)),
      fun p hp => hpayments p (hdb ▸ hp)⟩

end Step

/-- In every run in which matched references are still known when they are looked up and no stored
payment is linked later, the reference and the link of a payment agree. -/
theorem links_agree {env : Env} {s : World} (h : Reachable env KeepsLinks s) :
    ∀ p ∈ s.db.payments, Agree s.db p.referencePubkey p.intentID := by
  obtain ⟨-, hlinked⟩ := h.induct (P := Linked)
    (fun _ _ _ => ⟨by simp [World.init], by simp [World.init], by simp [World.init, TxState.init]⟩)
    fun _ _ _ _ hl hok hst => linked_step hl hok hst
  exact hlinked.payments

/-- The map is reloaded between the two reads, after the intent was settled by another deposit. -/
def reloadedBetween : List Event :=
  ordering 50 ++ depositing "sig-1" 61847 4 ++ crediting "a" 1000 ++ paying "a" 2000 ++
    [.observe "sig-2" .confirmed (.found 6 none (transferMessage 500)), .refresh, .link 0,
      .record 0 5 0]

/-- A payment that is linked later has no reference, and one whose reference is gone at the second
read has no link. -/
theorem links_disagree :
    (∃ s, run (World.step smallEnv) smallWorld linkedLate = some s ∧
      ∃ p ∈ s.db.payments, p.referencePubkey = none ∧ p.intentID = some 3) ∧
    ∃ s, run (World.step smallEnv) smallWorld reloadedBetween = some s ∧
      ∃ p ∈ s.db.payments, p.referencePubkey = some 99 ∧ p.intentID = none :=
  ⟨exists_of_any (by decide +kernel), exists_of_any (by decide +kernel)⟩

/-- A deposit is linked when it is confirmed and again when it is finalized. -/
def promoted : List Event :=
  ordering 50 ++ [.observe "sig-1" .confirmed (.found 5 none (transferMessage 61847)), .link 0,
    .record 0 4 0] ++ depositing "sig-1" 61847 4

theorem links_agree_promoted : ∃ s p, Reachable smallEnv KeepsLinks s ∧ p ∈ s.db.payments ∧
    p.commitment = .finalized ∧ p.intentID = some 3 ∧
    Agree s.db p.referencePubkey p.intentID := by
  obtain ⟨s, hs, p, hp, hfinal, hid⟩ : ∃ s,
      runIf (World.step smallEnv) KeepsLinks smallWorld promoted = some s ∧
        ∃ p ∈ s.db.payments, p.commitment = .finalized ∧ p.intentID = some 3 :=
    exists_of_any (by decide +kernel)
  have h := reachable_of_runIf hs
  exact ⟨s, p, h, hp, hfinal, hid, links_agree h p hp⟩

end Selatpay.Settlement
