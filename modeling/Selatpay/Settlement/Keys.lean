import Selatpay.Settlement.World

/-!
# Unique keys

Whatever the watcher and the workers do, no unique key is ever held twice: ids are
fresh, the watcher's keys are inserted by nobody else, and a step that inserts a
key holds its lock until its transaction ends.
-/

namespace Selatpay.Settlement

open Store Saga Chain

section Sound

variable {env : Env} {s t : World} {e : Event}

theorem keys_createIntent (db : Db) (q : Quote) (i : PaymentIntent) :
    (createIntent db (q, i)).keys.Perm (db.keys ++ (.id q.id :: i.keys)) := by
  rw [List.perm_iff_count]
  intro k
  simp only [Db.keys, Db.rowKeys, createIntent, List.map_append, List.map_cons, List.map_nil,
    List.flatMap_append, List.flatMap_singleton, List.count_append, List.count_cons,
    List.count_nil]
  omega

/-- The keys that only the watcher inserts. -/
def watcherKey : Key → Bool
  | .signature _ => true
  | .sagaIntent _ _ => true
  | _ => false

/-- No step inserts a key of the watcher. -/
theorem watcherKey_not_mem {k : Key} (hk : watcherKey k) (log : List Effect) :
    k ∉ engine.logKeys log := by
  intro hmem
  obtain ⟨e, -, hke⟩ := List.mem_flatMap.mp hmem
  cases e with
  | ledger e =>
    obtain ⟨k', -, rfl⟩ := List.mem_map.mp hke
    cases hk
  | insertPayout row =>
    simp only [engine, Effect.keys, Payout.keys, List.mem_cons, List.not_mem_nil, or_false] at hke
    rcases hke with rfl | rfl <;> cases hk
  | insertOutbox row =>
    simp only [engine, Effect.keys, List.mem_singleton] at hke
    subst hke
    cases hk
  | changePayout id c => cases hke
  | setIntentState id state now => cases hke
  | changeSaga id c => cases hke

theorem mem_keys_signature {db : Db} {signature : String} :
    .signature signature ∈ db.keys ↔ ∃ p ∈ db.payments, p.signature = signature := by
  simp [Db.keys, Db.rowKeys, PaymentIntent.keys, SagaRun.keys, Payout.keys, eq_comm]

theorem mem_keys_sagaIntent {db : Db} {intentID : UUID} {kind : Kind} :
    .sagaIntent intentID kind ∈ db.keys ↔
      ∃ r ∈ db.sagas, r.intentID = intentID ∧ r.sagaKind = kind := by
  simp [Db.keys, Db.rowKeys, PaymentIntent.keys, SagaRun.keys, Payout.keys, eq_comm]

/-- An upserted payment adds at most its signature. -/
theorem keys_upserted {db : Db} {row : OnchainPayment} {payments : List OnchainPayment}
    (h : PaymentsUpserted db.payments row payments) : ∃ ps : List String,
    payments.map (Key.signature ·.signature) =
        db.payments.map (Key.signature ·.signature) ++ ps.map Key.signature ∧ ps.Nodup ∧
      ∀ x ∈ ps, Key.signature x ∉ db.keys := by
  cases h with
  | inserted hnone =>
    refine ⟨[row.signature], by simp, by simp, ?_⟩
    simpa [mem_keys_signature] using hnone
  | merged => exact ⟨[], by simp [Table.map_update, mergePayment], by simp, by simp⟩

/-- An enqueued run adds its id and the key of its intent. -/
theorem keys_enqueued {db : Db} {payments : List OnchainPayment} {uuid : UUID} {now : Time}
    {sagas : List SagaRun} (h : SagaEnqueued payments db.sagas uuid now sagas) : ∃ rs : List Key,
    sagas.flatMap SagaRun.keys = db.sagas.flatMap SagaRun.keys ++ rs ∧ rs.Nodup ∧
      ∀ k ∈ rs, k = .id uuid ∨ (∃ i kind, k = .sagaIntent i kind) ∧ k ∉ db.keys := by
  cases h with
  | unchanged => exact ⟨[], by simp, by simp, by simp⟩
  | @enqueued p intentID _ _ _ hnone =>
    refine ⟨_, List.flatMap_append, by simp [SagaRun.keys], ?_⟩
    intro k hk
    simp only [List.flatMap_singleton, SagaRun.keys, newSagaRun, List.mem_cons,
      List.not_mem_nil, or_false] at hk
    rcases hk with rfl | rfl
    · exact .inl rfl
    · refine .inr ⟨⟨_, _, rfl⟩, fun hmem => ?_⟩
      obtain ⟨r, hr, hid, -⟩ := mem_keys_sagaIntent.mp hmem
      exact hnone r hr hid

/-- A recorded deposit adds at most a signature and the two keys of a run. -/
theorem keys_recordDeposit (db : Db) (row : OnchainPayment) (uuid : UUID) (now : Time) : ∃ ks,
    (recordDeposit db row uuid now).keys.Perm (db.keys ++ ks) ∧ ks.Nodup ∧
      ∀ k ∈ ks, k = .id uuid ∨ watcherKey k ∧ k ∉ db.keys := by
  obtain ⟨payments, sagas, hdb, hpayments, hsagas⟩ := recordDeposit_spec db row uuid now
  obtain ⟨ps, hps, hnps, hnew⟩ := keys_upserted hpayments
  obtain ⟨rs, hrs, hnrs, hrnew⟩ := keys_enqueued hsagas
  refine ⟨ps.map Key.signature ++ rs, ?_, ?_, ?_⟩
  · rw [List.perm_iff_count]
    intro k
    simp only [hdb, Db.keys, Db.rowKeys, hps, hrs, List.count_append]
    omega
  · refine List.nodup_append'.mpr ⟨hnps.map fun a b hab => by simpa using hab, hnrs, ?_⟩
    intro k hk hk'
    obtain ⟨x, -, rfl⟩ := List.mem_map.mp hk
    rcases hrnew _ hk' with h | ⟨⟨i, kind, h⟩, -⟩ <;> cases h
  · intro k hk
    rcases List.mem_append.mp hk with hk | hk
    · obtain ⟨x, hx, rfl⟩ := List.mem_map.mp hk
      exact .inr ⟨rfl, hnew x hx⟩
    · rcases hrnew k hk with rfl | ⟨⟨i, kind, rfl⟩, hk⟩
      · exact .inl rfl
      · exact .inr ⟨rfl, hk⟩

/-- A rewritten saga row keeps its keys. -/
theorem sound_writeSaga (hs : s.tx.Sound engine) (id : UUID) {f : SagaRun → SagaRun}
    (hf : ∀ r, (f r).keys = r.keys) : (s.writeSaga id f).tx.Sound engine := by
  have hperm : (s.writeSaga id f).db.keys.Perm (s.db.keys ++ []) := by
    simp [World.writeSaga, Db.keys, Db.rowKeys, Table.flatMap_update hf]
  exact hs.write hperm (by simp) (by simp) (by simp)

/-- A ledger key that the ledger does not hold is new to the database, an id apart. -/
theorem not_mem_keys_ledger {db : Db} {k : Ledger.Key} (hk : k ∉ db.ledger.keys)
    (hid : ∀ uuid, k ≠ .id uuid) : .ledger k ∉ db.keys := by
  cases k with
  | id uuid => exact absurd rfl (hid uuid)
  | code code currency =>
    simpa [Db.keys, Db.rowKeys, PaymentIntent.keys, SagaRun.keys, Payout.keys] using hk
  | externalRef ref =>
    simpa [Db.keys, Db.rowKeys, PaymentIntent.keys, SagaRun.keys, Payout.keys] using hk

/-- A ledger statement inserts the keys it locks, new to the view. -/
theorem ledger_keys (db : Db) (o : Ledger.Op) (uuid : UUID) {es : List Effect}
    (hes : es = (o.exec db.ledger uuid).2.map Effect.ledger) :
    engine.logKeys es = [] ∨ engine.logKeys es = (o.locks uuid).map Key.ledger ∧
      (engine.logKeys es).Nodup ∧ ∀ k ∈ engine.logKeys es, k = .id uuid ∨ k ∉ db.keys := by
  have hmap : engine.logKeys es =
      (Ledger.engine.logKeys (o.exec db.ledger uuid).2).map Key.ledger := by
    simp [hes, Engine.logKeys, engine, Ledger.engine, Effect.keys, List.flatMap_map,
      List.map_flatMap]
  obtain ⟨r, es', hexec⟩ : ∃ r es', o.exec db.ledger uuid = (r, es') := ⟨_, _, rfl⟩
  rw [hmap, hexec]
  rcases Ledger.exec_keys hexec with rfl | ⟨hl, hn, hnew⟩
  · exact .inl rfl
  · refine .inr ⟨congrArg _ hl, hn.map fun a b hab => by simpa using hab, ?_⟩
    intro k hk
    obtain ⟨k', hk', rfl⟩ := List.mem_map.mp hk
    rcases hnew k' hk' with rfl | hnot
    · exact .inl rfl
    by_cases hid : ∃ x, k' = .id x
    · obtain ⟨x, rfl⟩ := hid
      rw [hl] at hk'
      exact .inl (congrArg Key.id (Ledger.Op.eq_of_id_mem_locks hk'))
    · exact .inr (not_mem_keys_ledger hnot fun x hx => hid ⟨x, hx⟩)

/-- The effects of an answered call insert the keys it locks, new to the view. -/
theorem answer_keys {db : Db} {now : Time} {c : Call} {input : Input} {r : c.Rep}
    {es : List Effect} (h : c.answer db now input = some (r, es)) :
    engine.logKeys es = [] ∨ ∃ uuid, input = .row uuid ∧ engine.logKeys es = c.locks uuid ∧
      (engine.logKeys es).Nodup ∧ ∀ k ∈ engine.logKeys es, k = .id uuid ∨ k ∉ db.keys := by
  cases c with
  | ledger o =>
    cases input with
    | row uuid =>
      cases h
      rcases ledger_keys db o uuid rfl with hnil | hkeys
      · exact .inl hnil
      · exact .inr ⟨uuid, rfl, hkeys⟩
    | fail msg => cases h; exact .inl rfl
    | rail answer => cases h
  | sql o =>
    cases input with
    | row uuid =>
      rcases exec_keys (Option.some.inj h) with hnil | ⟨hl, hn, hnew⟩
      · exact .inl hnil
      · exact .inr ⟨uuid, rfl, hl, hn, hnew⟩
    | fail msg => cases h; exact .inl rfl
    | rail answer => cases h
  | submit req =>
    cases input with
    | row uuid => cases h
    | fail msg => cases h
    | rail answer => cases h; exact .inl rfl

/-- An answered call keeps the keys unique. -/
theorem sound_exec {w : Owner} {began : Time} {c : Call} {input : Input} {r : c.Rep}
    {es : List Effect} (hs : s.tx.Sound engine)
    (h : c.answer (s.db.view (s.tx.log w)) began input = some (r, es))
    (hgrant : grantable s.tx w c input) :
    (s.tx.extend w (lockedKeys c input) es).Sound engine := by
  have havail : s.tx.locks.available w (lockedKeys c input) := by
    cases input with
    | row uuid => exact hgrant.2
    | fail msg => simp [Locks.available, lockedKeys]
    | rail answer => simp [Locks.available, lockedKeys]
  rcases answer_keys h with hnil | ⟨uuid, rfl, hl, hn, hnew⟩
  · exact hs.extend havail (by simp [hnil]) (by simp [hnil]) (by simp [hnil])
  · refine hs.extend havail (fun k hk => show k ∈ c.locks uuid from hl ▸ hk) hn fun k hk => ?_
    rcases hnew k hk with rfl | hk'
    · exact hs.not_mem_view hgrant.1 w
    · exact hk'

/-- Every event keeps the keys unique. -/
theorem sound_change (hs : s.tx.Sound engine) (h : Change env s e t) : t.tx.Sound engine := by
  cases h with
  | quiet he htx => exact htx ▸ hs
  | @create c amountUSDC hunused =>
    obtain ⟨hne, -, hquote, hintent, href, -⟩ := hunused
    have hunseen : ∀ k ∈ Key.id c.quoteID :: (c.rows amountUSDC s.now).2.keys,
        s.tx.unseen engine k := by
      intro k hk
      simp only [CreateIntent.rows, PaymentIntent.keys, List.mem_cons, List.not_mem_nil,
        or_false] at hk
      rcases hk with rfl | rfl | rfl
      · exact hquote
      · exact hintent
      · exact href
    refine hs.write (keys_createIntent s.db _ _) ?_ (fun k hk => (hunseen k hk).1)
      fun k hk => hs.not_mem_log (hunseen k hk)
    simpa [CreateIntent.rows, PaymentIntent.keys] using hne
  | @record n uuid began row sightings hok hid =>
    obtain ⟨ks, hperm, hnodup, hks⟩ := keys_recordDeposit s.db row uuid began
    refine hs.write hperm hnodup (fun k hk => ?_) fun k hk => ?_
    · rcases hks k hk with rfl | ⟨-, hnot⟩
      · exact hid.1
      · exact hnot
    · rcases hks k hk with rfl | ⟨hwatcher, -⟩
      · exact hs.not_mem_log hid
      · exact fun v => watcherKey_not_mem hwatcher _
  | claim => exact sound_writeSaga hs _ fun r => rfl
  | start => exact hs
  | exec hw hanswer hgrant => exact sound_exec hs hanswer hgrant
  | rollback => exact hs.rollback _
  | commit => exact hs.commit _
  | settle hw hfree hf => cases hf <;> exact sound_writeSaga hs _ fun r => rfl

end Sound

end Selatpay.Settlement
