import Selatpay.Settlement.Invariant

/-!
# What is fixed when an intent is created

An intent is created together with its quote and a fresh reference, and none of its
columns but the state is ever updated. So what the server has checked and computed
at its creation holds of every stored intent.
-/

namespace Selatpay.Settlement

open Store Saga Chain

/-- What the server has checked and computed for an intent. -/
structure Issued (db : Db) (i : PaymentIntent) : Prop where
  id_ne : i.id ≠ 0
  amount_pos : 0 < i.amountIDR
  amount_range : IsInt64 i.amountIDR
  quote : ∃ q ∈ db.quotes, q.id = i.quoteID ∧ 0 ≤ q.rateScale ∧ q.rateScale ≤ 18 ∧
    Quoter.quoteAmount i.amountIDR ⟨q.rateNum, q.rateScale⟩ q.spreadBps = .ok i.quotedAmountUSDC

/-- All intents are issued, and no two share a reference. -/
structure IntentsIssued (db : Db) : Prop where
  issued : ∀ i ∈ db.intents, Issued db i
  references : ∀ i ∈ db.intents, ∀ j ∈ db.intents, ∀ pub, i.referencePubkey = some pub →
    j.referencePubkey = some pub → i.id = j.id

section Step

variable {env : Env} {s t : World} {e : Event}

/-- Steps update the states of intents only. -/
theorem view_intentTerms (db : Db) (log : List Effect) :
    (db.view log).intents.map intentTerms = db.intents.map intentTerms := by
  induction log generalizing db with
  | nil => rfl
  | cons e log ih =>
    rw [Db.view_cons, ih]
    cases e with
    | setIntentState id state now =>
      have h : ∀ i : PaymentIntent, intentTerms (i.setState state now) = intentTerms i :=
        fun i => rfl
      simp [Db.apply, Table.map_update h]
    | ledger e => rfl
    | insertPayout row => rfl
    | changePayout id c => rfl
    | insertOutbox row => rfl
    | changeSaga id c => rfl

/-- An event creates an intent, or keeps the terms of all. -/
theorem intents_change (h : Change env s e t) :
    (∃ (c : CreateIntent) (amountUSDC : Int), c.unused s.tx ∧ c.valid ∧ c.quotable ∧
      Quoter.quoteAmount c.amountIDR c.rate c.spreadBps = .ok amountUSDC ∧
      t.db = createIntent s.db (c.rows amountUSDC s.now)) ∨
    t.db.intents.map intentTerms = s.db.intents.map intentTerms := by
  cases h with
  | quiet he htx => exact .inr (by rw [World.db, World.db, htx])
  | create hunused hvalid hquotable hquote =>
    exact .inl ⟨_, _, hunused, hvalid, hquotable, hquote, rfl⟩
  | @record n uuid began row sightings =>
    obtain ⟨payments, sagas, hdb, -, -⟩ := recordDeposit_spec s.db row uuid began
    exact .inr (by simp only [World.db, hdb])
  | claim => exact .inr rfl
  | start => exact .inr rfl
  | exec => exact .inr rfl
  | rollback => exact .inr rfl
  | commit => exact .inr (view_intentTerms _ _)
  | settle => exact .inr rfl

theorem Issued.mono {db db' : Db} {i i' : PaymentIntent} (h : Issued db i)
    (hterms : intentTerms i = intentTerms i') (hg : Grows db db') : Issued db' i' := by
  obtain ⟨hid, hamount, hquoted, hquoteID, -⟩ := terms_eq hterms
  obtain ⟨hne, hpos, hrange, q, hq, hqid, hscale, hmax, hquote⟩ := h
  rw [hamount] at hpos hrange
  rw [hamount, hquoted] at hquote
  exact ⟨hid ▸ hne, hpos, hrange, q, hg.quotes.subset hq, hqid.trans hquoteID, hscale, hmax, hquote⟩

theorem intentsIssued_change (hi : IntentsIssued s.db) (h : Change env s e t) :
    IntentsIssued t.db := by
  have hg := grows_change h
  rcases intents_change h with ⟨c, amountUSDC, hunused, hvalid, hquotable, hquote, hdb⟩ | hterms
  · obtain ⟨-, hne, -, -, -, hfresh, -⟩ := hunused
    have hold : ∀ i ∈ s.db.intents, Issued t.db i := fun i hmem => (hi.issued i hmem).mono rfl hg
    rw [hdb] at hold ⊢
    constructor
    · intro i hmem
      rcases List.mem_append.mp hmem with hmem | hmem
      · exact hold i hmem
      · rw [List.mem_singleton.mp hmem]
        exact ⟨hne, hvalid.2.2, hquotable.2.2, (c.rows amountUSDC s.now).1, by simp [createIntent],
          rfl, hquotable.1, hquotable.2.1, hquote⟩
    · intro i hmem j hmem' pub href href'
      rcases List.mem_append.mp hmem with hmem | hmem <;>
        rcases List.mem_append.mp hmem' with hmem' | hmem'
      · exact hi.references i hmem j hmem' pub href href'
      · rw [List.mem_singleton.mp hmem'] at href'
        exact absurd (href.trans href'.symm) (hfresh i hmem)
      · rw [List.mem_singleton.mp hmem] at href
        exact absurd (href'.trans href.symm) (hfresh j hmem')
      · rw [List.mem_singleton.mp hmem, List.mem_singleton.mp hmem']
  · have hback : ∀ i ∈ t.db.intents, ∃ a ∈ s.db.intents, intentTerms a = intentTerms i := by
      intro i hmem
      have hmap := List.mem_map_of_mem (f := intentTerms) hmem
      rw [hterms] at hmap
      exact List.mem_map.mp hmap
    constructor
    · intro i hmem
      obtain ⟨a, ha, heq⟩ := hback i hmem
      exact (hi.issued a ha).mono heq hg
    · intro i hmem j hmem' pub href href'
      obtain ⟨a, ha, heq⟩ := hback i hmem
      obtain ⟨b, hb, heq'⟩ := hback j hmem'
      obtain ⟨hid, -, -, -, hrefa⟩ := terms_eq heq
      obtain ⟨hid', -, -, -, hrefb⟩ := terms_eq heq'
      rw [← hid, ← hid']
      exact hi.references a ha b hb pub (hrefa.trans href) (hrefb.trans href')

end Step

/-- In every reachable state all intents are issued. -/
theorem Reachable.issued {env : Env} {ok : World → Event → Prop} {s : World}
    (h : Reachable env ok s) : IntentsIssued s.db := by
  obtain ⟨-, hissued⟩ := h.induct (P := fun s => IntentsIssued s.db)
    (fun _ _ _ => ⟨by simp [World.init, TxState.init], by simp [World.init, TxState.init]⟩)
    fun _ _ _ _ hi _ hst => intentsIssued_change hi (step_change hst)
  exact hissued

end Selatpay.Settlement
