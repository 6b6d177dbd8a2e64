import Selatpay.Chain.Watcher

/-!
# A deposit row is the merge of its events

The poll, promote and subscribe loops upsert the same signature again and again and
in any order. Whatever they do to other signatures, the row of one signature is the
merge of the events for it: the highest commitment, the first intent, and the other
columns of the first event.
-/

namespace Selatpay.Chain

open Store

/-- The row of a signature. -/
def storedPayment (db : Db) (signature : String) : Option OnchainPayment :=
  Table.find OnchainPayment.signature db.payments signature

/-- A sequence of upserts. -/
def upserts (db : Db) (events : List OnchainPayment) : Db :=
  events.foldl (fun db new => (upsertOnchainPayment db new).1) db

/-- The events for one signature. -/
def eventsFor (signature : String) (events : List OnchainPayment) : List OnchainPayment :=
  events.filter fun new => new.signature = signature

/-- The row carries the highest commitment of the events, their first intent and otherwise the
columns of the first one. -/
structure MergeOf (events : List OnchainPayment) (row : OnchainPayment) : Prop where
  highest : ∀ new ∈ events, new.commitment.rank ≤ row.commitment.rank
  attained : ∃ new ∈ events, row.commitment = new.commitment
  intentID : row.intentID = events.findSome? OnchainPayment.intentID
  columns : ∃ first ∈ events.head?,
    row = { first with commitment := row.commitment, intentID := row.intentID }

/-! ## Merging -/

theorem rank_inj {a b : Commitment} (h : a.rank = b.rank) : a = b := by
  cases a <;> cases b <;> first | rfl | cases h

theorem mergePayment_rank (old new : OnchainPayment) :
    (mergePayment old new).commitment.rank = max old.commitment.rank new.commitment.rank := by
  simp only [mergePayment]
  split
  · rename_i h
    exact (max_eq_right h.le).symm
  · rename_i h
    exact (max_eq_left (not_lt.mp h)).symm

theorem mergePayment_commitment (old new : OnchainPayment) :
    (mergePayment old new).commitment = old.commitment ∨
      (mergePayment old new).commitment = new.commitment := by
  simp only [mergePayment]
  split
  · exact .inr rfl
  · exact .inl rfl

/-- A merge of events and one more. -/
theorem MergeOf.snoc {events : List OnchainPayment} {row : OnchainPayment} (h : MergeOf events row)
    (new : OnchainPayment) : MergeOf (events ++ [new]) (mergePayment row new) where
  highest := by
    intro a ha
    rw [mergePayment_rank]
    rcases List.mem_append.mp ha with ha | ha
    · exact (h.highest a ha).trans (le_max_left _ _)
    · rw [List.mem_singleton.mp ha]
      exact le_max_right _ _
  attained := by
    rcases mergePayment_commitment row new with heq | heq
    · obtain ⟨a, ha, hrow⟩ := h.attained
      exact ⟨a, List.mem_append_left _ ha, heq.trans hrow⟩
    · exact ⟨new, by simp, heq⟩
  intentID := by
    have hsingle : [new].findSome? OnchainPayment.intentID = new.intentID := by
      cases hid : new.intentID <;> simp [hid]
    rw [List.findSome?_append, ← h.intentID, hsingle]
    rfl
  columns := by
    obtain ⟨first, hfirst, hrow⟩ := h.columns
    refine ⟨first, by simp [Option.mem_def.mp hfirst], ?_⟩
    rw [mergePayment, hrow]

theorem mergeOf_singleton (new : OnchainPayment) : MergeOf [new] new where
  highest := by simp
  attained := ⟨new, by simp, rfl⟩
  intentID := by cases hid : new.intentID <;> simp [hid]
  columns := ⟨new, rfl, rfl⟩

/-- A merge is determined up to its own columns: the commitment by the events in any order. -/
theorem MergeOf.commitment_eq {events events' : List OnchainPayment} {row row' : OnchainPayment}
    (h : MergeOf events row) (h' : MergeOf events' row')
    (hmem : ∀ new, new ∈ events ↔ new ∈ events') : row.commitment = row'.commitment := by
  obtain ⟨a, ha, hrow⟩ := h.attained
  obtain ⟨b, hb, hrow'⟩ := h'.attained
  have hle := h'.highest a ((hmem a).mp ha)
  have hge := h.highest b ((hmem b).mpr hb)
  rw [← hrow] at hle
  rw [← hrow'] at hge
  exact rank_inj (hle.antisymm hge)

/-! ## Sequences of upserts -/

section Upserts

variable {db : Db} {signature : String}

theorem eventsFor_append (pre post : List OnchainPayment) :
    eventsFor signature (pre ++ post) = eventsFor signature pre ++ eventsFor signature post := by
  simp [eventsFor]

theorem eventsFor_singleton (new : OnchainPayment) :
    eventsFor signature [new] = if new.signature = signature then [new] else [] := by
  by_cases h : new.signature = signature <;> simp [eventsFor, h]

theorem storedPayment_upsert_self (db : Db) (new : OnchainPayment) :
    storedPayment (upsertOnchainPayment db new).1 new.signature =
      some (((storedPayment db new.signature).map (mergePayment · new)).getD new) := by
  unfold upsertOnchainPayment
  cases hfind : Table.find OnchainPayment.signature db.payments new.signature with
  | none => simp [storedPayment, Table.find_append, Table.find_singleton, hfind]
  | some old =>
    have hkey : ∀ p : OnchainPayment, (mergePayment p new).signature = p.signature := fun _ => rfl
    simp only [storedPayment, Table.find_update_self hkey, hfind]
    rfl

theorem storedPayment_upsert_ne {new : OnchainPayment} (h : new.signature ≠ signature) :
    storedPayment (upsertOnchainPayment db new).1 signature = storedPayment db signature := by
  unfold upsertOnchainPayment
  cases hfind : Table.find OnchainPayment.signature db.payments new.signature with
  | none => simp [storedPayment, Table.find_append, Table.find_singleton, h]
  | some old => exact Table.find_update_ne (fun _ => rfl) h.symm

theorem upserts_snoc (db : Db) (events : List OnchainPayment) (new : OnchainPayment) :
    upserts db (events ++ [new]) = (upsertOnchainPayment (upserts db events) new).1 := by
  simp [upserts]

/-- What is stored after a sequence of upserts is the merge of the events for the signature. -/
theorem storedPayment_upserts (hnew : storedPayment db signature = none)
    (events : List OnchainPayment) :
    eventsFor signature events = [] ∧ storedPayment (upserts db events) signature = none ∨
      ∃ row, storedPayment (upserts db events) signature = some row ∧
        MergeOf (eventsFor signature events) row := by
  induction events using List.reverseRecOn with
  | nil => exact .inl ⟨rfl, hnew⟩
  | append_singleton events new ih =>
    rw [upserts_snoc, eventsFor_append, eventsFor_singleton]
    by_cases hsig : new.signature = signature
    · subst hsig
      rw [storedPayment_upsert_self, if_pos rfl]
      refine .inr ⟨_, rfl, ?_⟩
      rcases ih with ⟨hnone, hstored⟩ | ⟨row, hstored, hrow⟩
      · rw [hstored, hnone]
        exact mergeOf_singleton new
      · rw [hstored]
        exact hrow.snoc new
    · rw [storedPayment_upsert_ne hsig, if_neg hsig, List.append_nil]
      exact ih

/-- Where there were events, a row is stored. -/
theorem exists_storedPayment (hnew : storedPayment db signature = none)
    (events : List OnchainPayment) (hown : eventsFor signature events ≠ []) :
    ∃ row, storedPayment (upserts db events) signature = some row ∧
      MergeOf (eventsFor signature events) row :=
  (storedPayment_upserts hnew events).resolve_left fun h => hown h.1

/-- A stored row is the merge of the events for it. -/
theorem mergeOf_storedPayment (hnew : storedPayment db signature = none)
    {events : List OnchainPayment} {row : OnchainPayment}
    (h : storedPayment (upserts db events) signature = some row) :
    MergeOf (eventsFor signature events) row := by
  rcases storedPayment_upserts hnew events with ⟨-, hnone⟩ | ⟨row', hrow', hmerge⟩
  · rw [hnone] at h
    cases h
  · rw [h] at hrow'
    cases hrow'
    exact hmerge

/-- Along the way the commitment does not decrease and a set intent does not change. -/
theorem MergeOf.of_append {pre post : List OnchainPayment} {old row : OnchainPayment}
    (hold : MergeOf pre old) (hrow : MergeOf (pre ++ post) row) :
    old.commitment.rank ≤ row.commitment.rank ∧
      ∀ id, old.intentID = some id → row.intentID = some id := by
  obtain ⟨a, ha, heq⟩ := hold.attained
  refine ⟨heq ▸ hrow.highest a (List.mem_append_left _ ha), fun id hid => ?_⟩
  rw [hrow.intentID, List.findSome?_append, ← hold.intentID, hid]
  rfl

end Upserts

/-- Whatever sequence of upserts is made, the row of a new signature is the merge of the events for
it; on the way its commitment never decreases and its intent never changes, and neither the order
of the events nor repeating one of them changes the commitment. -/
theorem payment_merges_events {db : Db} {signature : String} {events : List OnchainPayment}
    (hnew : storedPayment db signature = none) (hown : eventsFor signature events ≠ []) :
    ∃ row, storedPayment (upserts db events) signature = some row ∧
      MergeOf (eventsFor signature events) row ∧
      (∀ pre post old, events = pre ++ post → storedPayment (upserts db pre) signature = some old →
        old.commitment.rank ≤ row.commitment.rank ∧
          ∀ id, old.intentID = some id → row.intentID = some id) ∧
      (∀ events', events'.Perm events → ∃ row',
        storedPayment (upserts db events') signature = some row' ∧
          row'.commitment = row.commitment) ∧
      ∀ new ∈ eventsFor signature events, ∃ row',
        storedPayment (upserts db (events ++ [new])) signature = some row' ∧
          row'.commitment = row.commitment ∧ row'.intentID = row.intentID := by
  obtain ⟨row, hrow, hmerge⟩ := exists_storedPayment hnew events hown
  refine ⟨row, hrow, hmerge, ?_, ?_, ?_⟩
  · intro pre post old heq hold
    rw [heq, eventsFor_append] at hmerge
    exact (mergeOf_storedPayment hnew hold).of_append hmerge
  · intro events' hperm
    have hperm' : (eventsFor signature events').Perm (eventsFor signature events) := hperm.filter _
    obtain ⟨row', hrow', hmerge'⟩ := exists_storedPayment hnew events'
      fun hnil => hown (List.nil_perm.mp (hnil ▸ hperm'))
    exact ⟨row', hrow', hmerge'.commitment_eq hmerge fun _ => hperm'.mem_iff⟩
  · intro new hmem
    have hsig : new.signature = signature := by simpa using (List.mem_filter.mp hmem).2
    have hagain : eventsFor signature (events ++ [new]) = eventsFor signature events ++ [new] := by
      rw [eventsFor_append, eventsFor_singleton, if_pos hsig]
    obtain ⟨row', hrow', hmerge'⟩ := exists_storedPayment hnew (events ++ [new])
      (by simp [hagain])
    rw [hagain] at hmerge'
    refine ⟨row', hrow', hmerge'.commitment_eq hmerge ?_, ?_⟩
    · intro a
      simp only [List.mem_append, List.mem_singleton, or_iff_left_iff_imp]
      rintro rfl
      exact hmem
    · rw [hmerge'.intentID, hmerge.intentID, List.findSome?_append]
      cases hfirst : (eventsFor signature events).findSome? OnchainPayment.intentID with
      | some id => rfl
      | none => simp [List.findSome?_eq_none_iff.mp hfirst new hmem]

/-! ## Deposits and runs -/

/-- Intents have a run exactly when a payment is settled for them. -/
def RunsMatchDeposits (db : Db) : Prop :=
  ∀ intentID, (∃ r ∈ db.sagas, r.intentID = intentID) ↔ ∃ p ∈ db.payments, Settled p intentID

section Record

variable {db : Db} {new : OnchainPayment} {uuid : UUID} {now : Time}

theorem recordDeposit_payments (db : Db) (new : OnchainPayment) (uuid : UUID) (now : Time) :
    (recordDeposit db new uuid now).payments = (upsertOnchainPayment db new).1.payments := by
  simp only [recordDeposit, enqueueSagaRun]
  split
  · split <;> rfl
  · rfl

/-- Every payment after an upsert was stored before, or is the returned row. -/
theorem mem_upserted (hunique : (db.payments.map OnchainPayment.signature).Nodup)
    {p : OnchainPayment} (hp : p ∈ (upsertOnchainPayment db new).1.payments) :
    p ∈ db.payments ∨ p = (upsertOnchainPayment db new).2 := by
  unfold upsertOnchainPayment at hp ⊢
  cases hfind : Table.find OnchainPayment.signature db.payments new.signature with
  | none => simpa [hfind] using hp
  | some old =>
    simp only [hfind] at hp ⊢
    obtain ⟨a, ha, rfl⟩ := Table.mem_update hp
    split
    · rename_i hsig
      obtain ⟨hold, hsig'⟩ := Table.mem_of_find hfind
      have heq : a = old := Table.eq_of_mem hunique ha hold (hsig.trans hsig'.symm)
      exact .inr (by rw [heq])
    · exact .inl ha

/-- The intent of a settled row has a run when the deposit is recorded. -/
theorem exists_run_recordDeposit (uuid : UUID) (now : Time) {intentID : UUID}
    (h : Settled (upsertOnchainPayment db new).2 intentID) :
    ∃ r ∈ (recordDeposit db new uuid now).sagas, r.intentID = intentID := by
  obtain ⟨hid, hfinal⟩ := h
  simp only [recordDeposit, hid, hfinal, enqueueSagaRun]
  split
  · rename_i r hfind
    have hr := List.find?_some hfind
    exact ⟨r, List.mem_of_find?_eq_some hfind, by simpa using (of_decide_eq_true hr).1⟩
  · exact ⟨newSagaRun uuid intentID now, by simp, rfl⟩

theorem runsMatchDeposits_recordDeposit
    (hunique : (db.payments.map OnchainPayment.signature).Nodup) (hdb : RunsMatchDeposits db) :
    RunsMatchDeposits (recordDeposit db new uuid now) := by
  obtain ⟨payments, sagas, heq, hpayments, hsagas⟩ := recordDeposit_spec db new uuid now
  have hupserted : payments = (upsertOnchainPayment db new).1.payments := by
    rw [← recordDeposit_payments db new uuid now, heq]
  have hrecorded : ∀ intentID, Settled (upsertOnchainPayment db new).2 intentID →
      ∃ r ∈ sagas, r.intentID = intentID := by
    intro intentID hsettled
    have hrun := exists_run_recordDeposit uuid now hsettled
    rwa [heq] at hrun
  rw [heq]
  intro intentID
  constructor
  · rintro ⟨r, hr, rfl⟩
    have hold : r ∈ db.sagas → ∃ p ∈ payments, Settled p r.intentID := by
      intro hr
      obtain ⟨p, hp, hsettled⟩ := (hdb r.intentID).mp ⟨r, hr, rfl⟩
      exact ⟨p, hpayments.settled hp hsettled, hsettled⟩
    cases hsagas with
    | unchanged => exact hold hr
    | enqueued hp hid hfinal =>
      rcases List.mem_append.mp hr with hr | hr
      · exact hold hr
      · rw [List.mem_singleton.mp hr]
        exact ⟨_, hp, hid, hfinal⟩
  · rintro ⟨p, hp, hsettled⟩
    rcases mem_upserted hunique (hupserted ▸ hp) with hp | rfl
    · obtain ⟨r, hr, hid⟩ := (hdb intentID).mpr ⟨p, hp, hsettled⟩
      cases hsagas with
      | unchanged => exact ⟨r, hr, hid⟩
      | enqueued => exact ⟨r, List.mem_append_left _ hr, hid⟩
    · exact hrecorded intentID hsettled

end Record

/-- A deposit that is finalized before its reference is known, and polled again once it is. -/
def polledAgain : List OnchainPayment :=
  [⟨"sig-1", 5, none, 21, 11, 12, 61847, none, .finalized, none, 0⟩,
    ⟨"sig-2", 6, none, 22, 11, 12, 500, none, .confirmed, none, 1⟩,
    ⟨"sig-1", 5, none, 21, 11, 12, 61847, some 99, .confirmed, some 3, 2⟩]

theorem payment_merges_events_polledAgain : ∃ row,
    storedPayment (upserts ⟨⟨[], [], []⟩, [], [], [], [], [], [], []⟩ polledAgain) "sig-1" =
        some row ∧
      row.commitment.rank = Commitment.finalized.rank ∧ row.intentID = some 3 := by
  obtain ⟨row, hrow, hmerge, -⟩ := @payment_merges_events
    ⟨⟨[], [], []⟩, [], [], [], [], [], [], []⟩ "sig-1" polledAgain rfl (by decide)
  have hfinal : Commitment.finalized.rank ≤ row.commitment.rank :=
    hmerge.highest _ (show ⟨"sig-1", 5, none, 21, 11, 12, 61847, none, .finalized, none, 0⟩ ∈ _ by
      decide)
  refine ⟨row, hrow, le_antisymm ?_ hfinal, hmerge.intentID⟩
  cases row.commitment <;> decide

end Selatpay.Chain
