import Selatpay.Outbox.Accounting

/-!
# Delivery

What the account of a run says about each row: who delivered it, how often it has
failed, that it is not lost. A row whose mark was issued is not sent again as long as
no pass is abandoned after it has issued a mark, since the marks of a pass stand and
fall together.
-/

namespace Selatpay.Outbox

/-- The message a pass is about to send. -/
def Pass.sending (p : Pass) : Option Message :=
  match p.prog with
  | .call (.send msg) _ => some msg
  | _ => none

/-- The message is about to be sent. -/
def World.Sending (s : World) (msg : Message) : Prop := ∃ p ∈ s.pass, p.sending = some msg

/-- The row still holds the message of another. -/
def Row.SameMessage (r row : Row) : Prop :=
  r.id = row.id ∧ r.topic = row.topic ∧ r.aggregateID = row.aggregateID ∧
    r.payload = row.payload ∧ r.headers = row.headers ∧ r.createdAt = row.createdAt

theorem Row.SameMessage.refl (r : Row) : r.SameMessage r := ⟨rfl, rfl, rfl, rfl, rfl, rfl⟩

theorem Row.SameMessage.trans {r q row : Row} (h : r.SameMessage q) (h' : q.SameMessage row) :
    r.SameMessage row := by
  unfold Row.SameMessage at h h' ⊢
  simp only [h, h', and_self]

/-- The pass that an event ends with a commit. -/
def CommittedBy (s t : World) (p : Ended) : Prop := t.ended = s.ended ++ [p] ∧ p.committed = true

/-- The account of a state. -/
structure Accounting (d : Dispatcher) (s : World) : Prop where
  /-- A row becomes delivered only by the commit of a pass in which `Send` returned nil for it. -/
  delivered : ∀ e t, step d s e = some t → ∀ r ∈ s.rows, r.deliveredAt = none →
    ∀ r' ∈ t.rows, r'.id = r.id → r'.deliveredAt ≠ none →
      ∃ p, CommittedBy s t p ∧ (r.id, true) ∈ p.sends
  /-- A delivered row is not sent again. -/
  sending : ∀ msg, s.Sending msg → ∀ r ∈ s.rows, r.id = msg.id → r.deliveredAt = none
  /-- The attempts are the committed passes in which `Send` failed. -/
  attempts : ∀ r ∈ s.rows, r.attempts = s.failures r.id ∧ r.attempts ≤ d.maxAttempts
  /-- A row that has used up its attempts is not claimed. -/
  claimed : ∀ p, s.pass = some p → ∀ r ∈ p.batch, r.attempts < d.maxAttempts
  /-- A pass changes no row but by its commit. -/
  unchanged : ∀ e t, step d s e = some t → (∃ p, CommittedBy s t p) ∨
    (∃ topic aggregateID payload headers id createdAt,
      e = .publish topic aggregateID payload headers id createdAt) ∨ t.rows = s.rows
  /-- Every row is delivered, scheduled for later, or due. -/
  placed : ∀ r ∈ s.rows, r.deliveredAt ≠ none ∨ s.now < r.nextAttemptAt ∨ r.Due r.topic s.now

section Runs

variable {d : Dispatcher} {epoch : Int} {s t : World} {e : Event}

/-- The message about to be sent is one of a claimed row. -/
theorem Inv.sending (hs : Inv d epoch s) {msg : Message} (h : s.Sending msg) :
    ∃ p row rest, s.pass = some p ∧ p.At d epoch s (.sending row msg rest) ∧ row ∈ p.batch ∧
      row.id = msg.id := by
  obtain ⟨p, hp, hmsg⟩ := h
  obtain ⟨st, hat⟩ := hs.pass p hp
  unfold Pass.sending at hmsg
  rw [hat.prog] at hmsg
  cases st with
  | sending row msg' rest =>
    cases hmsg
    obtain ⟨done, hbatch, -⟩ := hat.split
    exact ⟨p, row, rest, hp, hat, mem_of_split hbatch, (toMessage_id hat.facts).symm⟩
  | claiming => cases hmsg
  | marking row rest => cases hmsg
  | backing row err rest => cases hmsg
  | timing row err delay rest => cases hmsg
  | scheduling row err nextAttemptAt rest => cases hmsg
  | committing => cases hmsg

/-- A row that is about to be sent is not delivered. -/
theorem Inv.undelivered (hs : Inv d epoch s) {msg : Message} (h : s.Sending msg) :
    ∀ r ∈ s.rows, r.id = msg.id → r.deliveredAt = none := by
  intro r hr hid
  obtain ⟨p, row, rest, -, hat, hrow, hid'⟩ := hs.sending h
  obtain ⟨hmem, hdue⟩ := hat.due row hrow
  have hsame : row = r := Table.eq_of_mem hs.nodup hmem hr (hid'.trans hid.symm)
  exact hsame ▸ hdue.2.1

/-- An event delivers a row only as the commit of a pass that sent it. -/
theorem Inv.delivers (hs : Inv d epoch s) (h : step d s e = some t) {r r' : Row}
    (hr : r ∈ s.rows) (hnone : r.deliveredAt = none) (hr' : r' ∈ t.rows) (hid : r'.id = r.id)
    (hdelivered : r'.deliveredAt ≠ none) : ∃ p, CommittedBy s t p ∧ (r.id, true) ∈ p.sends := by
  have hold : r' ∉ s.rows := by
    intro hmem
    have hsame : r' = r := Table.eq_of_mem hs.nodup hmem hr hid
    exact hdelivered (hsame ▸ hnone)
  cases hs.change h with
  | elapse n => exact absurd hr' hold
  | begin _ => exact absurd hr' hold
  | moves _ _ _ => exact absurd hr' hold
  | abandons _ _ _ _ hcommitted =>
    simp only [World.finish, hcommitted] at hr'
    exact absurd hr' hold
  | publish hrow _ _ =>
    obtain ⟨-, -, -, -, hnew, -⟩ := publish_ok hrow
    rcases List.mem_append.mp hr' with hr' | hr'
    · exact absurd hr' hold
    · rw [List.mem_singleton.mp hr'] at hdelivered
      exact absurd hnew hdelivered
  | @commits input p p' hp hat hsends hlog hcommitted =>
    obtain ⟨q, hq, hres⟩ := hs.resolved_commit hat hlog hcommitted r' hr'
    have hsame : q = r := Table.eq_of_mem hs.nodup hq hr (hres.id_eq.symm.trans hid)
    subst hsame
    refine ⟨⟨p'.sends, p'.log, p'.committed⟩, ⟨rfl, hcommitted⟩, ?_⟩
    rw [hsends]
    cases hres with
    | kept _ => exact absurd hnone hdelivered
    | delivered now hmem _ => exact hmem
    | retried nextAttemptAt lastError _ _ _ => exact absurd hnone hdelivered

/-- A claimed row has attempts left, as long as the run is shorter than a parked row waits. -/
theorem Inv.claimed (hs : Inv d epoch s) (hyears : s.now < epoch + century) {p : Pass}
    (hp : s.pass = some p) : ∀ r ∈ p.batch, r.attempts < d.maxAttempts := by
  obtain ⟨st, hat⟩ := hs.pass p hp
  intro r hr
  obtain ⟨hmem, -, -, hdue⟩ := hat.due r hr
  have hparked := hs.parked r hmem
  have hstart := hat.start_le
  omega

theorem Inv.accounting (hs : Inv d epoch s) (hyears : s.now < epoch + century) :
    Accounting d s := by
  refine ⟨fun e t h r hr hnone r' hr' hid hd => hs.delivers h hr hnone hr' hid hd,
    fun msg => hs.undelivered, fun r hr => ⟨hs.attempts r hr, hs.bounded hyears r hr⟩,
    fun p => hs.claimed hyears, fun e t h => ?_, fun r _ => ?_⟩
  · cases hs.change h with
    | elapse n => exact .inr (.inr rfl)
    | begin _ => exact .inr (.inr rfl)
    | moves _ _ _ => exact .inr (.inr rfl)
    | abandons _ _ _ _ hcommitted => exact .inr (.inr (by simp [World.finish, hcommitted]))
    | publish _ _ _ => exact .inr (.inl ⟨_, _, _, _, _, _, rfl⟩)
    | commits _ _ _ _ hcommitted => exact .inl ⟨_, rfl, hcommitted⟩
  · by_cases hdelivered : r.deliveredAt = none
    · by_cases hlater : s.now < r.nextAttemptAt
      · exact .inr (.inl hlater)
      · exact .inr (.inr ⟨rfl, hdelivered, by omega⟩)
    · exact .inl hdelivered

/-- No event removes a row or changes its message. -/
theorem Inv.survives (hs : Inv d epoch s) (h : step d s e = some t) {r : Row} (hr : r ∈ s.rows) :
    ∃ r' ∈ t.rows, r'.SameMessage r := by
  have hself : r.SameMessage r := .refl r
  cases hs.change h with
  | elapse n => exact ⟨r, hr, hself⟩
  | begin _ => exact ⟨r, hr, hself⟩
  | moves _ _ _ => exact ⟨r, hr, hself⟩
  | publish _ _ _ => exact ⟨r, List.mem_append_left _ hr, hself⟩
  | abandons _ _ _ _ hcommitted =>
    refine ⟨r, ?_, hself⟩
    simpa [World.finish, hcommitted] using hr
  | @commits input p p' hp hat hsends hlog hcommitted =>
    refine ⟨applyLog p'.log r, ?_, ?_⟩
    · simp only [World.finish, hcommitted, if_true]
      exact List.mem_map_of_mem hr
    · have hres := hat.resolved hs.nodup hr
      rw [hlog]
      generalize applyLog p.log r = r' at hres ⊢
      cases hres <;> exact hself

/-- The row an event has published is still there. -/
def Event.Kept (s : World) : Event → Prop
  | .publish topic aggregateID payload headers id createdAt => ∀ row,
      Outbox.publish topic aggregateID payload headers id createdAt = .ok row →
        ∃ r ∈ s.rows, r.SameMessage row
  | _ => True

theorem Event.Kept.step {e' : Event} (hkept : e'.Kept s) (hs : Inv d epoch s)
    (h : Outbox.step d s e = some t) : e'.Kept t := by
  cases e' with
  | publish topic aggregateID payload headers id createdAt =>
    intro row hrow
    obtain ⟨r, hr, hsame⟩ := hkept row hrow
    obtain ⟨r', hr', hsame'⟩ := hs.survives h hr
    exact ⟨r', hr', hsame'.trans hsame⟩
  | _ => trivial

theorem kept_of_step (hs : Inv d epoch s) (h : step d s e = some t) : e.Kept t := by
  cases hs.change h with
  | publish hrow _ _ =>
    intro row hrow'
    cases hrow.symm.trans hrow'
    exact ⟨_, List.mem_append_right _ (List.mem_singleton_self _), rfl, rfl, rfl, rfl, rfl, rfl⟩
  | elapse n => trivial
  | begin _ => trivial
  | moves _ _ _ => trivial
  | commits _ _ _ _ _ => trivial
  | abandons hof _ _ _ _ => cases e <;> trivial

/-- The rows of a run so far are accounted for and still there. -/
structure Keeps (d : Dispatcher) (epoch : Int) (past : List Event) (s : World) : Prop where
  inv : Inv d epoch s
  kept : ∀ e ∈ past, e.Kept s

theorem Keeps.step {past : List Event} (hs : Keeps d epoch past s)
    (h : Outbox.step d s e = some t) : Keeps d epoch (past ++ [e]) t := by
  refine ⟨inv_step hs.inv h, fun e' he' => ?_⟩
  rcases List.mem_append.mp he' with he' | he'
  · exact (hs.kept e' he').step hs.inv h
  · rw [List.mem_singleton.mp he']
    exact kept_of_step hs.inv h

/-- In every run shorter than a hundred years every state is accounted for, and every row that
was published is still there. -/
theorem delivery_accounting {es : List Event} (h : Path (step d) anyStep (.init epoch) es s)
    (hyears : s.now < epoch + century) :
    Accounting d s ∧
      ∀ topic aggregateID payload headers id createdAt row,
        Event.publish topic aggregateID payload headers id createdAt ∈ es →
        publish topic aggregateID payload headers id createdAt = .ok row →
        ∃ r ∈ s.rows, r.SameMessage row := by
  refine ⟨(inv_of_path h).accounting hyears, ?_⟩
  have hrun : Keeps d epoch ([] ++ es) s :=
    h.history (fun past s e t hs _ h => hs.step h) ⟨.init d epoch, by simp⟩
  intro topic aggregateID payload headers id createdAt row hmem hrow
  exact hrun.kept _ hmem row hrow

end Runs

/-! ## A run of two messages -/

/-- A dispatcher of one topic. -/
def completions : Dispatcher where
  topic := "intent.completed"
  batchSize := 32
  maxAttempts := 12
  backoffBase := 1000000000
  backoffMax := 300000000000
  topic_ne := by decide
  batchSize_pos := by decide
  maxAttempts_pos := by decide
  backoffBase_pos := by decide
  backoffMax_pos := by decide

/-- A message published at a time. -/
def published (id : UUID) (createdAt : Int) : Event :=
  .publish "intent.completed" none "" [] id createdAt

/-- Its row. -/
def publishedRow (id : UUID) (createdAt : Int) : Row :=
  ⟨id, "intent.completed", none, "null", .ok [], createdAt, createdAt, none, 0, none⟩

/-- Two messages are published and a pass claims both. -/
def bothClaimed : List Event :=
  [.elapse 10, published 1 10, .elapse 10, published 2 20, .begin,
    .call (.claim [publishedRow 1 10, publishedRow 2 20])]

/-- The first message is delivered and the second one has to be retried. -/
def oneDelivered : List Event :=
  bothClaimed ++ [.call (.send none), .call .done, .call (.send (some "downstream 500")),
    .call (.draw 500000), .call .clock, .call .done, .call (.commit .done)]

theorem delivery_accounting_oneDelivered : ∃ s,
    Path (step completions) anyStep (.init 0) oneDelivered s ∧ s.now < 0 + century ∧
      s.rows.map (fun r => (r.deliveredAt, r.nextAttemptAt, r.attempts)) =
        [(some 20, 10, 0), (none, 520, 1)] ∧ Accounting completions s := by
  obtain ⟨s, hs, hnow, hrows⟩ : ∃ s, run (step completions) (.init 0) oneDelivered = some s ∧
      s.now < 0 + century ∧ s.rows.map (fun r => (r.deliveredAt, r.nextAttemptAt, r.attempts)) =
        [(some 20, 10, 0), (none, 520, 1)] := exists_of_any (by decide +kernel)
  exact ⟨s, .of_run hs, hnow, hrows, (delivery_accounting (.of_run hs) hnow).1⟩

/-! ## Marks that are lost -/

/-- A pass that the event ends without a commit has issued no mark. -/
def KeepsMarks (d : Dispatcher) (s : World) (e : Event) : Prop :=
  ∀ t ∈ step d s e, ∀ p ∈ t.ended.drop s.ended.length, p.committed = false →
    ∀ u ∈ p.log, u.isDelivered = false

instance (d : Dispatcher) (s : World) (e : Event) : Decidable (KeepsMarks d s e) :=
  inferInstanceAs (Decidable (∀ t ∈ step d s e, _))

section Marks

variable {d : Dispatcher} {epoch : Int} {s t : World} {e : Event}

/-- Every pass that has issued a mark was committed. -/
structure MarksStand (d : Dispatcher) (epoch : Int) (s : World) : Prop where
  inv : Inv d epoch s
  committed : ∀ p ∈ s.ended, ∀ u ∈ p.log, u.isDelivered = true → p.committed = true

theorem Inv.ended_grows (hs : Inv d epoch s) (h : step d s e = some t) :
    ∀ p ∈ t.ended, p ∈ s.ended ∨ p ∈ t.ended.drop s.ended.length := by
  have hgrows : s.ended <+: t.ended := by
    cases hs.change h with
    | elapse n => exact List.prefix_rfl
    | publish _ _ _ => exact List.prefix_rfl
    | begin _ => exact List.prefix_rfl
    | moves _ _ _ => exact List.prefix_rfl
    | abandons _ _ _ _ _ => exact List.prefix_append _ _
    | commits _ _ _ _ _ => exact List.prefix_append _ _
  obtain ⟨new, hnew⟩ := hgrows
  intro p hp
  rw [← hnew] at hp ⊢
  simpa using hp

theorem MarksStand.step (hs : MarksStand d epoch s) (hok : KeepsMarks d s e)
    (h : Outbox.step d s e = some t) : MarksStand d epoch t := by
  refine ⟨inv_step hs.inv h, fun p hp u hu hmark => ?_⟩
  rcases hs.inv.ended_grows h p hp with hold | hnew
  · exact hs.committed p hold u hu hmark
  · by_contra huncommitted
    have hnone := hok t h p hnew (by simpa using huncommitted) u hu
    rw [hnone] at hmark
    cases hmark

theorem marksStand_of_path {es : List Event}
    (h : Path (step d) (KeepsMarks d) (.init epoch) es s) : MarksStand d epoch s :=
  h.invariant (fun _ _ _ => MarksStand.step) ⟨.init d epoch, by simp [World.init]⟩

/-- A pass has not sent the row it is about to send. -/
theorem Pass.At.unsent {p : Pass} {row : Row} {msg : Message} {rest : List Row}
    (hp : p.At d epoch s (.sending row msg rest)) : row.id ∉ p.sends.map Prod.fst := by
  obtain ⟨done, hbatch, hsends⟩ := hp.split
  have hnodup := hp.nodup
  rw [hbatch, List.map_append, List.nodup_append'] at hnodup
  intro hmem
  rw [hsends] at hmem
  exact hnodup.2.2 hmem (List.mem_map_of_mem List.mem_cons_self)

/-- As long as no pass is abandoned after it has issued a mark, no pass sends a message whose
delivered mark an earlier pass has issued, nor one that it has marked itself. -/
theorem marked_not_resent {es : List Event}
    (h : Path (step d) (KeepsMarks d) (.init epoch) es s) {msg : Message} (hmsg : s.Sending msg) :
    (∀ p ∈ s.ended, ∀ u ∈ p.log, u.isDelivered = true → u.id ≠ msg.id) ∧
      ∀ p, s.pass = some p → ∀ u ∈ p.log, u.isDelivered = true → u.id ≠ msg.id := by
  obtain ⟨hs, hmarks⟩ := marksStand_of_path h
  obtain ⟨q, row, rest, hq, hat, hrow, hid⟩ := hs.sending hmsg
  constructor
  · intro p hp u hu hmark hsame
    have hmem := (hat.due row hrow).1
    exact hs.marks p hp (hmarks p hp u hu hmark) u hu hmark row hmem (hid.trans hsame.symm)
      (hs.undelivered hmsg row hmem hid)
  · intro p hp u hu hmark hsame
    cases hq.symm.trans hp
    refine hat.unsent ?_
    rw [hid, ← hsame]
    exact List.mem_map_of_mem (hat.logged u hu)

end Marks

/-- A pass delivers a message, and the next one finds the other still due. -/
def secondLater : List Event :=
  [.elapse 10, published 1 10, .begin, .call (.claim [publishedRow 1 10]), .call (.send none),
    .call .done, .call (.commit .done), .elapse 10, published 2 20, .begin,
    .call (.claim [publishedRow 2 20])]

theorem marked_not_resent_secondLater : ∃ s msg p u,
    Path (step completions) (KeepsMarks completions) (.init 0) secondLater s ∧ s.Sending msg ∧
      p ∈ s.ended ∧ u ∈ p.log ∧ u.isDelivered = true ∧ u.id ≠ msg.id := by
  obtain ⟨s, hs, q, hq, msg, hmsg, p, hp, u, hu, hmark⟩ : ∃ s,
      runIf (step completions) (KeepsMarks completions) (.init 0) secondLater = some s ∧
        ∃ q ∈ s.pass, ∃ msg ∈ q.sending, ∃ p ∈ s.ended, ∃ u ∈ p.log, u.isDelivered = true :=
    exists_of_any (by decide +kernel)
  exact ⟨s, msg, p, u, .of_runIf hs, ⟨q, hq, hmsg⟩, hp, hu, hmark,
    (marked_not_resent (.of_runIf hs) ⟨q, hq, hmsg⟩).1 p hp u hu hmark⟩

/-- The mark of the second message fails after the first one was sent and marked. -/
def markFails : List Event :=
  bothClaimed ++ [.call (.send none), .call .done, .call (.send none),
    .call (.failed (.failed "connection reset")), .begin,
    .call (.claim [publishedRow 1 10, publishedRow 2 20]), .call (.send none)]

/-- The first message is sent again because of the second one. -/
theorem mark_lost_resends : ∃ s, run (step completions) (.init 0) markFails = some s ∧
    (∃ p ∈ s.ended, (1, true) ∈ p.sends ∧ .delivered 1 20 ∈ p.log ∧ p.committed = false) ∧
      ∃ p ∈ s.pass, (1, true) ∈ p.sends :=
  exists_of_any (by decide +kernel)

end Selatpay.Outbox
