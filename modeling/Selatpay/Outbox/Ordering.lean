import Selatpay.Outbox.Delivery

/-!
# The order of delivery

A batch is claimed in the order of `next_attempt_at`, which is the order of
publication only for messages that were never retried. A message that waits for its
retry is overtaken by the later ones of its topic. As long as a message is only
retried while it is the last one, and the messages of the topic become visible in the
order of `created_at`, none is sent before an earlier one was sent or given up.
-/

namespace Selatpay.Outbox

/-- `Send` has returned nil for the row. -/
def World.Sent (s : World) (id : UUID) : Prop :=
  (∃ p ∈ s.ended, (id, true) ∈ p.sends) ∨ ∃ p ∈ s.pass, (id, true) ∈ p.sends

/-- The row has used up its attempts, the last one perhaps in the pass under way. -/
def World.Exhausted (d : Dispatcher) (s : World) (q : Row) : Prop :=
  d.maxAttempts ≤ q.attempts ∨
    d.maxAttempts ≤ q.attempts + 1 ∧ ∃ p ∈ s.pass, (q.id, false) ∈ p.sends

/-- No message is about to be sent before an earlier one of the topic was sent or given up. -/
def SendsInOrder (d : Dispatcher) (s : World) : Prop :=
  ∀ p ∈ s.pass, ∀ msg ∈ p.sending, ∀ q ∈ s.rows, q.topic = d.topic →
    q.createdAt < msg.createdAt → s.Sent q.id ∨ s.Exhausted d q

/-- The row waits for a retry. -/
def Row.Waiting (d : Dispatcher) (q : Row) : Prop :=
  q.topic = d.topic ∧ q.deliveredAt = none ∧ 0 < q.attempts ∧ q.attempts < d.maxAttempts

/-- The row has failed in the pass under way and will wait for a retry. -/
def Pass.WillWait (d : Dispatcher) (p : Pass) (q : Row) : Prop :=
  q ∈ p.batch ∧ (q.id, false) ∈ p.sends ∧ q.attempts + 1 < d.maxAttempts

/-- No undelivered row of the topic was created after the row. -/
def World.Last (d : Dispatcher) (s : World) (q : Row) : Prop :=
  ∀ r ∈ s.rows, r.topic = d.topic → r.deliveredAt = none → r.createdAt ≤ q.createdAt

/-- A send fails before the last attempt only for the last message of the topic; and a message is
published on the topic after all others and while none waits for a retry. -/
def RetriesLast (d : Dispatcher) (s : World) : Event → Prop
  | .publish topic _ _ _ _ createdAt => topic = d.topic →
      (∀ q ∈ s.rows, q.topic = d.topic → q.createdAt ≤ createdAt ∧ ¬ q.Waiting d) ∧
        ∀ p ∈ s.pass, ∀ q ∈ p.batch, ¬ p.WillWait d q
  | .call (.send (some _)) => ∀ p ∈ s.pass, ∀ msg ∈ p.sending, ∀ q ∈ p.batch, q.id = msg.id →
      q.attempts + 1 < d.maxAttempts → s.Last d q
  | _ => True

instance (s : World) (id : UUID) : Decidable (s.Sent id) := inferInstanceAs (Decidable (_ ∨ _))

instance (d : Dispatcher) (s : World) (q : Row) : Decidable (s.Exhausted d q) :=
  inferInstanceAs (Decidable (_ ∨ _))

instance (d : Dispatcher) (q : Row) : Decidable (q.Waiting d) := inferInstanceAs (Decidable (_ ∧ _))

instance (d : Dispatcher) (p : Pass) (q : Row) : Decidable (p.WillWait d q) :=
  inferInstanceAs (Decidable (_ ∧ _))

instance (d : Dispatcher) (s : World) (q : Row) : Decidable (s.Last d q) :=
  inferInstanceAs (Decidable (∀ r ∈ s.rows, _))

instance (d : Dispatcher) (s : World) (e : Event) : Decidable (RetriesLast d s e) := by
  unfold RetriesLast
  split <;> infer_instance

/-- The claimed rows that are still to be sent. -/
def Pass.pending (p : Pass) : List Row := p.batch.drop p.sends.length

/-- What keeps the sends in order. -/
structure Ordered (d : Dispatcher) (epoch : Int) (s : World) : Prop where
  inv : Inv d epoch s
  fresh : ∀ r ∈ s.rows, r.attempts = 0 → r.nextAttemptAt = r.createdAt
  later : ∀ r ∈ s.rows, r.createdAt ≤ r.nextAttemptAt
  waiting : ∀ q ∈ s.rows, q.Waiting d → s.Last d q
  willWait : ∀ p, s.pass = some p → ∀ q, p.WillWait d q → s.Last d q
  turns : ∀ p, s.pass = some p → ∀ l₁ r l₂, p.pending = l₁ ++ r :: l₂ → ∀ q ∈ s.rows,
    q.topic = d.topic → q.createdAt < r.createdAt → q ∈ l₁ ∨ s.Sent q.id ∨ s.Exhausted d q

section Claims

variable {d : Dispatcher} {epoch : Int} {s : World}

/-- The rows a stage has still to send. -/
theorem Pass.At.pending_eq {p : Pass} {st : Stage} (hp : p.At d epoch s st) :
    p.pending = st.remaining := by
  obtain ⟨done, hbatch, hsends⟩ := hp.split
  have hlength : p.sends.length = done.length := by
    simpa using congrArg List.length hsends
  rw [Pass.pending, hbatch, hlength, List.drop_left]

theorem Ordered.attempts_nonneg (hs : Ordered d epoch s) {r : Row} (hr : r ∈ s.rows) :
    0 ≤ r.attempts := by
  rw [hs.inv.attempts r hr]
  exact Int.natCast_nonneg _

/-- In a claimed batch an earlier message of the topic comes first, unless it was sent or given
up. -/
theorem Ordered.claims (hs : Ordered d epoch s) {start : Int} {batch l₁ l₂ : List Row} {r q : Row}
    (hclaims : Claims s.rows d.topic start d.batchSize batch) (hsplit : batch = l₁ ++ r :: l₂)
    (hq : q ∈ s.rows) (htopic : q.topic = d.topic) (hlt : q.createdAt < r.createdAt) :
    q ∈ l₁ ∨ s.Sent q.id ∨ s.Exhausted d q := by
  have hr : r ∈ batch := mem_of_split hsplit
  obtain ⟨hrmem, hrtopic, hrnone, hrdue⟩ := hclaims.due r hr
  by_cases hdelivered : q.deliveredAt = none
  case neg =>
    obtain ⟨p, hp, -, hsent⟩ := hs.inv.delivered q hq hdelivered
    exact .inr (.inl (.inl ⟨p, hp, hsent⟩))
  by_cases hmax : d.maxAttempts ≤ q.attempts
  · exact .inr (.inr (.inl hmax))
  have hzero : q.attempts = 0 := by
    have hnonneg := hs.attempts_nonneg hq
    by_contra hne
    have hlast := hs.waiting q hq ⟨htopic, hdelivered, by omega, by omega⟩ r hrmem hrtopic hrnone
    omega
  have hnext : q.nextAttemptAt < r.nextAttemptAt := by
    have hqnext := hs.fresh q hq hzero
    have hrnext := hs.later r hrmem
    omega
  have hbatch : q ∈ batch := by
    rcases hclaims.full q hq ⟨htopic, hdelivered, by omega⟩ with hbatch | ⟨-, hfull⟩
    · exact hbatch
    · have hle := hfull r hr
      omega
  rw [hsplit] at hbatch
  have hsorted := hclaims.sorted
  rw [hsplit, List.pairwise_append, List.pairwise_cons] at hsorted
  rcases List.mem_append.mp hbatch with hbefore | hbatch
  · exact .inl hbefore
  · rcases List.mem_cons.mp hbatch with rfl | hafter
    · omega
    · have hle := hsorted.2.1.1 q hafter
      omega

end Claims

/-! ## One event -/

section Steps

variable {d : Dispatcher} {epoch : Int} {s t : World} {e : Event}

theorem Ordered.init (d : Dispatcher) (epoch : Int) : Ordered d epoch (.init epoch) := by
  refine ⟨.init d epoch, ?_, ?_, ?_, ?_, ?_⟩ <;> simp [World.init]

/-- What was sent and what was given up stays so while the pass goes on. -/
theorem settled_mono {p p' : Pass} {q : Row} (hp : s.pass = some p) (hp' : t.pass = some p')
    (hended : t.ended = s.ended) (hsends : ∀ x ∈ p.sends, x ∈ p'.sends)
    (h : s.Sent q.id ∨ s.Exhausted d q) : t.Sent q.id ∨ t.Exhausted d q := by
  rcases h with (⟨r, hr, hsent⟩ | ⟨r, hr, hsent⟩) | hmax | ⟨hmax, r, hr, hfailed⟩
  · exact .inl (.inl ⟨r, hended ▸ hr, hsent⟩)
  · cases hp.symm.trans hr
    exact .inl (.inr ⟨p', hp', hsends _ hsent⟩)
  · exact .inr (.inl hmax)
  · cases hp.symm.trans hr
    exact .inr (.inr ⟨hmax, p', hp', hsends _ hfailed⟩)

/-- A row that a pass about to send a message has claimed under its identifier. -/
theorem Pass.At.eq_of_id {p : Pass} {row q : Row} {msg : Message} {rest : List Row}
    (hs : Inv d epoch s) (hp : p.At d epoch s (.sending row msg rest)) (hq : q ∈ s.rows)
    (hid : q.id = row.id) : q = row := by
  obtain ⟨done, hbatch, -⟩ := hp.split
  exact Table.eq_of_mem hs.nodup hq (hp.due row (mem_of_split hbatch)).1 hid

/-- A pass goes on by a call that is not a send. -/
theorem Ordered.quiet (hs : Ordered d epoch s) {p p' : Pass} (hp : s.pass = some p)
    (hinv : Inv d epoch { s with pass := some p' }) (hbatch : p'.batch = p.batch)
    (hsends : p'.sends = p.sends) : Ordered d epoch { s with pass := some p' } := by
  refine ⟨hinv, hs.fresh, hs.later, hs.waiting, fun r hr q hq => ?_, ?_⟩
  · cases hr
    refine hs.willWait p hp q ?_
    unfold Pass.WillWait at hq ⊢
    rwa [← hbatch, ← hsends]
  · intro r hr l₁ x l₂ hpending q hq htopic hlt
    cases hr
    rw [Pass.pending, hbatch, hsends] at hpending
    rcases hs.turns p hp l₁ x l₂ hpending q hq htopic hlt with hmem | hsettled
    · exact .inl hmem
    · exact .inr (settled_mono hp rfl rfl (fun x hx => hsends ▸ hx) hsettled)

/-- A pass goes on by a send. -/
theorem Ordered.send (hs : Ordered d epoch s) {p p' : Pass} {row : Row} {msg : Message}
    {rest : List Row} {ok : Bool} (hp : s.pass = some p)
    (hat : p.At d epoch s (.sending row msg rest)) (hinv : Inv d epoch { s with pass := some p' })
    (hbatch : p'.batch = p.batch) (hsends : p'.sends = p.sends ++ [(msg.id, ok)])
    (hlast : ok = false → row.attempts + 1 < d.maxAttempts → s.Last d row) :
    Ordered d epoch { s with pass := some p' } := by
  have hid : msg.id = row.id := toMessage_id hat.facts
  have hold : p.pending = row :: rest := hat.pending_eq
  have hpending : p'.pending = rest := by
    have hdrop : p'.pending = p.pending.drop 1 := by
      simp [Pass.pending, hbatch, hsends]
    rw [hdrop, hold, List.drop_one, List.tail_cons]
  refine ⟨hinv, hs.fresh, hs.later, hs.waiting, fun r hr q hq => ?_, ?_⟩
  · cases hr
    obtain ⟨hmem, hfailed, hmax⟩ := hq
    rw [hbatch] at hmem
    rw [hsends] at hfailed
    rcases List.mem_append.mp hfailed with hfailed | hfailed
    · exact hs.willWait p hp q ⟨hmem, hfailed, hmax⟩
    · simp only [List.mem_singleton, Prod.mk.injEq] at hfailed
      have hsame : q = row :=
        hat.eq_of_id hs.inv (hat.due q hmem).1 (hfailed.1.trans hid)
      subst hsame
      exact hlast hfailed.2.symm hmax
  · intro r hr l₁ x l₂ hsplit q hq htopic hlt
    cases hr
    rw [hpending] at hsplit
    have hbefore := hs.turns p hp (row :: l₁) x l₂ (by rw [hold, hsplit]; rfl) q hq htopic hlt
    have hmono : ∀ y ∈ p.sends, y ∈ p'.sends := by
      intro y hy
      rw [hsends]
      exact List.mem_append_left _ hy
    have hmem : (row.id, ok) ∈ p'.sends := by
      rw [hsends, hid]
      exact List.mem_append_right _ (List.mem_singleton_self _)
    rcases hbefore with hmem' | hsettled
    · rcases List.mem_cons.mp hmem' with rfl | hmem'
      · cases ok with
        | true => exact .inr (.inl (.inr ⟨p', rfl, hmem⟩))
        | false =>
          by_cases hmax : q.attempts + 1 < d.maxAttempts
          · have hx : x ∈ p.batch := by
              obtain ⟨done, hsplit', -⟩ := hat.split
              rw [hsplit']
              simp [Stage.remaining, hsplit]
            obtain ⟨hxmem, hxtopic, hxnone, -⟩ := hat.due x hx
            have hle := hlast rfl hmax x hxmem hxtopic hxnone
            omega
          · exact .inr (.inr (.inr ⟨by omega, p', rfl, hmem⟩))
      · exact .inl hmem'
    · exact .inr (settled_mono hp rfl rfl hmono hsettled)

/-- A pass has claimed its batch. -/
theorem Ordered.claim (hs : Ordered d epoch s) {p p' : Pass} (hp : s.pass = some p)
    (hat : p.At d epoch s .claiming)
    (hinv : Inv d epoch { s with pass := some p' }) (hsends : p'.sends = p.sends)
    (hclaims : Claims s.rows d.topic p.start d.batchSize p'.batch) :
    Ordered d epoch { s with pass := some p' } := by
  have hempty : p.sends = [] := by
    obtain ⟨done, hbatch, hids⟩ := hat.split
    have hbatch' : p.batch = [] := hat.facts
    have hdone : done = [] := (List.append_eq_nil_iff.mp (hbatch.symm.trans hbatch')).1
    simpa [hdone] using hids
  refine ⟨hinv, hs.fresh, hs.later, hs.waiting, fun r hr q hq => ?_, ?_⟩
  · cases hr
    have hfailed := hq.2.1
    rw [hsends, hempty] at hfailed
    cases hfailed
  · intro r hr l₁ x l₂ hsplit q hq htopic hlt
    cases hr
    rw [Pass.pending, hsends, hempty] at hsplit
    rcases hs.claims hclaims hsplit hq htopic hlt with hmem | hsettled
    · exact .inl hmem
    · refine .inr (settled_mono hp rfl rfl (fun y hy => ?_) hsettled)
      rwa [hsends]

/-- A message is published after all others of its topic, while none waits. -/
theorem Ordered.publish (hs : Ordered d epoch s) {row : Row}
    (hinv : Inv d epoch { s with rows := s.rows ++ [row] })
    (hnext : row.nextAttemptAt = row.createdAt) (hattempts : row.attempts = 0)
    (hok : row.topic = d.topic →
      (∀ q ∈ s.rows, q.topic = d.topic → q.createdAt ≤ row.createdAt ∧ ¬ q.Waiting d) ∧
        ∀ p ∈ s.pass, ∀ q ∈ p.batch, ¬ p.WillWait d q) :
    Ordered d epoch { s with rows := s.rows ++ [row] } := by
  have hall : ∀ {P : Row → Prop}, (∀ r ∈ s.rows, P r) → P row → ∀ r ∈ s.rows ++ [row], P r := by
    intro P hrows hrow
    exact List.forall_mem_append.mpr ⟨hrows, by simpa using hrow⟩
  refine ⟨hinv, hall hs.fresh fun _ => hnext, hall hs.later hnext.ge, ?_, fun p hp q hq => ?_, ?_⟩
  · refine hall (fun q hq hwaiting => hall (hs.waiting q hq hwaiting) fun htopic _ => ?_) ?_
    · exact absurd hwaiting ((hok htopic).1 q hq hwaiting.1).2
    · rintro ⟨-, -, hpos, -⟩
      omega
  · refine hall (hs.willWait p hp q hq) fun htopic _ => ?_
    exact absurd hq ((hok htopic).2 p hp q hq.1)
  · intro p hp l₁ x l₂ hsplit
    obtain ⟨st, hat⟩ := hs.inv.pass p hp
    refine hall (hs.turns p hp l₁ x l₂ hsplit) fun htopic hlt => ?_
    have hx : x ∈ p.batch := by
      refine List.mem_of_mem_drop (i := p.sends.length) ?_
      rw [show p.batch.drop p.sends.length = _ from hsplit]
      simp
    obtain ⟨hxmem, hxtopic, -⟩ := hat.due x hx
    have hle := ((hok htopic).1 x hxmem hxtopic).1
    omega

/-- The rows a pass has resolved are in order. -/
theorem Ordered.commit (hs : Ordered d epoch s) {p p' : Pass} (hp : s.pass = some p)
    (hat : p.At d epoch s .committing) (hlog : p'.log = p.log) (hcommitted : p'.committed = true)
    (hinv : Inv d epoch (s.finish p')) : Ordered d epoch (s.finish p') := by
  have hresolved := hs.inv.resolved_commit hat hlog hcommitted
  have hlast : ∀ q, s.Last d q → (s.finish p').Last d q := by
    intro q hq r' hr' htopic hnone
    obtain ⟨r, hr, hres⟩ := hresolved r' hr'
    cases hres with
    | kept _ => exact hq _ hr htopic hnone
    | delivered now _ _ => cases hnone
    | retried nextAttemptAt lastError _ _ _ => exact hq r hr htopic hnone
  refine ⟨hinv, fun r' hr' hzero => ?_, fun r' hr' => ?_, fun q' hq' hwaiting => ?_,
    fun r hr => (by cases hr), fun r hr => (by cases hr)⟩
  · obtain ⟨r, hr, hres⟩ := hresolved r' hr'
    cases hres with
    | kept _ => exact hs.fresh _ hr hzero
    | delivered now _ _ => exact hs.fresh r hr hzero
    | retried nextAttemptAt lastError _ _ _ =>
      have hnonneg := hs.attempts_nonneg hr
      simp only at hzero
      omega
  · obtain ⟨r, hr, hres⟩ := hresolved r' hr'
    cases hres with
    | kept _ => exact hs.later _ hr
    | delivered now _ _ => exact hs.later r hr
    | retried nextAttemptAt lastError _ _ hretried =>
      have hdue := (hat.due r hretried.1).2.2.2
      have hlater := hs.later r hr
      have hstart := hretried.2.1
      simp only
      omega
  · obtain ⟨q, hq, hres⟩ := hresolved q' hq'
    obtain ⟨htopic, hnone, hpos, hmax⟩ := hwaiting
    cases hres with
    | kept _ => exact hlast _ (hs.waiting _ hq ⟨htopic, hnone, hpos, hmax⟩)
    | delivered now _ _ => cases hnone
    | retried nextAttemptAt lastError hfailed _ hretried =>
      exact hlast q (hs.willWait p hp q ⟨hretried.1, hfailed, hmax⟩)

theorem Ordered.abandon (hs : Ordered d epoch s) {p' : Pass} (hcommitted : p'.committed = false)
    (hinv : Inv d epoch (s.finish p')) : Ordered d epoch (s.finish p') := by
  have hrows : (s.finish p').rows = s.rows := by simp [World.finish, hcommitted]
  refine ⟨hinv, by rw [hrows]; exact hs.fresh, by rw [hrows]; exact hs.later, ?_,
    fun r hr => (by cases hr), fun r hr => (by cases hr)⟩
  unfold World.Last
  rw [hrows]
  exact hs.waiting

theorem Ordered.move (hs : Ordered d epoch s) {input : Input} {p p' : Pass} {st st' : Stage}
    (hp : s.pass = some p) (hat : p.At d epoch s st)
    (hmoves : Moves d s.now s.rows p st input st' p') (hok : RetriesLast d s (.call input))
    (hinv : Inv d epoch { s with pass := some p' }) :
    Ordered d epoch { s with pass := some p' } := by
  cases hmoves with
  | claim hclaims _ _ => exact hs.claim hp hat hinv rfl hclaims
  | sent => exact hs.send hp hat hinv rfl rfl fun h => (by cases h)
  | exhausted hmax => exact hs.send hp hat hinv rfl rfl fun _ hlt => (by omega)
  | @unsent row msg rest err hmax =>
    refine hs.send hp hat hinv rfl rfl fun _ _ => ?_
    have hsending : msg ∈ p.sending := by
      unfold Pass.sending
      rw [hat.prog]
      rfl
    obtain ⟨done, hbatch, -⟩ := hat.split
    exact hok p hp msg hsending row (mem_of_split hbatch) (toMessage_id hat.facts).symm hmax
  | drawn _ => exact hs.quiet hp hinv rfl rfl
  | timed => exact hs.quiet hp hinv rfl rfl
  | marked _ => exact hs.quiet hp hinv rfl rfl
  | scheduled _ => exact hs.quiet hp hinv rfl rfl

theorem ordered_step (hs : Ordered d epoch s) (hok : RetriesLast d s e)
    (h : step d s e = some t) : Ordered d epoch t := by
  have hinv : Inv d epoch t := inv_step hs.inv h
  cases hs.inv.change h with
  | elapse n => exact ⟨hinv, hs.fresh, hs.later, hs.waiting, hs.willWait, hs.turns⟩
  | publish hrow _ _ =>
    obtain ⟨-, htopic, hcreated, hnext, -, hattempts, -⟩ := publish_ok hrow
    refine hs.publish hinv (hnext.trans hcreated.symm) hattempts fun heq => ?_
    rw [hcreated]
    exact hok (htopic ▸ heq)
  | begin hnone =>
    refine ⟨hinv, hs.fresh, hs.later, hs.waiting, fun p hp q hq => ?_,
      fun p hp l₁ x l₂ hsplit => ?_⟩
    · cases hp
      exact absurd hq.1 (by simp)
    · cases hp
      exact absurd hsplit (by simp [Pass.pending])
  | moves hp hat hmoves => exact hs.move hp hat hmoves hok hinv
  | abandons _ _ _ _ hcommitted => exact hs.abandon hcommitted hinv
  | commits hp hat _ hlog hcommitted => exact hs.commit hp hat hlog hcommitted hinv

/-- As long as a message is only retried while it is the last one of its topic, and the messages of
the topic become visible in order, no message is sent before an earlier one was sent or given up. -/
theorem sent_in_order {es : List Event}
    (h : Path (step d) (RetriesLast d) (.init epoch) es s) : SendsInOrder d s := by
  have hs : Ordered d epoch s := h.invariant (fun _ _ _ => ordered_step) (.init d epoch)
  intro p hp msg hmsg q hq htopic hlt
  obtain ⟨p', row, rest, hp', hat, -, -⟩ := hs.inv.sending ⟨p, hp, hmsg⟩
  cases hp'.symm.trans hp
  have hcreated : msg.createdAt = row.createdAt := by
    have hmessage : toMessage row = .ok msg := hat.facts
    unfold toMessage at hmessage
    split at hmessage <;> cases hmessage
    rfl
  have hturn := hs.turns p hp [] row rest hat.pending_eq q hq htopic (hcreated ▸ hlt)
  exact hturn.resolve_left (by simp)

end Steps

/-- Two messages are claimed, and the first one is delivered. -/
def secondNext : List Event := bothClaimed ++ [.call (.send none), .call .done]

theorem sent_in_order_secondNext : ∃ s,
    Path (step completions) (RetriesLast completions) (.init 0) secondNext s ∧
      (∃ p ∈ s.pass, ∃ msg ∈ p.sending, msg.id = 2) ∧ SendsInOrder completions s := by
  obtain ⟨s, hs, hsending⟩ : ∃ s,
      runIf (step completions) (RetriesLast completions) (.init 0) secondNext = some s ∧
        ∃ p ∈ s.pass, ∃ msg ∈ p.sending, msg.id = 2 := exists_of_any (by decide +kernel)
  exact ⟨s, .of_runIf hs, hsending, sent_in_order (.of_runIf hs)⟩

/-- The first of two messages has to be retried, and the pass goes on with the second one. -/
def overtaken : List Event :=
  bothClaimed ++ [.call (.send (some "downstream 500")), .call (.draw 500000), .call .clock,
    .call .done, .call (.send none)]

/-- The second message is sent, the first one is neither sent nor given up. -/
theorem retry_overtaken : ∃ s, run (step completions) (.init 0) overtaken = some s ∧
    s.Sent 2 ∧ ∃ q ∈ s.rows, ∃ r ∈ s.rows, q.id = 1 ∧ r.id = 2 ∧ q.topic = r.topic ∧
      q.createdAt < r.createdAt ∧ ¬ s.Sent q.id ∧ ¬ s.Exhausted completions q :=
  exists_of_any (by decide +kernel)

end Selatpay.Outbox
