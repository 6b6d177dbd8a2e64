import Selatpay.Core.Sums
import Selatpay.Outbox.Delivery

/-!
# How long a message waits

A due message is behind the messages that are claimed no later than it. No pass adds to
them, whatever fails, and a pass that delivers all it has claimed takes a full batch of
them away unless it delivers the message itself. So the message is delivered after as
many such passes as it takes to get through the messages before it. From every state,
whatever has failed until then, there is a run in which nothing fails and in which the
message is delivered.
-/

namespace Selatpay.Outbox

/-- The other row is claimed no later. -/
def Ahead (d : Dispatcher) (r q : Row) : Prop :=
  q.topic = d.topic ∧ q.deliveredAt = none ∧ q.nextAttemptAt ≤ r.nextAttemptAt ∧ q.id ≠ r.id

instance (d : Dispatcher) (r q : Row) : Decidable (Ahead d r q) :=
  inferInstanceAs (Decidable (_ ∧ _))

/-- How many rows are claimed no later than a row. -/
def ahead (d : Dispatcher) (r : Row) (rows : List Row) : Nat := rows.countP fun q => Ahead d r q

/-- The pass has delivered all it has claimed, and not nothing. -/
def Ended.Clean (p : Ended) : Prop :=
  p.committed = true ∧ p.sends ≠ [] ∧ ∀ x ∈ p.sends, x.2 = true

instance (p : Ended) : Decidable p.Clean :=
  decidable_of_iff (p.committed = true ∧ p.sends ≠ [] ∧ p.sends.all Prod.snd = true)
    (by simp only [Ended.Clean, List.all_eq_true])

/-- The number of such passes. -/
def cleanPasses (ps : List Ended) : Nat := ps.countP fun p => p.Clean

theorem cleanPasses_concat (ps : List Ended) (p : Ended) :
    cleanPasses (ps ++ [p]) = cleanPasses ps + if p.Clean then 1 else 0 := by
  simp [cleanPasses, List.countP_append, List.countP_singleton]

/-- The message itself does not fail, and nothing is published as of a time before it. -/
def Patient (d : Dispatcher) (r : Row) (s : World) : Event → Prop
  | .publish topic _ _ _ _ createdAt => topic = d.topic → r.nextAttemptAt < createdAt
  | .call (.send (some _)) => ∀ p ∈ s.pass, ∀ msg ∈ p.sending, msg.id ≠ r.id
  | _ => True

instance (d : Dispatcher) (r : Row) (s : World) : (e : Event) → Decidable (Patient d r s e)
  | .publish topic _ _ _ _ createdAt =>
    inferInstanceAs (Decidable (topic = d.topic → r.nextAttemptAt < createdAt))
  | .call (.send (some _)) =>
    inferInstanceAs (Decidable (∀ p ∈ s.pass, ∀ msg ∈ p.sending, msg.id ≠ r.id))
  | .call (.send none) => .isTrue trivial
  | .call (.claim _) => .isTrue trivial
  | .call (.failed _) => .isTrue trivial
  | .call .done => .isTrue trivial
  | .call (.draw _) => .isTrue trivial
  | .call .clock => .isTrue trivial
  | .call (.commit _) => .isTrue trivial
  | .elapse _ => .isTrue trivial
  | .begin => .isTrue trivial
  | .crash => .isTrue trivial

/-- The row is delivered. -/
def IsDelivered (s : World) (id : UUID) : Prop := ∃ r ∈ s.rows, r.id = id ∧ r.deliveredAt ≠ none

/-- The row still waits, and no longer than its place allows. -/
structure Waits (d : Dispatcher) (r : Row) (s₀ s : World) : Prop where
  mem : r ∈ s.rows
  due : r.Due d.topic s.now
  start : ∀ p ∈ s.pass, r.nextAttemptAt ≤ p.start
  unfailed : ∀ p ∈ s.pass, (r.id, false) ∉ p.sends
  /-- A pass that has claimed another batch has claimed a full one. -/
  claimed : ∀ p ∈ s.pass, p.batch ≠ [] → r ∈ p.batch ∨
    (p.batch.length : Int) = d.batchSize ∧ ∀ q ∈ p.batch, q.nextAttemptAt ≤ r.nextAttemptAt
  count : ∃ new, s.ended = s₀.ended ++ new ∧
    d.batchSize * cleanPasses new + ahead d r s.rows ≤ ahead d r s₀.rows

section Commit

variable {d : Dispatcher} {epoch : Int} {s : World} {p : Pass} {r : Row}

/-- A pass about to commit has sent all it has claimed. -/
theorem Pass.At.sends_eq (hp : p.At d epoch s .committing) :
    p.sends.map Prod.fst = p.batch.map Row.id := by
  obtain ⟨done, hbatch, hsends⟩ := hp.split
  rw [hsends, hbatch]
  simp [Stage.remaining, Stage.rest]

/-- A row that is ahead after a commit was ahead before it, and is not delivered. -/
theorem Resolved.ahead {q q' : Row} (h : Resolved d p q q') (hp : p.At d epoch s .committing)
    (hq : Ahead d r q') : Ahead d r q := by
  obtain ⟨htopic, hnone, hle, hne⟩ := hq
  cases h with
  | kept _ => exact ⟨htopic, hnone, hle, hne⟩
  | delivered now _ _ => cases hnone
  | retried nextAttemptAt lastError _ _ hretried =>
    -- It was due when the pass began, and its next attempt is set for then or later.
    have hdue := (hp.due q hretried.1).2.2.2
    exact ⟨htopic, hnone, hdue.trans (hretried.2.1.trans hle), hne⟩

/-- No pass adds to the rows before a row, and one that delivers all it has claimed takes those
away. -/
theorem ahead_commit (hs : Inv d epoch s) (hp : p.At d epoch s .committing) {b : List Row}
    (hb : b = [] ∨ b = p.batch ∧ (∀ x ∈ p.sends, x.2 = true) ∧ ∀ q ∈ b, Ahead d r q) :
    ahead d r (s.rows.map (applyLog p.log)) + b.length ≤ ahead d r s.rows := by
  have hsub : ∀ q ∈ b, q ∈ p.batch ∧ (∀ x ∈ p.sends, x.2 = true) ∧ Ahead d r q := by
    intro q hq
    rcases hb with rfl | ⟨rfl, hclean, hahead⟩
    · cases hq
    · exact ⟨hq, hclean, hahead q hq⟩
  rw [ahead, List.countP_map]
  refine countP_add_length_le hs.nodup.of_map ?_ (fun q hq => (hp.due q (hsub q hq).1).1)
    (fun q hq hahead => ?_) fun q hq => decide_eq_true (hsub q hq).2.2
  · rcases hb with rfl | ⟨rfl, -⟩
    · exact List.nodup_nil
    · exact hp.nodup.of_map
  · have hres := hp.resolved hs.nodup hq
    have hahead' : Ahead d r (applyLog p.log q) := of_decide_eq_true hahead
    refine ⟨decide_eq_true (hres.ahead hp hahead'), fun hmem => ?_⟩
    obtain ⟨hbatch, hclean, -⟩ := hsub q hmem
    have hsent : q.id ∈ p.sends.map Prod.fst := hp.sends_eq ▸ List.mem_map_of_mem hbatch
    obtain ⟨⟨id, ok⟩, hx, rfl⟩ := List.mem_map.mp hsent
    obtain rfl : ok = true := hclean _ hx
    exact hres.delivered_of_sent hx hahead'.2.1

/-- A row that was not claimed is not changed. -/
theorem applyLog_of_notMem (hs : Inv d epoch s) (hp : p.At d epoch s .committing)
    (hr : r ∈ s.rows) (hnot : r ∉ p.batch) : applyLog p.log r = r := by
  have hids : ∀ ok, (r.id, ok) ∉ p.sends := by
    intro ok hmem
    have hid : r.id ∈ p.batch.map Row.id := hp.sends_eq ▸ List.mem_map_of_mem hmem
    obtain ⟨q, hq, hqid⟩ := List.mem_map.mp hid
    exact hnot (Table.eq_of_mem hs.nodup (hp.due q hq).1 hr hqid ▸ hq)
  have hres := hp.resolved hs.nodup hr
  generalize applyLog p.log r = r' at hres ⊢
  cases hres with
  | kept _ => rfl
  | delivered now hmem _ => exact absurd hmem (hids true)
  | retried nextAttemptAt lastError hmem _ _ => exact absurd hmem (hids false)

end Commit

/-! ## While a row waits -/

section Wait

variable {d : Dispatcher} {epoch : Int} {r : Row} {s₀ s t : World} {e : Event}

/-- A pass that is over comes after the ones before it. -/
theorem World.finish_ended {new : List Ended} (p : Pass) (h : s.ended = s₀.ended ++ new) :
    (s.finish p).ended = s₀.ended ++ (new ++ [⟨p.sends, p.log, p.committed⟩]) := by
  simp [World.finish, h]

/-- Between passes only its place matters. -/
theorem Waits.idle (hr : r ∈ s.rows) (hdue : r.Due d.topic s.now) (hidle : s.pass = none)
    {new : List Ended} (hended : s.ended = s₀.ended ++ new)
    (hcount : d.batchSize * cleanPasses new + ahead d r s.rows ≤ ahead d r s₀.rows) :
    Waits d r s₀ s where
  mem := hr
  due := hdue
  start := by simp [hidle]
  unfailed := by simp [hidle]
  claimed := by simp [hidle]
  count := ⟨new, hended, hcount⟩

theorem Waits.init (hr : r ∈ s.rows) (hdue : r.Due d.topic s.now) (hidle : s.pass = none) :
    Waits d r s s :=
  .idle hr hdue hidle (List.append_nil _).symm (by simp [cleanPasses])

/-- While the row waits, the passes that deliver all they have claimed take up no more than the
rows before it. -/
theorem Waits.bound (hw : Waits d r s₀ s) {new : List Ended} (hended : s.ended = s₀.ended ++ new) :
    d.batchSize * cleanPasses new ≤ ahead d r s₀.rows := by
  obtain ⟨new', hended', hcount⟩ := hw.count
  obtain rfl : new = new' := List.append_cancel_left (hended.symm.trans hended')
  omega

/-- A later row is not ahead. -/
theorem ahead_publish {topic payload : String} {aggregateID : Option UUID}
    {headers : List (String × String)} {id : UUID} {createdAt : Int} {row : Row}
    (hrow : publish topic aggregateID payload headers id createdAt = .ok row)
    (hlater : topic = d.topic → r.nextAttemptAt < createdAt) (rows : List Row) :
    ahead d r (rows ++ [row]) = ahead d r rows := by
  obtain ⟨-, htopic, -, hnext, -⟩ := publish_ok hrow
  have hnot : ¬ Ahead d r row := by
    rintro ⟨htopic', -, hle, -⟩
    have hlt := hlater (htopic.symm.trans htopic')
    omega
  simp [ahead, hnot]

/-- An answered call keeps the row waiting. -/
theorem Waits.moves (hw : Waits d r s₀ s) {p p' : Pass} {st st' : Stage} {input : Input}
    (hp : s.pass = some p) (hat : p.At d epoch s st)
    (hmoves : Moves d s.now s.rows p st input st' p') (hok : Patient d r s (.call input)) :
    Waits d r s₀ { s with pass := some p' } := by
  have hfails : ∀ row msg rest err, st = .sending row msg rest → input = .send (some err) →
      msg.id ≠ r.id := by
    rintro row msg rest err rfl rfl
    exact hok p hp msg (by rw [Pass.sending, hat.prog]; rfl)
  have hstart := hw.start p hp
  have hunfailed := hw.unfailed p hp
  have hclaimed := hw.claimed p hp
  refine ⟨hw.mem, hw.due, ?_, ?_, ?_, hw.count⟩
  · rintro _ ⟨⟩
    cases hmoves <;> exact hstart
  · rintro _ ⟨⟩
    cases hmoves with
    | claim | drawn | timed | marked | scheduled => exact hunfailed
    | sent => simpa using hunfailed
    | exhausted => simpa using ⟨hunfailed, (hfails _ _ _ _ rfl rfl).symm⟩
    | unsent => simpa using ⟨hunfailed, (hfails _ _ _ _ rfl rfl).symm⟩
  · rintro _ ⟨⟩
    cases hmoves with
    | claim hclaims _ _ =>
      intro _
      exact hclaims.full r hw.mem ⟨hw.due.1, hw.due.2.1, hstart⟩
    | sent | exhausted | unsent | drawn | timed | marked | scheduled => exact hclaimed

/-- A row that was claimed was sent, and as that did not fail, the commit delivers it. -/
theorem Waits.delivered (hs : Inv d epoch s) (hw : Waits d r s₀ s) {p : Pass}
    (hp : s.pass = some p) (hat : p.At d epoch s .committing) (hbatch : r ∈ p.batch) :
    (applyLog p.log r).id = r.id ∧ (applyLog p.log r).deliveredAt ≠ none := by
  have hsent : r.id ∈ p.sends.map Prod.fst := hat.sends_eq ▸ List.mem_map_of_mem hbatch
  obtain ⟨⟨id, ok⟩, hx, rfl⟩ := List.mem_map.mp hsent
  cases ok with
  | false => exact absurd hx (hw.unfailed p hp)
  | true =>
    have hres := hat.resolved hs.nodup hw.mem
    exact ⟨hres.id_eq, hres.delivered_of_sent hx⟩

/-- A batch without the row is a full one, of rows that are ahead of it. -/
theorem Waits.batch_ahead (hs : Inv d epoch s) (hw : Waits d r s₀ s) {p : Pass} {st : Stage}
    (hp : s.pass = some p) (hat : p.At d epoch s st) (hbatch : r ∉ p.batch) (hne : p.batch ≠ []) :
    (p.batch.length : Int) = d.batchSize ∧ ∀ q ∈ p.batch, Ahead d r q := by
  obtain ⟨hfull, hbefore⟩ := (hw.claimed p hp hne).resolve_left hbatch
  refine ⟨hfull, fun q hq => ?_⟩
  obtain ⟨hmem, htopic, hnone, -⟩ := hat.due q hq
  refine ⟨htopic, hnone, hbefore q hq, fun hid => hbatch ?_⟩
  exact Table.eq_of_mem hs.nodup hmem hw.mem hid ▸ hq

/-- A commit delivers the row, or takes a full batch from before it if it is clean. -/
theorem Waits.commit (hs : Inv d epoch s) (hw : Waits d r s₀ s) {p p' : Pass}
    (hp : s.pass = some p) (hat : p.At d epoch s .committing) (hsends : p'.sends = p.sends)
    (hlog : p'.log = p.log) (hcommitted : p'.committed = true) :
    Waits d r s₀ (s.finish p') ∨ IsDelivered (s.finish p') r.id := by
  have hrows : (s.finish p').rows = s.rows.map (applyLog p.log) := by
    simp [World.finish, hcommitted, hlog]
  by_cases hbatch : r ∈ p.batch
  · right
    obtain ⟨hid, hdelivered⟩ := hw.delivered hs hp hat hbatch
    refine ⟨applyLog p.log r, ?_, hid, hdelivered⟩
    rw [hrows]
    exact List.mem_map_of_mem hw.mem
  · left
    obtain ⟨new, hended, hcount⟩ := hw.count
    refine .idle ?_ hw.due rfl (World.finish_ended p' hended) ?_
    · rw [hrows]
      exact List.mem_map.mpr ⟨r, hw.mem, applyLog_of_notMem hs hat hw.mem hbatch⟩
    · rw [hrows, hsends, hlog, hcommitted, cleanPasses_concat]
      by_cases hclean : (⟨p.sends, p.log, true⟩ : Ended).Clean
      · have hne : p.batch ≠ [] := by
          intro hnil
          have hids := hat.sends_eq
          rw [hnil] at hids
          exact hclean.2.1 (List.map_eq_nil_iff.mp hids)
        obtain ⟨hfull, hahead⟩ := hw.batch_ahead hs hp hat hbatch hne
        have hle := ahead_commit hs hat (.inr ⟨rfl, hclean.2.2, hahead⟩)
        rw [if_pos hclean]
        push_cast
        rw [mul_add]
        omega
      · have hle := ahead_commit (r := r) hs hat (.inl rfl)
        rw [List.length_nil, add_zero] at hle
        rw [if_neg hclean, add_zero]
        omega

/-- Every event keeps the row waiting, or delivers it. -/
theorem Waits.step (hs : Inv d epoch s) (hw : Waits d r s₀ s) (hok : Patient d r s e)
    (h : step d s e = some t) : Waits d r s₀ t ∨ IsDelivered t r.id := by
  cases hs.change h with
  | elapse n =>
    have hle : r.nextAttemptAt ≤ s.now + n := hw.due.2.2.trans (by omega)
    exact .inl ⟨hw.mem, ⟨hw.due.1, hw.due.2.1, hle⟩, hw.start, hw.unfailed, hw.claimed, hw.count⟩
  | publish hrow htime hid =>
    refine .inl ⟨List.mem_append_left _ hw.mem, hw.due, hw.start, hw.unfailed, hw.claimed, ?_⟩
    rw [ahead_publish hrow hok]
    exact hw.count
  | begin hidle =>
    refine .inl ⟨hw.mem, hw.due, ?_, ?_, ?_, hw.count⟩
    · rintro _ ⟨⟩
      exact hw.due.2.2
    · rintro _ ⟨⟩
      exact List.not_mem_nil
    · rintro _ ⟨⟩ hne
      exact absurd rfl hne
  | moves hp hat hmoves => exact .inl (hw.moves hp hat hmoves hok)
  | @abandons _ p p' _ hp hsends hlog hcommitted =>
    obtain ⟨new, hended, hcount⟩ := hw.count
    refine .inl (.idle ?_ hw.due rfl (World.finish_ended p' hended) ?_)
    · simpa [World.finish, hcommitted] using hw.mem
    · have hunclean : ¬ (⟨p'.sends, p'.log, false⟩ : Ended).Clean := by
        rintro ⟨⟨⟩, -⟩
      simpa [cleanPasses_concat, hunclean, World.finish, hcommitted] using hcount
  | commits hp hat hsends hlog hcommitted => exact hw.commit hs hp hat hsends hlog hcommitted

/-- A delivered row stays delivered. -/
theorem IsDelivered.step {id : UUID} (hs : Inv d epoch s) (hd : IsDelivered s id)
    (h : Outbox.step d s e = some t) : IsDelivered t id := by
  obtain ⟨q, hq, hid, hdelivered⟩ := hd
  cases hs.change h with
  | elapse n => exact ⟨q, hq, hid, hdelivered⟩
  | begin _ => exact ⟨q, hq, hid, hdelivered⟩
  | moves _ _ _ => exact ⟨q, hq, hid, hdelivered⟩
  | publish _ _ _ => exact ⟨q, List.mem_append_left _ hq, hid, hdelivered⟩
  | abandons _ _ _ _ hcommitted =>
    refine ⟨q, ?_, hid, hdelivered⟩
    simpa [World.finish, hcommitted] using hq
  | @commits input p p' hp hat hsends hlog hcommitted =>
    have hres := hat.resolved hs.nodup hq
    refine ⟨applyLog p.log q, ?_, hres.id_eq.trans hid, hres.delivered_of hdelivered⟩
    simp only [World.finish, hcommitted, if_true, hlog]
    exact List.mem_map_of_mem hq

/-- A row waits through a run until it is delivered. -/
theorem Waits.of_path {es : List Event} (hs : Inv d epoch s) (hw : Waits d r s s)
    (h : Path (Outbox.step d) (Patient d r) s es t) : Waits d r s t ∨ IsDelivered t r.id := by
  have hstep : ∀ u e v, Inv d epoch u ∧ (Waits d r s u ∨ IsDelivered u r.id) → Patient d r u e →
      Outbox.step d u e = some v → Inv d epoch v ∧ (Waits d r s v ∨ IsDelivered v r.id) := by
    rintro u e v ⟨hu, hwaits | hdelivered⟩ hok h
    · exact ⟨inv_step hu h, hwaits.step hu hok h⟩
    · exact ⟨inv_step hu h, .inr (hdelivered.step hu h)⟩
  exact (h.invariant hstep ⟨hs, .inl hw⟩).2

end Wait

/-- From an idle state on, a due message that does not fail itself is delivered once the passes
that deliver all they have claimed have room for the messages before it, however many other
passes fail, crash or lose their commit and whatever is published meanwhile. -/
theorem delivered_within {d : Dispatcher} {epoch : Int} {r : Row} {s t : World}
    {es₀ es : List Event} {new : List Ended}
    (h₀ : Path (step d) anyStep (.init epoch) es₀ s) (hidle : s.pass = none) (hr : r ∈ s.rows)
    (hdue : r.Due d.topic s.now) (h : Path (step d) (Patient d r) s es t)
    (hended : t.ended = s.ended ++ new)
    (hpasses : ahead d r s.rows < d.batchSize * cleanPasses new) : IsDelivered t r.id := by
  refine (Waits.of_path (inv_of_path h₀) (.init hr hdue hidle) h).resolve_left fun hw => ?_
  have hle := hw.bound hended
  omega

/-- A dispatcher that claims one message at a time. -/
def oneByOne : Dispatcher := { completions with batchSize := 1, batchSize_pos := by decide }

/-- Two messages are published. -/
def twoPublished : List Event := [.elapse 10, published 1 10, .elapse 10, published 2 20]

/-- The events of a pass that delivers one row. -/
def deliveryOf (row : Row) : List Event :=
  [.begin, .call (.claim [row]), .call (.send none), .call .done, .call (.commit .done)]

/-- The dispatcher dies once, and then delivers the messages one after the other. -/
def secondWaits : List Event :=
  [.begin, .call (.claim [publishedRow 1 10]), .crash] ++ deliveryOf (publishedRow 1 10) ++
    deliveryOf (publishedRow 2 20)

/-- The outbox with the two messages. -/
def twoWaiting : World := ⟨20, [publishedRow 1 10, publishedRow 2 20], none, []⟩

theorem run_twoPublished : run (step oneByOne) (.init 0) twoPublished = some twoWaiting := rfl

theorem delivered_within_secondWaits : ∃ t,
    Path (step oneByOne) anyStep (.init 0) twoPublished twoWaiting ∧
      Path (step oneByOne) (Patient oneByOne (publishedRow 2 20)) twoWaiting secondWaits t ∧
      ahead oneByOne (publishedRow 2 20) twoWaiting.rows = 1 ∧ cleanPasses t.ended = 2 ∧
      IsDelivered t 2 := by
  obtain ⟨t, ht, hpasses⟩ : ∃ t,
      runIf (step oneByOne) (Patient oneByOne (publishedRow 2 20)) twoWaiting secondWaits =
        some t ∧ cleanPasses t.ended = 2 :=
    exists_of_any (by decide +kernel)
  have hahead : ahead oneByOne (publishedRow 2 20) twoWaiting.rows = 1 := by decide
  refine ⟨t, .of_run run_twoPublished, .of_runIf ht, hahead, hpasses, ?_⟩
  exact delivered_within (.of_run run_twoPublished) rfl (by decide) (by decide) (.of_runIf ht)
    (List.nil_append _).symm (by rw [hahead, hpasses]; decide)

/-! ## Without failures -/

/-- Nothing fails, nothing is published, and the dispatcher does not die. -/
def Smooth (_ : World) : Event → Prop
  | .elapse _ => True
  | .publish _ _ _ _ _ _ => False
  | .begin => True
  | .call (.claim _) => True
  | .call (.failed _) => False
  | .call (.send err) => err = none
  | .call .done => True
  | .call (.draw _) => True
  | .call .clock => True
  | .call (.commit answer) => answer = .done
  | .crash => False

section Smooth

variable {d : Dispatcher} {epoch : Int} {r : Row} {s t : World}

theorem Smooth.patient {e : Event} (h : Smooth s e) : Patient d r s e := by
  cases e with
  | publish => exact h.elim
  | crash => exact h.elim
  | elapse n => trivial
  | begin => trivial
  | call input =>
    cases input with
    | send err =>
      cases h
      trivial
    | _ => trivial

/-- There is always an answer to `ClaimDueOutbox`. -/
theorem exists_claims (rows : List Row) (hrows : (rows.map Row.id).Nodup) (topic : String)
    (now : Int) {limit : Int} (hlimit : 0 ≤ limit) :
    ∃ batch, Claims rows topic now limit batch := by
  let le (q r : Row) : Bool := decide (q.nextAttemptAt ≤ r.nextAttemptAt)
  let due := rows.filter fun r => r.Due topic now
  let queue := due.mergeSort le
  have hperm : queue.Perm due := List.mergeSort_perm due le
  have hmem : ∀ r, r ∈ queue ↔ r ∈ rows ∧ r.Due topic now := by
    intro r
    simp [hperm.mem_iff, due]
  have hsorted : queue.Pairwise fun q r => q.nextAttemptAt ≤ r.nextAttemptAt := by
    have htrans : ∀ a b c, le a b = true → le b c = true → le a c = true := by simp [le]; omega
    have htotal : ∀ a b, (le a b || le b a) = true := by simp [le]; omega
    simpa [le] using List.pairwise_mergeSort htrans htotal due
  have hsplit := List.take_append_drop limit.toNat queue
  refine ⟨queue.take limit.toNat, fun r hr => (hmem r).mp (List.mem_of_mem_take hr), ?_,
    hsorted.sublist (List.take_sublist _ _), ?_, fun q hq hdue => ?_⟩
  · have hnodup : (queue.map Row.id).Nodup :=
      ((hperm.map Row.id).nodup_iff).mpr (hrows.sublist (List.filter_sublist.map _))
    exact hnodup.sublist ((List.take_sublist _ _).map _)
  · have hle := List.length_take_le limit.toNat queue
    omega
  · have hqueue : q ∈ queue := (hmem q).mpr ⟨hq, hdue⟩
    rw [← hsplit] at hqueue hsorted
    refine (List.mem_append.mp hqueue).imp_right fun hdrop => ⟨?_, fun r hr => ?_⟩
    · have hpos := List.length_pos_of_mem hdrop
      simp only [List.length_drop, List.length_take] at hpos ⊢
      omega
    · exact (List.pairwise_append.mp hsorted).2.2 r hr q hdrop

/-- An answer that leaves the pass at a stage leaves it under way. -/
theorem step_call {p p' : Pass} {input : Input} (st : Stage) (hp : s.pass = some p)
    (h : p.answer d s.now s.rows input = some p') (hprog : p'.prog = st.prog d) :
    step d s (.call input) = some { s with pass := some p' } := by
  simp [step, hp, h, st.not_over hprog]

/-- The next row is sent and marked. -/
theorem exists_path_deliver {q : Row} {rest : List Row} {p : Pass} (hp : s.pass = some p)
    (hprog : p.prog = resume d (q :: rest))
    (hrows : ∀ row ∈ q :: rest, ∃ msg, toMessage row = .ok msg) :
    ∃ p', Path (step d) Smooth s [.call (.send none), .call .done]
      { s with pass := some p' } ∧
      p'.prog = resume d rest ∧ p'.sends = p.sends ++ [(q.id, true)] := by
  obtain ⟨msg, hmsg⟩ := hrows q List.mem_cons_self
  obtain ⟨st, -, hst⟩ := exists_resumes d rest fun row hrow =>
    hrows row (List.mem_cons_of_mem _ hrow)
  have hsend : p.answer d s.now s.rows (.send none) = some { p with
      prog := (Stage.marking q rest).prog d
      sends := p.sends ++ [(q.id, true)] } := by
    simp only [Pass.answer, hprog, resume, drainRows, hmsg, send, Prog.query, Prog.bind,
      ← toMessage_id hmsg]
    rw [← resumeAfter_markDelivered]
    rfl
  refine ⟨{ p with
      prog := resume d rest
      sends := p.sends ++ [(q.id, true)]
      log := p.log ++ [.delivered q.id p.start] }, ?_, rfl, rfl⟩
  exact .cons rfl (step_call (.marking q rest) hp hsend rfl)
    (.cons trivial (step_call st rfl rfl hst) (.nil _))

/-- The rest of a pass without failures. -/
theorem exists_path_resume (rest : List Row) (hrest : ∀ q ∈ rest, ∃ msg, toMessage q = .ok msg)
    {p : Pass} (hp : s.pass = some p) (hprog : p.prog = resume d rest) :
    ∃ es t log, Path (step d) Smooth s es t ∧ t.pass = none ∧ t.now = s.now ∧
      t.ended = s.ended ++ [⟨p.sends ++ rest.map fun q => (q.id, true), log, true⟩] := by
  induction rest generalizing s p with
  | nil =>
    have hstep : step d s (.call (.commit .done)) = some (s.finish { p with
        prog := .ret true, committed := true }) := by
      simp only [step, hp, Pass.answer, hprog, resume, drainRows, Prog.bind, commitDrain_eq d,
        Stage.prog]
      rfl
    refine ⟨[.call (.commit .done)], _, p.log, .cons rfl hstep (.nil _), rfl, rfl, ?_⟩
    simp [World.finish]
  | cons q rest ih =>
    obtain ⟨p', hpath, hprog', hsends⟩ := exists_path_deliver hp hprog hrest
    obtain ⟨es, t, log, hpath', hpass, hnow, hended⟩ :=
      ih (fun q hq => hrest q (List.mem_cons_of_mem _ hq)) (s := { s with pass := some p' }) rfl
        hprog'
    refine ⟨_, t, log, hpath.append hpath', hpass, hnow, ?_⟩
    simpa [hsends] using hended

/-- A pass that claims some rows can deliver all of them. -/
theorem exists_path_claim (hs : Inv d epoch s) {p : Pass} (hp : s.pass = some p)
    (hprog : p.prog = Stage.claiming.prog d) {batch : List Row}
    (hclaims : Claims s.rows d.topic p.start d.batchSize batch) (hne : batch ≠ []) :
    ∃ es t log, Path (step d) Smooth s es t ∧ t.pass = none ∧ t.now = s.now ∧
      t.ended = s.ended ++ [⟨p.sends ++ batch.map fun q => (q.id, true), log, true⟩] := by
  have hdecoded : ∀ q ∈ batch, ∃ msg, toMessage q = .ok msg := fun q hq =>
    hs.decoded q (hclaims.due q hq).1
  have hanswer : p.answer d s.now s.rows (.claim batch) = some { p with
      prog := resume d batch
      batch := batch } := by
    simp only [Pass.answer, hprog, Stage.prog, if_pos hclaims, afterStatement,
      if_neg (mt List.length_eq_zero_iff.mp hne)]
  obtain ⟨st, -, hresume⟩ := exists_resumes d batch hdecoded
  obtain ⟨es, t, log, hpath, hend⟩ := exists_path_resume batch hdecoded
    (s := { s with pass := some { p with prog := resume d batch, batch := batch } }) rfl rfl
  refine ⟨.call (.claim batch) :: es, t, log, ?_, hend⟩
  exact .cons trivial (step_call st hp hanswer hresume) hpath

/-- While a row is due, an idle dispatcher can make a pass that delivers all it claims. -/
theorem exists_path_clean (hs : Inv d epoch s) (hidle : s.pass = none) (hr : r ∈ s.rows)
    (hdue : r.Due d.topic s.now) :
    ∃ es t p, Path (step d) Smooth s es t ∧ t.pass = none ∧ t.now = s.now ∧
      t.ended = s.ended ++ [p] ∧ p.Clean := by
  have hlimit := d.batchSize_pos
  obtain ⟨batch, hclaims⟩ := exists_claims s.rows hs.nodup d.topic s.now hlimit.le
  have hne : batch ≠ [] := by
    rintro rfl
    rcases hclaims.full r hr hdue with hnil | ⟨hlength, -⟩
    · cases hnil
    · exact hlimit.ne hlength
  have hbegin : step d s .begin =
      some { s with pass := some ⟨s.now, drainOnce d, [], [], [], false⟩ } := by
    simp [step, hidle]
  obtain ⟨es, t, log, hpath, hpass, hnow, hended⟩ :=
    exists_path_claim (inv_step hs hbegin) rfl (drainOnce_eq d) hclaims hne
  refine ⟨.begin :: es, t, _, .cons trivial hbegin hpath, hpass, hnow, hended, rfl, ?_, ?_⟩
  · simpa using hne
  · simp

/-- An idle dispatcher can make any number of such passes, unless they deliver the row. -/
theorem exists_path_cleanPasses (hs : Inv d epoch s) (hidle : s.pass = none) (hr : r ∈ s.rows)
    (hdue : r.Due d.topic s.now) (n : Nat) :
    ∃ es t, Path (step d) Smooth s es t ∧ t.now = s.now ∧ (IsDelivered t r.id ∨
      t.pass = none ∧ ∃ new, t.ended = s.ended ++ new ∧ cleanPasses new = n) := by
  induction n with
  | zero => exact ⟨[], s, .nil s, rfl, .inr ⟨hidle, [], by simp, rfl⟩⟩
  | succ n ih =>
    obtain ⟨es, t, hpath, hnow, hdelivered | ⟨hpass, new, hended, hnew⟩⟩ := ih
    · exact ⟨es, t, hpath, hnow, .inl hdelivered⟩
    have ht := hpath.invariant (fun u e v hu _ h => inv_step hu h) hs
    rcases Waits.of_path hs (.init hr hdue hidle)
        (hpath.mono fun _ _ h => h.patient) with hw | hdelivered
    · obtain ⟨es', u, p, hpath', hpass', hnow', hended', hclean⟩ :=
        exists_path_clean ht hpass hw.mem hw.due
      refine ⟨es ++ es', u, hpath.append hpath', hnow'.trans hnow, .inr ⟨hpass', new ++ [p], ?_⟩⟩
      constructor
      · rw [hended', hended, List.append_assoc]
      · rw [cleanPasses_concat, if_pos hclean, hnew]
    · exact ⟨es, t, hpath, hnow, .inl hdelivered⟩

/-- From an idle state on, a due row can be delivered at once. -/
theorem exists_path_delivered (hs : Inv d epoch s) (hidle : s.pass = none) (hr : r ∈ s.rows)
    (hdue : r.Due d.topic s.now) :
    ∃ es t, Path (step d) Smooth s es t ∧ t.now = s.now ∧ IsDelivered t r.id := by
  obtain ⟨es, t, hpath, hnow, hend⟩ :=
    exists_path_cleanPasses hs hidle hr hdue (ahead d r s.rows + 1)
  rcases Waits.of_path hs (.init hr hdue hidle)
      (hpath.mono fun _ _ h => h.patient) with hw | hdelivered
  · refine ⟨es, t, hpath, hnow, hend.resolve_right ?_⟩
    rintro ⟨-, new, hended, hnew⟩
    have hle := hw.bound hended
    rw [hnew] at hle
    push_cast at hle
    nlinarith [d.batchSize_pos]
  · exact ⟨es, t, hpath, hnow, hdelivered⟩

/-! ## From the middle of a pass -/

/-- There is always a delay to draw. -/
theorem draws_zero (d : Dispatcher) (attempt : Int) : d.Draws attempt 0 := by
  unfold Dispatcher.Draws
  split
  · rfl
  · omega

/-- The retry of a row is scheduled. -/
theorem exists_path_scheduling {row : Row} {err : String} {nextAttemptAt : Int} {rest : List Row}
    {p : Pass} (hp : s.pass = some p)
    (hprog : p.prog = (Stage.scheduling row err nextAttemptAt rest).prog d)
    (hrest : ∀ q ∈ rest, ∃ msg, toMessage q = .ok msg) :
    ∃ es p', Path (step d) Smooth s es { s with pass := some p' } ∧ p'.prog = resume d rest := by
  obtain ⟨st, -, hresume⟩ := exists_resumes d rest hrest
  have hdone : p.answer d s.now s.rows .done = some { p with
      prog := resume d rest
      log := p.log ++ [.retry row.id nextAttemptAt err] } := by
    simp only [Pass.answer, hprog, Stage.prog, afterStatement]
  exact ⟨[.call .done], _, .cons trivial (step_call st hp hdone hresume) (.nil _), rfl⟩

/-- The clock is read for the retry of a row. -/
theorem exists_path_timing {row : Row} {err : String} {delay : Int} {rest : List Row} {p : Pass}
    (hp : s.pass = some p) (hprog : p.prog = (Stage.timing row err delay rest).prog d)
    (hrest : ∀ q ∈ rest, ∃ msg, toMessage q = .ok msg) :
    ∃ es p', Path (step d) Smooth s es { s with pass := some p' } ∧ p'.prog = resume d rest := by
  let st : Stage := .scheduling row err (addDelay s.now delay) rest
  have hclock : p.answer d s.now s.rows .clock = some { p with prog := st.prog d } := by
    simp only [Pass.answer, hprog, Stage.prog]
    rw [resumeAfter_scheduleRetry]
    rfl
  obtain ⟨es, p', hpath, hprog'⟩ := exists_path_scheduling
    (s := { s with pass := some { p with prog := st.prog d } }) rfl rfl hrest
  exact ⟨.call .clock :: es, p', .cons trivial (step_call st hp hclock rfl) hpath, hprog'⟩

/-- A delay is drawn for the retry of a row. -/
theorem exists_path_backing {row : Row} {err : String} {rest : List Row} {p : Pass}
    (hp : s.pass = some p) (hprog : p.prog = (Stage.backing row err rest).prog d)
    (hrest : ∀ q ∈ rest, ∃ msg, toMessage q = .ok msg) :
    ∃ es p', Path (step d) Smooth s es { s with pass := some p' } ∧ p'.prog = resume d rest := by
  let st : Stage := .timing row err 0 rest
  have hdraw : p.answer d s.now s.rows (.draw 0) = some { p with prog := st.prog d } := by
    simp only [Pass.answer, hprog, Stage.prog, if_pos (draws_zero d _)]
    rfl
  obtain ⟨es, p', hpath, hprog'⟩ := exists_path_timing
    (s := { s with pass := some { p with prog := st.prog d } }) rfl rfl hrest
  exact ⟨.call (.draw 0) :: es, p', .cons trivial (step_call st hp hdraw rfl) hpath, hprog'⟩

/-- A pass that has claimed its rows goes on to the next of them. -/
theorem Pass.At.exists_path_remaining {p : Pass} {st : Stage} (hat : p.At d epoch s st)
    (hp : s.pass = some p) (hrest : ∀ q ∈ st.remaining, ∃ msg, toMessage q = .ok msg)
    (hst : st ≠ .claiming) : ∃ es p', Path (step d) Smooth s es { s with pass := some p' } ∧
      p'.prog = resume d st.remaining := by
  have hself : Path (step d) Smooth s [] { s with pass := some p } := by
    rw [← hp]
    exact .nil s
  cases st with
  | claiming => exact absurd rfl hst
  | sending row msg rest =>
    have hmsg : toMessage row = .ok msg := hat.facts
    refine ⟨[], p, hself, hat.prog.trans ?_⟩
    simp only [Stage.remaining, resume, drainRows, hmsg]
    rfl
  | marking row rest =>
    obtain ⟨st', -, hresume⟩ := exists_resumes d rest hrest
    have hdone : p.answer d s.now s.rows .done = some { p with
        prog := resume d rest
        log := p.log ++ [.delivered row.id p.start] } := by
      simp only [Pass.answer, hat.prog, Stage.prog, afterStatement]
    exact ⟨[.call .done], _, .cons trivial (step_call st' hp hdone hresume) (.nil _), rfl⟩
  | backing row err rest => exact exists_path_backing hp hat.prog hrest
  | timing row err delay rest => exact exists_path_timing hp hat.prog hrest
  | scheduling row err nextAttemptAt rest => exact exists_path_scheduling hp hat.prog hrest
  | committing => exact ⟨[], p, hself, hat.prog.trans (commitDrain_eq d).symm⟩

/-- A pass that is about to claim its rows comes to an end. -/
theorem Pass.At.exists_path_claiming {p : Pass} (hs : Inv d epoch s)
    (hat : p.At d epoch s .claiming) (hp : s.pass = some p) :
    ∃ es t, Path (step d) Smooth s es t ∧ t.pass = none := by
  obtain ⟨batch, hclaims⟩ := exists_claims s.rows hs.nodup d.topic p.start d.batchSize_pos.le
  by_cases hempty : batch = []
  · have hanswer : p.answer d s.now s.rows (.claim batch) =
        some { p with prog := .ret false, batch := batch } := by
      simp only [Pass.answer, hat.prog, Stage.prog, if_pos hclaims, afterStatement,
        if_pos (List.length_eq_zero_iff.mpr hempty)]
    have hstep : step d s (.call (.claim batch)) =
        some (s.finish { p with prog := .ret false, batch := batch }) := by
      simp [step, hp, hanswer, Pass.over]
    exact ⟨[.call (.claim batch)], _, .cons trivial hstep (.nil _), rfl⟩
  · obtain ⟨es, t, -, hpath, hpass, -⟩ := exists_path_claim hs hp hat.prog hclaims hempty
    exact ⟨es, t, hpath, hpass⟩

/-- An open pass can come to its end without a failure, wherever it is. -/
theorem exists_path_idle (hs : Inv d epoch s) :
    ∃ es t, Path (step d) Smooth s es t ∧ t.pass = none ∧ (s.pass = none → t = s) := by
  rcases hp : s.pass with _ | p
  · exact ⟨[], s, .nil s, hp, fun _ => rfl⟩
  · obtain ⟨st, hat⟩ := hs.pass p hp
    suffices hend : ∃ es t, Path (step d) Smooth s es t ∧ t.pass = none by
      obtain ⟨es, t, hpath, hpass⟩ := hend
      exact ⟨es, t, hpath, hpass, by simp⟩
    by_cases hst : st = .claiming
    · subst hst
      exact hat.exists_path_claiming hs hp
    · have hrest : ∀ q ∈ st.remaining, ∃ msg, toMessage q = .ok msg := by
        obtain ⟨done, hbatch, -⟩ := hat.split
        exact fun q hq => hs.decoded q (hat.due q (hbatch ▸ List.mem_append_right _ hq)).1
      obtain ⟨es, p', hpath, hprog⟩ := hat.exists_path_remaining hp hrest hst
      obtain ⟨es', t, -, hpath', hpass, -⟩ := exists_path_resume st.remaining hrest
        (s := { s with pass := some p' }) rfl hprog
      exact ⟨_, t, hpath.append hpath', hpass⟩

/-- A row keeps its message through a run. -/
theorem exists_sameMessage {ok : World → Event → Prop} {es : List Event} (hs : Inv d epoch s)
    (h : Path (step d) ok s es t) (hr : r ∈ s.rows) : ∃ r' ∈ t.rows, r'.SameMessage r := by
  have hstep : ∀ u e v, Inv d epoch u ∧ (∃ r' ∈ u.rows, r'.SameMessage r) → ok u e →
      step d u e = some v → Inv d epoch v ∧ ∃ r' ∈ v.rows, r'.SameMessage r := by
    rintro u e v ⟨hu, q, hq, hsame⟩ - h
    obtain ⟨q', hq', hsame'⟩ := hu.survives h hq
    exact ⟨inv_step hu h, q', hq', hsame'.trans hsame⟩
  exact (h.invariant hstep ⟨hs, r, hr, .refl r⟩).2

/-- Between passes, a row can be delivered as soon as it is due. -/
theorem exists_path_due (hs : Inv d epoch s) (hidle : s.pass = none) (hr : r ∈ s.rows)
    (htopic : r.topic = d.topic) (hundelivered : r.deliveredAt = none) :
    ∃ es t, Path (step d) Smooth s es t ∧ t.now = max s.now r.nextAttemptAt ∧
      IsDelivered t r.id := by
  have helapse : step d s (.elapse (r.nextAttemptAt - s.now).toNat) =
      some { s with now := s.now + (r.nextAttemptAt - s.now).toNat } := rfl
  have hmax : s.now + ((r.nextAttemptAt - s.now).toNat : Int) = max s.now r.nextAttemptAt := by
    omega
  obtain ⟨es, t, hpath, hnow, hdelivered⟩ := exists_path_delivered (r := r)
    (inv_step hs helapse) hidle hr ⟨htopic, hundelivered, by simp only [hmax, le_max_right]⟩
  exact ⟨.elapse _ :: es, t, .cons trivial helapse hpath, hnow.trans hmax, hdelivered⟩

end Smooth

/-- Whatever has failed before, and wherever a pass is, every message of the topic can still be
delivered by a run in which nothing fails; between passes, as soon as it is due. -/
theorem deliverable {d : Dispatcher} {epoch : Int} {r : Row} {s : World} {es₀ : List Event}
    (h₀ : Path (step d) anyStep (.init epoch) es₀ s) (hr : r ∈ s.rows)
    (htopic : r.topic = d.topic) :
    ∃ es t, Path (step d) Smooth s es t ∧ IsDelivered t r.id ∧
      (s.pass = none → r.deliveredAt = none → t.now = max s.now r.nextAttemptAt) := by
  have hs := inv_of_path h₀
  obtain ⟨es, u, hpath, hidle, hsame⟩ := exists_path_idle hs
  have hu : Inv d epoch u := hpath.invariant (fun _ _ _ hv _ h => inv_step hv h) hs
  obtain ⟨q, hq, hid, hqtopic, -⟩ := exists_sameMessage hs hpath hr
  -- Between passes nothing has happened to the row yet.
  have hrow : s.pass = none → q = r := by
    intro hpass
    have hmem : r ∈ u.rows := by rwa [hsame hpass]
    exact Table.eq_of_mem hu.nodup hq hmem hid
  by_cases hdelivered : q.deliveredAt = none
  · obtain ⟨es', t, hpath', hnow, hdelivered'⟩ :=
      exists_path_due hu hidle hq (hqtopic.trans htopic) hdelivered
    refine ⟨es ++ es', t, hpath.append hpath', hid ▸ hdelivered', fun hpass _ => ?_⟩
    rw [hnow, hrow hpass, hsame hpass]
  · refine ⟨es, u, hpath, ⟨q, hq, hid, hdelivered⟩, fun hpass hnone => ?_⟩
    rw [hrow hpass] at hdelivered
    exact absurd hnone hdelivered

/-- The first message has just failed, and its pass is still open. -/
def firstFails : List Event :=
  twoPublished ++ [.begin, .call (.claim [publishedRow 1 10]), .call (.send (some "refused"))]

theorem deliverable_firstFails : ∃ s, run (step oneByOne) (.init 0) firstFails = some s ∧
    s.pass ≠ none ∧ ∃ es t, Path (step oneByOne) Smooth s es t ∧ IsDelivered t 1 := by
  obtain ⟨s, hrun, hopen, hrow⟩ : ∃ s, run (step oneByOne) (.init 0) firstFails = some s ∧
      s.pass.isSome = true ∧ publishedRow 1 10 ∈ s.rows :=
    exists_of_any (by decide +kernel)
  obtain ⟨es, t, hpath, hdelivered, -⟩ := deliverable (.of_run hrun) hrow rfl
  exact ⟨s, hrun, Option.isSome_iff_ne_none.mp hopen, es, t, hpath, hdelivered⟩

end Selatpay.Outbox
