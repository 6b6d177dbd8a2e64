import Selatpay.Outbox.Passes

/-!
# What a run of passes keeps account of

The statements of a pass match the results of its sends, each claimed row is sent
once, and a pass takes effect as a whole. So a row is delivered by a pass that sent
it, its attempts are the committed passes that failed to, and a row that has used up
its attempts is out of reach for as long as the run lasts.
-/

namespace Selatpay.Outbox

/-! ## The statements of a pass on one row -/

/-- The row of a statement and whether it marks it delivered. -/
def Update.result (u : Update) : UUID × Bool := (u.id, u.isDelivered)

section Rows

variable {log : List Update} {u : Update} {row : Row}

@[simp] theorem Update.apply_id (u : Update) (row : Row) : (u.apply row).id = row.id := by
  unfold Update.apply
  split
  · cases u <;> rfl
  · rfl

theorem Update.apply_ne (h : u.id ≠ row.id) : u.apply row = row := if_neg (Ne.symm h)

theorem applyLog_of_ne (h : ∀ u ∈ log, u.id ≠ row.id) : applyLog log row = row := by
  induction log with
  | nil => rfl
  | cons u log ih =>
    have hu : u.apply row = row := Update.apply_ne (h u List.mem_cons_self)
    rw [applyLog, List.foldl_cons, hu]
    exact ih fun v hv => h v (List.mem_cons_of_mem u hv)

/-- With one statement per row, a row is updated by its statement or not at all. -/
theorem applyLog_cases (hlog : (log.map Update.id).Nodup) (row : Row) :
    ((∀ u ∈ log, u.id ≠ row.id) ∧ applyLog log row = row) ∨
      ∃ u ∈ log, u.id = row.id ∧ applyLog log row = u.apply row := by
  induction log with
  | nil => exact .inl ⟨by simp, rfl⟩
  | cons u log ih =>
    rw [List.map_cons, List.nodup_cons] at hlog
    by_cases hu : u.id = row.id
    · refine .inr ⟨u, List.mem_cons_self, hu, ?_⟩
      have hrest : ∀ v ∈ log, v.id ≠ (u.apply row).id := by
        intro v hv hid
        rw [Update.apply_id, ← hu] at hid
        exact hlog.1 (hid ▸ List.mem_map_of_mem hv)
      exact applyLog_of_ne hrest
    · have hsame : applyLog (u :: log) row = applyLog log row := by
        rw [applyLog, List.foldl_cons, Update.apply_ne hu, applyLog]
      rw [hsame]
      rcases ih hlog.2 with ⟨hnone, happly⟩ | ⟨v, hv, hid, happly⟩
      · refine .inl ⟨fun v hv => ?_, happly⟩
        rcases List.mem_cons.mp hv with rfl | hv
        · exact hu
        · exact hnone v hv
      · exact .inr ⟨v, List.mem_cons_of_mem u hv, hid, happly⟩

end Rows

/-! ## A pass at a stage -/

/-- The span of `exhaustedDelay` in microseconds: a hundred years of 365 days. -/
def century : Int := 100 * 365 * 24 * 3600000000

/-- The claimed rows that are still to be sent. -/
def Stage.remaining : Stage → List Row
  | .sending row _ rest => row :: rest
  | st => st.rest

/-- The send whose statement is still to be executed. -/
def Stage.flying : Stage → List (UUID × Bool)
  | .marking row _ => [(row.id, true)]
  | .backing row _ _ => [(row.id, false)]
  | .timing row _ _ _ => [(row.id, false)]
  | .scheduling row _ _ _ => [(row.id, false)]
  | _ => []

/-- A retry is set for the time of the pass or later, and out of reach after the last attempt. -/
def Retried (d : Dispatcher) (p : Pass) (row : Row) (nextAttemptAt : Int) : Prop :=
  row ∈ p.batch ∧ p.start ≤ nextAttemptAt ∧
    (d.maxAttempts ≤ row.attempts + 1 → p.start + century ≤ nextAttemptAt)

/-- What a stage says about the row at hand. -/
def Stage.Facts (d : Dispatcher) (p : Pass) : Stage → Prop
  | .claiming => p.batch = []
  | .sending row msg _ => toMessage row = .ok msg
  | .marking row _ => row ∈ p.batch
  | .backing row _ _ => row ∈ p.batch ∧ row.attempts + 1 < d.maxAttempts
  | .timing row _ delay _ => row ∈ p.batch ∧ 0 ≤ delay ∧
      (d.maxAttempts ≤ row.attempts + 1 → delay = exhaustedDelay)
  | .scheduling row _ nextAttemptAt _ => Retried d p row nextAttemptAt
  | .committing => True

/-- What a statement of a pass says about the row it was made for. -/
def Update.Fits (d : Dispatcher) (p : Pass) : Update → Prop
  | .delivered id _ => ∃ row ∈ p.batch, row.id = id
  | .retry id nextAttemptAt _ => ∃ row, row.id = id ∧ Retried d p row nextAttemptAt

/-- The pass is at the stage. -/
structure Pass.At (d : Dispatcher) (epoch : Int) (s : World) (p : Pass) (st : Stage) : Prop where
  prog : p.prog = st.prog d
  uncommitted : p.committed = false
  epoch_le : epoch ≤ p.start
  start_le : p.start ≤ s.now
  due : ∀ r ∈ p.batch, r ∈ s.rows ∧ r.Due d.topic p.start
  nodup : (p.batch.map Row.id).Nodup
  split : ∃ done, p.batch = done ++ st.remaining ∧ p.sends.map Prod.fst = done.map Row.id
  log : p.sends = p.log.map Update.result ++ st.flying
  fits : ∀ u ∈ p.log, u.Fits d p
  facts : st.Facts d p

section Passes

variable {d : Dispatcher} {epoch : Int} {s : World} {p p' : Pass} {st st' : Stage}

theorem addDelay_nonneg {now delay : Int} (h : 0 ≤ delay) : now ≤ addDelay now delay := by
  unfold addDelay
  omega

theorem addDelay_exhausted (now : Int) : addDelay now exhaustedDelay = now + century := by
  unfold addDelay exhaustedDelay century
  omega

theorem toMessage_id {row : Row} {msg : Message} (h : toMessage row = .ok msg) :
    msg.id = row.id := by
  unfold toMessage at h
  split at h <;> cases h
  rfl

/-- Where the loop goes on it has the rest of its rows to send, and no send is in flight. -/
theorem Resumes.stage {rest : List Row} (h : Resumes rest st) (p : Pass) :
    st.remaining = rest ∧ st.flying = [] ∧ st.Facts d p := by
  cases h with
  | commit => exact ⟨rfl, rfl, trivial⟩
  | send hmsg => exact ⟨rfl, rfl, hmsg⟩

theorem mem_of_split {l done rest : List Row} {row : Row} (h : l = done ++ row :: rest) :
    row ∈ l := by
  simp [h]

/-- The rows still to be looked at are claimed ones. -/
theorem Pass.At.rest_subset (hp : p.At d epoch s st) : ∀ r ∈ st.rest, r ∈ s.rows := by
  obtain ⟨done, hbatch, -⟩ := hp.split
  intro r hr
  refine (hp.due r ?_).1
  rw [hbatch]
  refine List.mem_append_right _ ?_
  cases st with
  | sending row msg rest => exact List.mem_cons_of_mem row hr
  | claiming => exact hr
  | marking row rest => exact hr
  | backing row err rest => exact hr
  | timing row err delay rest => exact hr
  | scheduling row err nextAttemptAt rest => exact hr
  | committing => exact hr

/-- A send brings its row to the next stage. -/
theorem Pass.At.send {row : Row} {msg : Message} {rest : List Row} {ok : Bool}
    (hp : p.At d epoch s (.sending row msg rest)) (hrest : st'.remaining = rest)
    (hflying : st'.flying = [(row.id, ok)]) (hfacts : row ∈ p.batch → st'.Facts d p) :
    Pass.At d epoch s { p with
      prog := st'.prog d
      sends := p.sends ++ [(msg.id, ok)] } st' := by
  obtain ⟨done, hbatch, hsends⟩ := hp.split
  have hid : msg.id = row.id := toMessage_id hp.facts
  have hmem : row ∈ p.batch := mem_of_split hbatch
  refine ⟨rfl, hp.uncommitted, hp.epoch_le, hp.start_le, hp.due, hp.nodup, ?_, ?_, hp.fits, ?_⟩
  · refine ⟨done ++ [row], ?_, ?_⟩
    · rw [hbatch, hrest]
      simp [Stage.remaining]
    · simp [hsends, hid]
  · have hlog : p.sends = p.log.map Update.result := by simpa [Stage.flying] using hp.log
    simp [hlog, hflying, hid]
  · have hsame : st'.Facts d p := hfacts hmem
    cases st' <;> exact hsame

/-- A statement ends the work on a row. -/
theorem Pass.At.state {u : Update} {rest : List Row} (hp : p.At d epoch s st)
    (hrest : st.remaining = rest) (hflying : st.flying = [u.result]) (hfits : u.Fits d p)
    (hresumes : Resumes rest st') :
    Pass.At d epoch s { p with prog := st'.prog d, log := p.log ++ [u] } st' := by
  obtain ⟨hrest', hflying', hfacts⟩ := hresumes.stage (d := d) { p with
    prog := st'.prog d
    log := p.log ++ [u] }
  refine ⟨rfl, hp.uncommitted, hp.epoch_le, hp.start_le, hp.due, hp.nodup, ?_, ?_, ?_, hfacts⟩
  · rw [hrest', ← hrest]
    exact hp.split
  · simp [hp.log, hflying, hflying']
  · intro v hv
    rcases List.mem_append.mp hv with hv | hv
    · have hold : v.Fits d p := hp.fits v hv
      cases v <;> exact hold
    · rw [List.mem_singleton.mp hv]
      cases u <;> exact hfits

/-- A step inside the preparation of a retry. -/
theorem Pass.At.prepare (hp : p.At d epoch s st) (hrest : st'.remaining = st.remaining)
    (hflying : st'.flying = st.flying) (hfacts : st'.Facts d p) :
    Pass.At d epoch s { p with prog := st'.prog d } st' := by
  refine ⟨rfl, hp.uncommitted, hp.epoch_le, hp.start_le, hp.due, hp.nodup, ?_, ?_, hp.fits, ?_⟩
  · rw [hrest]
    exact hp.split
  · rw [hflying]
    exact hp.log
  · cases st' <;> exact hfacts

/-- A pass at a stage moves to a stage. -/
theorem Pass.At.moves {input : Input} (hp : p.At d epoch s st)
    (h : Moves d s.now s.rows p st input st' p') :
    p'.At d epoch s st' := by
  cases h with
  | claim hclaims _ hresumes =>
    have hempty : p.batch = [] := hp.facts
    obtain ⟨done, hbatch, hsends⟩ := hp.split
    have hdone : done = [] := (List.append_eq_nil_iff.mp (hbatch.symm.trans hempty)).1
    have hsends' : p.sends = [] := by simpa [hdone] using hsends
    have hlog : p.log = [] := by simpa [hsends', Stage.flying] using hp.log.symm
    obtain ⟨hrest, hflying, hfacts⟩ := hresumes.stage (d := d) { p with
      prog := st'.prog d, batch := _ }
    refine ⟨rfl, hp.uncommitted, hp.epoch_le, hp.start_le, hclaims.due, hclaims.nodup, ?_, ?_, ?_,
      hfacts⟩
    · exact ⟨[], by simp [hrest], by simp [hsends']⟩
    · simp [hsends', hlog, hflying]
    · simp [hlog]
  | sent => exact hp.send rfl rfl id
  | exhausted hmax =>
    exact hp.send rfl rfl fun hmem => ⟨hmem, by unfold exhaustedDelay; omega, fun _ => rfl⟩
  | unsent hmax => exact hp.send rfl rfl fun hmem => ⟨hmem, hmax⟩
  | drawn hdraws =>
    obtain ⟨hmem, hmax⟩ := hp.facts
    exact hp.prepare rfl rfl ⟨hmem, hdraws.nonneg, fun hle => by omega⟩
  | timed =>
    obtain ⟨hmem, hnonneg, hexhausted⟩ := hp.facts
    have hstart := hp.start_le
    have hlater : s.now ≤ addDelay s.now _ := addDelay_nonneg hnonneg
    refine hp.prepare rfl rfl ⟨hmem, by omega, fun hmax => ?_⟩
    rw [hexhausted hmax, addDelay_exhausted]
    omega
  | marked hresumes => exact hp.state rfl rfl ⟨_, hp.facts, rfl⟩ hresumes
  | scheduled hresumes => exact hp.state rfl rfl ⟨_, rfl, hp.facts⟩ hresumes

/-- Time passes and rows are published around a pass. -/
theorem Pass.At.mono {t : World} (hp : p.At d epoch s st) (hnow : s.now ≤ t.now)
    (hrows : ∀ r ∈ s.rows, r ∈ t.rows) : p.At d epoch t st := by
  refine ⟨hp.prog, hp.uncommitted, hp.epoch_le, hp.start_le.trans hnow, fun r hr => ?_, hp.nodup,
    hp.split, hp.log, hp.fits, hp.facts⟩
  exact ⟨hrows r (hp.due r hr).1, (hp.due r hr).2⟩

/-- A pass sends each row once. -/
theorem Pass.At.sends_nodup (hp : p.At d epoch s st) : (p.sends.map Prod.fst).Nodup := by
  obtain ⟨done, hbatch, hsends⟩ := hp.split
  have hnodup := hp.nodup
  rw [hbatch, List.map_append] at hnodup
  rw [hsends]
  exact hnodup.of_append_left

/-- What a committed pass does to a row. -/
inductive Resolved (d : Dispatcher) (p : Pass) (r : Row) : Row → Prop
  | kept : (∀ ok, (r.id, ok) ∉ p.sends) → Resolved d p r r
  | delivered (now : Int) : (r.id, true) ∈ p.sends → (r.id, false) ∉ p.sends →
      Resolved d p r { r with deliveredAt := some now, lastError := none }
  | retried (nextAttemptAt : Int) (lastError : String) : (r.id, false) ∈ p.sends →
      (r.id, true) ∉ p.sends → Retried d p r nextAttemptAt →
      Resolved d p r { r with
        attempts := r.attempts + 1
        nextAttemptAt := nextAttemptAt
        lastError := some lastError }

theorem Resolved.id_eq {r r' : Row} (h : Resolved d p r r') : r'.id = r.id := by
  cases h <;> rfl

/-- A row can be decoded after a commit as before. -/
theorem Resolved.decoded {r r' : Row} (h : Resolved d p r r')
    (hr : ∃ msg, toMessage r = .ok msg) : ∃ msg, toMessage r' = .ok msg := by
  have hheaders : r'.headers = r.headers := by cases h <;> rfl
  unfold toMessage at hr ⊢
  rw [hheaders]
  cases hok : r.headers with
  | error err => simp [hok] at hr
  | ok headers => exact ⟨_, rfl⟩

/-- A delivered row stays delivered. -/
theorem Resolved.delivered_of {r r' : Row} (h : Resolved d p r r') (hr : r.deliveredAt ≠ none) :
    r'.deliveredAt ≠ none := by
  cases h with
  | kept _ => exact hr
  | delivered now _ _ => simp
  | retried nextAttemptAt lastError _ _ _ => exact hr

/-- The row of a send that returned nil is delivered by the commit. -/
theorem Resolved.delivered_of_sent {r r' : Row} (h : Resolved d p r r')
    (hsent : (r.id, true) ∈ p.sends) : r'.deliveredAt ≠ none := by
  cases h with
  | kept hnone => exact absurd hsent (hnone true)
  | delivered now _ _ => simp
  | retried nextAttemptAt lastError _ hnone _ => exact absurd hsent hnone

/-- A pass about to commit resolves each row as it was sent. -/
theorem Pass.At.resolved (hp : p.At d epoch s .committing) (hrows : (s.rows.map Row.id).Nodup)
    {r : Row} (hr : r ∈ s.rows) : Resolved d p r (applyLog p.log r) := by
  have hsends : p.sends = p.log.map Update.result := by simpa [Stage.flying] using hp.log
  have hids : p.sends.map Prod.fst = p.log.map Update.id := by
    rw [hsends, List.map_map]
    rfl
  have hnodup : (p.sends.map Prod.fst).Nodup := hp.sends_nodup
  have honce : ∀ a b, (r.id, a) ∈ p.sends → (r.id, b) ∈ p.sends → a = b := fun a b ha hb =>
    congrArg Prod.snd (Table.eq_of_mem hnodup ha hb rfl)
  rcases applyLog_cases (hids ▸ hnodup) r with ⟨hnone, happly⟩ | ⟨u, hu, hid, happly⟩
  · rw [happly]
    refine .kept fun ok hmem => ?_
    have hmem' : r.id ∈ p.log.map Update.id := hids ▸ List.mem_map_of_mem hmem
    obtain ⟨u, hu, hid⟩ := List.mem_map.mp hmem'
    exact hnone u hu hid
  · have hmem : (r.id, u.isDelivered) ∈ p.sends := by
      rw [hsends, ← hid]
      exact List.mem_map_of_mem hu
    rw [happly]
    cases u with
    | delivered id now =>
      rw [show (Update.delivered id now).apply r = _ from if_pos hid.symm]
      refine .delivered now hmem fun hfalse => ?_
      cases honce _ _ hmem hfalse
    | retry id nextAttemptAt lastError =>
      rw [show (Update.retry id nextAttemptAt lastError).apply r = _ from if_pos hid.symm]
      obtain ⟨row, hrow, hretried⟩ := hp.fits _ hu
      have hsame : row = r :=
        Table.eq_of_mem hrows (hp.due row hretried.1).1 hr (hrow.trans hid)
      refine .retried nextAttemptAt lastError hmem (fun htrue => ?_) (hsame ▸ hretried)
      cases honce _ _ hmem htrue

/-- A statement resolves a row that was sent. -/
theorem Pass.At.logged (hp : p.At d epoch s st) : ∀ u ∈ p.log, u.result ∈ p.sends := by
  intro u hu
  rw [hp.log]
  exact List.mem_append_left _ (List.mem_map_of_mem hu)

/-- The rows a pass has sent are rows. -/
theorem Pass.At.known (hp : p.At d epoch s st) :
    ∀ x ∈ p.sends, x.1 ∈ s.rows.map Row.id := by
  intro x hx
  obtain ⟨done, hbatch, hsends⟩ := hp.split
  have hmem : x.1 ∈ done.map Row.id := hsends ▸ List.mem_map_of_mem hx
  obtain ⟨r, hr, hid⟩ := List.mem_map.mp hmem
  rw [← hid]
  exact List.mem_map_of_mem (hp.due r (hbatch ▸ List.mem_append_left _ hr)).1

end Passes

/-! ## Runs -/

/-- The committed passes in which `Send` failed for the row. -/
def World.failures (s : World) (id : UUID) : Nat :=
  s.ended.countP fun p => p.committed && decide ((id, false) ∈ p.sends)

/-- What holds in every state of a run that began at `epoch`. -/
structure Inv (d : Dispatcher) (epoch : Int) (s : World) : Prop where
  clock : epoch ≤ s.now
  nodup : (s.rows.map Row.id).Nodup
  decoded : ∀ r ∈ s.rows, ∃ msg, toMessage r = .ok msg
  pass : ∀ p, s.pass = some p → ∃ st, p.At d epoch s st
  /-- Only rows are sent. -/
  known : ∀ p ∈ s.ended, ∀ x ∈ p.sends, x.1 ∈ s.rows.map Row.id
  /-- Only what was sent is resolved. -/
  logged : ∀ p ∈ s.ended, ∀ u ∈ p.log, u.result ∈ p.sends
  delivered : ∀ r ∈ s.rows, r.deliveredAt ≠ none →
    ∃ p ∈ s.ended, p.committed = true ∧ (r.id, true) ∈ p.sends
  marks : ∀ p ∈ s.ended, p.committed = true → ∀ u ∈ p.log, u.isDelivered = true →
    ∀ r ∈ s.rows, r.id = u.id → r.deliveredAt ≠ none
  attempts : ∀ r ∈ s.rows, r.attempts = s.failures r.id
  parked : ∀ r ∈ s.rows, d.maxAttempts ≤ r.attempts → epoch + century ≤ r.nextAttemptAt
  bounded : s.now < epoch + century → ∀ r ∈ s.rows, r.attempts ≤ d.maxAttempts

/-- The event is one of the pass. -/
def Event.OfPass : Event → Prop
  | .call _ => True
  | .crash => True
  | _ => False

/-- What an event does to a world whose pass is at a stage. -/
inductive Change (d : Dispatcher) (epoch : Int) (s : World) : Event → World → Prop
  | elapse (t : Nat) : Change d epoch s (.elapse t) { s with now := s.now + t }
  | publish {topic payload : String} {aggregateID : Option UUID}
      {headers : List (String × String)} {id : UUID} {createdAt : Int} {row : Row} :
      publish topic aggregateID payload headers id createdAt = .ok row → createdAt ≤ s.now →
      id ∉ s.rows.map Row.id →
      Change d epoch s (.publish topic aggregateID payload headers id createdAt)
        { s with rows := s.rows ++ [row] }
  | begin : s.pass = none → Change d epoch s .begin
      { s with pass := some ⟨s.now, Stage.claiming.prog d, [], [], [], false⟩ }
  | moves {input : Input} {p p' : Pass} {st st' : Stage} : s.pass = some p →
      p.At d epoch s st → Moves d s.now s.rows p st input st' p' →
      Change d epoch s (.call input) { s with pass := some p' }
  | abandons {e : Event} {p p' : Pass} : e.OfPass → s.pass = some p → p'.sends = p.sends →
      p'.log = p.log → p'.committed = false → Change d epoch s e (s.finish p')
  | commits {input : Input} {p p' : Pass} : s.pass = some p → p.At d epoch s .committing →
      p'.sends = p.sends → p'.log = p.log → p'.committed = true →
      Change d epoch s (.call input) (s.finish p')

section Runs

variable {d : Dispatcher} {epoch : Int} {s t : World} {e : Event}

/-- Every event is one of these. -/
theorem Inv.change (hs : Inv d epoch s) (h : step d s e = some t) :
    Change d epoch s e t := by
  cases e with
  | elapse n =>
    cases h
    exact .elapse n
  | publish topic aggregateID payload headers id createdAt =>
    simp only [step] at h
    split at h
    · cases h
    · next row hrow =>
      split at h
      · next hfresh =>
        cases h
        exact .publish hrow hfresh.1 hfresh.2
      · cases h
  | begin =>
    simp only [step] at h
    split at h
    · cases h
    · next hnone =>
      cases h
      rw [drainOnce_eq]
      exact .begin hnone
  | crash =>
    simp only [step] at h
    split at h
    · cases h
    · next p hp =>
      cases h
      exact .abandons trivial hp rfl rfl rfl
  | call input =>
    simp only [step] at h
    split at h
    · cases h
    · next p hp =>
      split at h
      · cases h
      · next p' hanswer =>
        obtain ⟨st, hat⟩ := hs.pass p hp
        cases h
        cases Pass.answers hat.prog hs.decoded hat.rest_subset hanswer with
        | moves hmoves =>
          have hover := Stage.not_over (hat.moves hmoves).prog
          rw [hover]
          exact .moves hp hat hmoves
        | abandons hover hcommitted hsends hlog =>
          rw [hover]
          exact .abandons trivial hp hsends hlog (hcommitted.trans hat.uncommitted)
        | commits hst hover hcommitted hsends hlog =>
          rw [hover]
          exact .commits hp (hst ▸ hat) hsends hlog hcommitted

theorem publish_ok {topic payload : String} {aggregateID : Option UUID}
    {headers : List (String × String)} {id : UUID} {createdAt : Int} {row : Row}
    (h : publish topic aggregateID payload headers id createdAt = .ok row) :
    row.id = id ∧ row.topic = topic ∧ row.createdAt = createdAt ∧
      row.nextAttemptAt = createdAt ∧ row.deliveredAt = none ∧ row.attempts = 0 ∧
      ∃ msg, toMessage row = .ok msg := by
  unfold publish at h
  split at h
  · cases h
  · cases h
    exact ⟨rfl, rfl, rfl, rfl, rfl, rfl, _, rfl⟩

/-- Only a committed pass adds to the failures of a row. -/
theorem failures_finish (s : World) (p : Pass) (id : UUID) :
    (s.finish p).failures id =
      s.failures id + if p.committed = true ∧ (id, false) ∈ p.sends then 1 else 0 := by
  simp only [World.failures, World.finish, List.countP_append, List.countP_singleton]
  congr 1
  simp only [Bool.and_eq_true, decide_eq_true_eq]

/-- A row that was never sent has no failures. -/
theorem Inv.failures_eq_zero (hs : Inv d epoch s) {id : UUID} (h : id ∉ s.rows.map Row.id) :
    s.failures id = 0 := by
  rw [World.failures, List.countP_eq_zero]
  intro p hp hfails
  simp only [Bool.and_eq_true, decide_eq_true_eq] at hfails
  exact h (hs.known p hp _ hfails.2)

theorem Inv.init (d : Dispatcher) (epoch : Int) : Inv d epoch (.init epoch) := by
  constructor <;> simp [World.init]

theorem Inv.publish (hs : Inv d epoch s) {row : Row} (hid : row.id ∉ s.rows.map Row.id)
    (hdelivered : row.deliveredAt = none) (hattempts : row.attempts = 0)
    (hdecoded : ∃ msg, toMessage row = .ok msg) :
    Inv d epoch { s with rows := s.rows ++ [row] } := by
  have hmax := d.maxAttempts_pos
  refine ⟨hs.clock, Table.nodup_map_concat hs.nodup fun r hr heq => ?_,
    Table.forall_mem_concat hs.decoded hdecoded, fun p hp => ?_, fun p hp x hx => ?_, hs.logged,
    Table.forall_mem_concat hs.delivered (by simp [hdelivered]),
    fun p hp hcommitted u hu hmark => ?_, Table.forall_mem_concat hs.attempts ?_,
    Table.forall_mem_concat hs.parked (by omega),
    fun hnow => Table.forall_mem_concat (hs.bounded hnow) (by omega)⟩
  · exact hid (heq ▸ List.mem_map_of_mem hr)
  · obtain ⟨st, hat⟩ := hs.pass p hp
    exact ⟨st, hat.mono le_rfl fun r => List.mem_append_left _⟩
  · rw [List.map_append]
    exact List.mem_append_left _ (hs.known p hp x hx)
  · refine Table.forall_mem_concat (hs.marks p hp hcommitted u hu hmark) fun heq => ?_
    have hmem : u.id ∈ s.rows.map Row.id := hs.known p hp _ (hs.logged p hp u hu)
    exact absurd (heq ▸ hmem) hid
  · rw [hattempts]
    exact (congrArg Nat.cast (hs.failures_eq_zero hid)).symm

/-- The passes that are over after one more. -/
theorem mem_ended_finish {p : Pass} {q : Ended} (h : q ∈ (s.finish p).ended) :
    q ∈ s.ended ∨ q = ⟨p.sends, p.log, p.committed⟩ := by
  simpa [World.finish] using h

/-- A pass that is over has only sent rows and only resolved what it sent. -/
theorem Inv.sends_finish (hs : Inv d epoch s) {p p' : Pass} (hp : s.pass = some p)
    (hsends : p'.sends = p.sends) (hlog : p'.log = p.log) :
    ∀ q ∈ (s.finish p').ended,
      (∀ x ∈ q.sends, x.1 ∈ s.rows.map Row.id) ∧ ∀ u ∈ q.log, u.result ∈ q.sends := by
  obtain ⟨st, hat⟩ := hs.pass p hp
  intro q hq
  rcases mem_ended_finish hq with hq | rfl
  · exact ⟨hs.known q hq, hs.logged q hq⟩
  · simp only [hsends, hlog]
    exact ⟨hat.known, hat.logged⟩

/-- A pass that is abandoned leaves every row. -/
theorem Inv.abandon (hs : Inv d epoch s) {p p' : Pass} (hp : s.pass = some p)
    (hsends : p'.sends = p.sends) (hlog : p'.log = p.log) (hcommitted : p'.committed = false) :
    Inv d epoch (s.finish p') := by
  have hrows : (s.finish p').rows = s.rows := by simp [World.finish, hcommitted]
  have hfails : ∀ id, (s.finish p').failures id = s.failures id := by
    intro id
    simp [failures_finish, hcommitted]
  have hover := hs.sends_finish hp hsends hlog
  refine ⟨hs.clock, by rw [hrows]; exact hs.nodup, by rw [hrows]; exact hs.decoded,
    fun q hq => (by cases hq), fun q hq => ?_, fun q hq => (hover q hq).2, ?_, ?_, ?_, ?_, ?_⟩
  · rw [hrows]
    exact (hover q hq).1
  · rw [hrows]
    intro r hr hdelivered
    obtain ⟨q, hq, hrest⟩ := hs.delivered r hr hdelivered
    exact ⟨q, List.mem_append_left _ hq, hrest⟩
  · rw [hrows]
    intro q hq hcommitted'
    rcases mem_ended_finish hq with hq | rfl
    · exact hs.marks q hq hcommitted'
    · cases hcommitted.symm.trans hcommitted'
  · rw [hrows]
    intro r hr
    rw [hfails]
    exact hs.attempts r hr
  · rw [hrows]
    exact hs.parked
  · rw [hrows]
    exact hs.bounded

/-- The rows after a commit are the resolved ones. -/
theorem Inv.resolved_commit (hs : Inv d epoch s) {p p' : Pass} (hp : p.At d epoch s .committing)
    (hlog : p'.log = p.log) (hcommitted : p'.committed = true) :
    ∀ r' ∈ (s.finish p').rows, ∃ r ∈ s.rows, Resolved d p r r' := by
  intro r' hr'
  simp only [World.finish, hcommitted, if_true] at hr'
  obtain ⟨r, hr, rfl⟩ := List.mem_map.mp hr'
  exact ⟨r, hr, hlog ▸ hp.resolved hs.nodup hr⟩

theorem applyLog_id (log : List Update) (row : Row) : (applyLog log row).id = row.id := by
  induction log generalizing row with
  | nil => rfl
  | cons u log ih => exact (ih (u.apply row)).trans (u.apply_id row)

/-- A pass that commits resolves the rows it has sent. -/
theorem Inv.commit (hs : Inv d epoch s) {p p' : Pass} (hp : s.pass = some p)
    (hat : p.At d epoch s .committing) (hsends : p'.sends = p.sends)
    (hlog : p'.log = p.log) (hcommitted : p'.committed = true) :
    Inv d epoch (s.finish p') := by
  have hover := hs.sends_finish hp hsends hlog
  have hresolved := hs.resolved_commit hat hlog hcommitted
  have hids : (s.finish p').rows.map Row.id = s.rows.map Row.id := by
    simp only [World.finish, hcommitted, if_true, List.map_map]
    exact List.map_congr_left fun r _ => applyLog_id p'.log r
  have hfails : ∀ id, (s.finish p').failures id =
      s.failures id + if (id, false) ∈ p.sends then 1 else 0 := by
    intro id
    simp [failures_finish, hcommitted, hsends]
  have hthis : (⟨p'.sends, p'.log, p'.committed⟩ : Ended) ∈ (s.finish p').ended := by
    simp [World.finish]
  refine ⟨hs.clock, by rw [hids]; exact hs.nodup, fun r' hr' => ?_, fun q hq => (by cases hq),
    fun q hq => ?_, fun q hq => (hover q hq).2, fun r' hr' hdelivered => ?_, ?_,
    fun r' hr' => ?_, fun r' hr' hmax => ?_, fun hnow r' hr' => ?_⟩
  · obtain ⟨r, hr, hres⟩ := hresolved r' hr'
    exact hres.decoded (hs.decoded r hr)
  · rw [hids]
    exact (hover q hq).1
  · obtain ⟨r, hr, hres⟩ := hresolved r' hr'
    cases hres with
    | kept _ =>
      obtain ⟨q, hq, hrest⟩ := hs.delivered _ hr hdelivered
      exact ⟨q, List.mem_append_left _ hq, hrest⟩
    | delivered now hmem _ => exact ⟨_, hthis, hcommitted, hsends ▸ hmem⟩
    | retried nextAttemptAt lastError _ _ _ =>
      obtain ⟨q, hq, hrest⟩ := hs.delivered r hr hdelivered
      exact ⟨q, List.mem_append_left _ hq, hrest⟩
  · intro q hq hcommitted' u hu hmark r' hr' hid
    obtain ⟨r, hr, hres⟩ := hresolved r' hr'
    have hid' : r.id = u.id := hres.id_eq.symm.trans hid
    rcases mem_ended_finish hq with hq | rfl
    · exact hres.delivered_of (hs.marks q hq hcommitted' u hu hmark r hr hid')
    · refine hres.delivered_of_sent ?_
      have hlogged : (u.id, u.isDelivered) ∈ p.sends := hat.logged u (hlog ▸ hu)
      rwa [hid', ← hmark]
  · obtain ⟨r, hr, hres⟩ := hresolved r' hr'
    have hattempts := hs.attempts r hr
    rw [hfails]
    cases hres with
    | kept hnone => simp [hnone false, hattempts]
    | delivered now _ hnone => simp [hnone, hattempts]
    | retried nextAttemptAt lastError hmem _ _ => simp [hmem, hattempts]
  · obtain ⟨r, hr, hres⟩ := hresolved r' hr'
    cases hres with
    | kept _ => exact hs.parked _ hr hmax
    | delivered now _ _ => exact hs.parked r hr hmax
    | retried nextAttemptAt lastError _ _ hretried =>
      have hlater := hretried.2.2 hmax
      have hepoch := hat.epoch_le
      simp only
      omega
  · obtain ⟨r, hr, hres⟩ := hresolved r' hr'
    have hbound := hs.bounded hnow r hr
    cases hres with
    | kept _ => exact hbound
    | delivered now _ _ => exact hbound
    | retried nextAttemptAt lastError _ _ hretried =>
      -- A row of the batch was due, so it has not used up its attempts.
      have hdue := (hat.due r hretried.1).2.2.2
      have hparked := hs.parked r hr
      have hstart := hat.start_le
      have hlt : s.now < epoch + century := hnow
      simp only
      omega

theorem inv_step (hs : Inv d epoch s) (h : step d s e = some t) : Inv d epoch t := by
  cases hs.change h with
  | elapse n =>
    refine ⟨?_, hs.nodup, hs.decoded, fun p hp => ?_, hs.known, hs.logged, hs.delivered, hs.marks,
      hs.attempts, hs.parked, fun hnow => hs.bounded ?_⟩
    · have hclock := hs.clock
      simp only
      omega
    · obtain ⟨st, hat⟩ := hs.pass p hp
      exact ⟨st, hat.mono (by simp) fun r => id⟩
    · simp only at hnow
      omega
  | publish hrow _ hfresh =>
    obtain ⟨hid, -, -, -, hdelivered, hattempts, hdecoded⟩ := publish_ok hrow
    exact hs.publish (hid ▸ hfresh) hdelivered hattempts hdecoded
  | begin hnone =>
    refine ⟨hs.clock, hs.nodup, hs.decoded, fun p hp => ?_, hs.known, hs.logged, hs.delivered,
      hs.marks, hs.attempts, hs.parked, hs.bounded⟩
    cases hp
    refine ⟨.claiming, rfl, rfl, hs.clock, le_rfl, by simp, by simp, ?_, rfl, by simp, rfl⟩
    exact ⟨[], rfl, rfl⟩
  | moves hp hat hmoves =>
    refine ⟨hs.clock, hs.nodup, hs.decoded, fun p hp => ?_, hs.known, hs.logged, hs.delivered,
      hs.marks, hs.attempts, hs.parked, hs.bounded⟩
    cases hp
    have hat' := hat.moves hmoves
    exact ⟨_, hat'.mono le_rfl fun r => id⟩
  | abandons _ hp hsends hlog hcommitted => exact hs.abandon hp hsends hlog hcommitted
  | commits hp hat hsends hlog hcommitted => exact hs.commit hp hat hsends hlog hcommitted

/-- Every state of a run that began with an empty outbox keeps account. -/
theorem inv_of_path {ok : World → Event → Prop} {es : List Event}
    (h : Path (step d) ok (.init epoch) es s) : Inv d epoch s :=
  h.invariant (fun _ _ _ hs _ => inv_step hs) (.init d epoch)

end Runs

end Selatpay.Outbox
