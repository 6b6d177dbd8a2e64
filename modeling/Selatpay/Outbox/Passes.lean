import Selatpay.Outbox.Dispatcher

/-!
# The stages of a pass

A pass is at one of seven stages of `drainOnce`. `Moves` says how one answered call
leads from stage to stage, and that nothing else can happen to a pass than to be
abandoned or committed; every invariant of the outbox is a case analysis over it.
-/

namespace Selatpay.Outbox

/-- Where a pass is, with the rows it has still to look at. -/
inductive Stage
  | claiming
  | sending (row : Row) (msg : Message) (rest : List Row)
  | marking (row : Row) (rest : List Row)
  | backing (row : Row) (err : String) (rest : List Row)
  | timing (row : Row) (err : String) (delay : Int) (rest : List Row)
  | scheduling (row : Row) (err : String) (nextAttemptAt : Int) (rest : List Row)
  | committing

/-- What is left of `drainOnce` with some claimed rows to go. -/
def resume (d : Dispatcher) (rest : List Row) : DispatcherM Bool :=
  (drainRows d rest).bind fun _ => commitDrain

/-- What is left of `drainOnce` inside the loop body. -/
def resumeAfter (d : Dispatcher) (p : DispatcherM Unit) (rest : List Row) : DispatcherM Bool :=
  (p.bind fun _ => drainRows d rest).bind fun _ => commitDrain

/-- What is left after a statement, by its reply. -/
def afterStatement {α : Type} (msg : String) (k : α → DispatcherM Bool) :
    Except DbError α → DispatcherM Bool
  | .ok a => k a
  | .error e => .throw (.wrap msg (.db e))

/-- What is left of `drainOnce` at a stage. -/
def Stage.prog (d : Dispatcher) : Stage → DispatcherM Bool
  | .claiming => .call (.claimDueOutbox d.topic d.batchSize) (afterStatement "claim batch"
      fun (rows : List Row) => if rows.length = 0 then .ret false else resume d rows)
  | .sending row msg rest => .call (.send msg) fun sendErr =>
      resumeAfter d (afterSend d row sendErr) rest
  | .marking row rest => .call (.markOutboxDelivered row.id)
      (afterStatement "mark delivered" fun (_ : Unit) => resume d rest)
  | .backing row err rest => .call (.computeBackoff (row.attempts + 1)) fun delay =>
      resumeAfter d (retryAfter row err delay) rest
  | .timing row err delay rest => .call .timeNow fun (now : Int) =>
      resumeAfter d (scheduleRetry row err (addDelay now delay)) rest
  | .scheduling row err nextAttemptAt rest =>
    .call (.scheduleOutboxRetry row.id nextAttemptAt err)
      (afterStatement "schedule retry" fun (_ : Unit) => resume d rest)
  | .committing => .call .commit (afterStatement "commit drain" fun (_ : Unit) => .ret true)

/-- The stage at which the loop goes on. -/
inductive Resumes : List Row → Stage → Prop
  | commit : Resumes [] .committing
  | send {row : Row} {msg : Message} {rest : List Row} : toMessage row = .ok msg →
      Resumes (row :: rest) (.sending row msg rest)

/-- How an answered call leads to the next stage. -/
inductive Moves (d : Dispatcher) (now : Int) (rows : List Row) (p : Pass) :
    Stage → Input → Stage → Pass → Prop
  | claim {batch : List Row} {st : Stage} :
      Claims rows d.topic p.start d.batchSize batch → batch ≠ [] → Resumes batch st →
      Moves d now rows p .claiming (.claim batch) st
        { p with prog := st.prog d, batch := batch }
  | sent {row : Row} {msg : Message} {rest : List Row} :
      Moves d now rows p (.sending row msg rest) (.send none) (.marking row rest) { p with
        prog := (Stage.marking row rest).prog d
        sends := p.sends ++ [(msg.id, true)] }
  | exhausted {row : Row} {msg : Message} {rest : List Row} {err : String} :
      d.maxAttempts ≤ row.attempts + 1 →
      Moves d now rows p (.sending row msg rest) (.send (some err))
        (.timing row err exhaustedDelay rest) { p with
        prog := (Stage.timing row err exhaustedDelay rest).prog d
        sends := p.sends ++ [(msg.id, false)] }
  | unsent {row : Row} {msg : Message} {rest : List Row} {err : String} :
      row.attempts + 1 < d.maxAttempts →
      Moves d now rows p (.sending row msg rest) (.send (some err)) (.backing row err rest) { p with
        prog := (Stage.backing row err rest).prog d
        sends := p.sends ++ [(msg.id, false)] }
  | drawn {row : Row} {err : String} {delay : Int} {rest : List Row} :
      d.Draws (row.attempts + 1) delay →
      Moves d now rows p (.backing row err rest) (.draw delay) (.timing row err delay rest)
        { p with prog := (Stage.timing row err delay rest).prog d }
  | timed {row : Row} {err : String} {delay : Int} {rest : List Row} :
      Moves d now rows p (.timing row err delay rest) .clock
        (.scheduling row err (addDelay now delay) rest)
        { p with prog := (Stage.scheduling row err (addDelay now delay) rest).prog d }
  | marked {row : Row} {rest : List Row} {st : Stage} : Resumes rest st →
      Moves d now rows p (.marking row rest) .done st { p with
        prog := st.prog d
        log := p.log ++ [.delivered row.id p.start] }
  | scheduled {row : Row} {err : String} {nextAttemptAt : Int} {rest : List Row} {st : Stage} :
      Resumes rest st →
      Moves d now rows p (.scheduling row err nextAttemptAt rest) .done st { p with
        prog := st.prog d
        log := p.log ++ [.retry row.id nextAttemptAt err] }

/-- What an answered call does to a pass. -/
inductive Answers (d : Dispatcher) (now : Int) (rows : List Row) (p : Pass) (st : Stage)
    (input : Input) (p' : Pass) : Prop
  | moves {st' : Stage} : Moves d now rows p st input st' p' → Answers d now rows p st input p'
  /-- It ends without a commit. -/
  | abandons : p'.over = true → p'.committed = p.committed → p'.sends = p.sends →
      p'.log = p.log → Answers d now rows p st input p'
  /-- It commits and ends. -/
  | commits : st = .committing → p'.over = true → p'.committed = true → p'.sends = p.sends →
      p'.log = p.log → Answers d now rows p st input p'

section Stages

variable {d : Dispatcher} {now : Int} {rows : List Row} {p p' : Pass} {st : Stage} {input : Input}

theorem drainOnce_eq (d : Dispatcher) : drainOnce d = Stage.claiming.prog d :=
  congrArg (Prog.call _) (funext fun (r : Except DbError (List Row)) => by cases r <;> rfl)

theorem commitDrain_eq (d : Dispatcher) : commitDrain = Stage.committing.prog d :=
  congrArg (Prog.call _) (funext fun (r : Except DbError Unit) => by cases r <;> rfl)

theorem resumeAfter_markDelivered (d : Dispatcher) (row : Row) (rest : List Row) :
    resumeAfter d (markDelivered row) rest = (Stage.marking row rest).prog d :=
  congrArg (Prog.call _) (funext fun (r : Except DbError Unit) => by cases r <;> rfl)

theorem resumeAfter_scheduleRetry (d : Dispatcher) (row : Row) (err : String)
    (nextAttemptAt : Int) (rest : List Row) :
    resumeAfter d (scheduleRetry row err nextAttemptAt) rest =
      (Stage.scheduling row err nextAttemptAt rest).prog d :=
  congrArg (Prog.call _) (funext fun (r : Except DbError Unit) => by cases r <;> rfl)

/-- The loop goes on at a stage, as long as every row can be decoded. -/
theorem exists_resumes (d : Dispatcher) (rest : List Row)
    (h : ∀ r ∈ rest, ∃ msg, toMessage r = .ok msg) :
    ∃ st, Resumes rest st ∧ resume d rest = st.prog d := by
  cases rest with
  | nil => exact ⟨.committing, .commit, commitDrain_eq d⟩
  | cons row rest =>
    obtain ⟨msg, hmsg⟩ := h row List.mem_cons_self
    refine ⟨.sending row msg rest, .send hmsg, ?_⟩
    simp only [resume, drainRows, hmsg]
    rfl

/-- A stage is not the end of a pass. -/
theorem Stage.not_over (hprog : p.prog = st.prog d) : p.over = false := by
  rw [Pass.over, hprog]
  cases st <;> rfl

/-- `Send` returns, and the row is marked or its retry is prepared. -/
theorem exists_moves_send {row : Row} {msg : Message} {rest : List Row} (err : Option String) :
    ∃ st, Moves d now rows p (.sending row msg rest) (.send err) st { p with
      prog := resumeAfter d (afterSend d row err) rest
      sends := p.sends ++ [(msg.id, err.isNone)] } := by
  cases err with
  | none =>
    refine ⟨.marking row rest, ?_⟩
    rw [show afterSend d row none = markDelivered row from rfl, resumeAfter_markDelivered]
    exact .sent
  | some err =>
    by_cases hmax : d.maxAttempts ≤ row.attempts + 1
    · refine ⟨.timing row err exhaustedDelay rest, ?_⟩
      rw [show afterSend d row (some err) = retryAfter row err exhaustedDelay from if_pos hmax]
      exact .exhausted hmax
    · refine ⟨.backing row err rest, ?_⟩
      rw [show afterSend d row (some err) = _ from if_neg hmax]
      exact .unsent (by omega)

/-- The rows a stage has still to look at. -/
def Stage.rest : Stage → List Row
  | .claiming => []
  | .sending _ _ rest => rest
  | .marking _ rest => rest
  | .backing _ _ rest => rest
  | .timing _ _ _ rest => rest
  | .scheduling _ _ _ rest => rest
  | .committing => []

/-- A pass whose claim was answered. -/
theorem answers_claim {batch : List Row} (hrows : ∀ r ∈ rows, ∃ msg, toMessage r = .ok msg)
    (hclaims : Claims rows d.topic p.start d.batchSize batch) :
    Answers d now rows p .claiming (.claim batch) { p with
      prog := if batch.length = 0 then .ret false else resume d batch
      batch := batch } := by
  by_cases hempty : batch.length = 0
  · rw [if_pos hempty]
    exact .abandons rfl rfl rfl rfl
  · obtain ⟨st, hresumes, hresume⟩ :=
      exists_resumes d batch fun r hr => hrows r (hclaims.due r hr).1
    rw [if_neg hempty, hresume]
    exact .moves (.claim hclaims (by rintro rfl; exact hempty rfl) hresumes)

/-- What the next call of a pass at a stage can be and do. -/
theorem Pass.answers (hprog : p.prog = st.prog d)
    (hrows : ∀ r ∈ rows, ∃ msg, toMessage r = .ok msg) (hrest : ∀ r ∈ st.rest, r ∈ rows)
    (h : p.answer d now rows input = some p') : Answers d now rows p st input p' := by
  obtain ⟨st', hresumes, hresume⟩ := exists_resumes d st.rest fun r hr => hrows r (hrest r hr)
  cases st with
  | claiming =>
    cases input with
    | claim batch =>
      simp only [Pass.answer, hprog, Stage.prog] at h
      split at h
      · next hclaims =>
        cases h
        exact answers_claim hrows hclaims
      · cases h
    | failed err =>
      simp only [Pass.answer, hprog, Stage.prog, Option.some.injEq] at h
      subst h
      exact .abandons rfl rfl rfl rfl
    | _ => simp [Pass.answer, hprog, Stage.prog] at h
  | sending row msg rest =>
    cases input with
    | send err =>
      simp only [Pass.answer, hprog, Stage.prog, Option.some.injEq] at h
      subst h
      obtain ⟨st', hmoves⟩ := exists_moves_send err
      exact .moves hmoves
    | _ => simp [Pass.answer, hprog, Stage.prog] at h
  | marking row rest =>
    cases input with
    | done =>
      simp only [Pass.answer, hprog, Stage.prog, Option.some.injEq] at h
      subst h
      simp only [afterStatement, Stage.rest] at hresume ⊢
      rw [hresume]
      exact .moves (.marked hresumes)
    | failed err =>
      simp only [Pass.answer, hprog, Stage.prog, Option.some.injEq] at h
      subst h
      exact .abandons rfl rfl rfl rfl
    | _ => simp [Pass.answer, hprog, Stage.prog] at h
  | backing row err rest =>
    cases input with
    | draw delay =>
      simp only [Pass.answer, hprog, Stage.prog] at h
      split at h
      · next hdraws =>
        cases h
        exact .moves (.drawn hdraws)
      · cases h
    | _ => simp [Pass.answer, hprog, Stage.prog] at h
  | timing row err delay rest =>
    cases input with
    | clock =>
      simp only [Pass.answer, hprog, Stage.prog, Option.some.injEq] at h
      subst h
      rw [resumeAfter_scheduleRetry]
      exact .moves .timed
    | _ => simp [Pass.answer, hprog, Stage.prog] at h
  | scheduling row err nextAttemptAt rest =>
    cases input with
    | done =>
      simp only [Pass.answer, hprog, Stage.prog, Option.some.injEq] at h
      subst h
      simp only [afterStatement, Stage.rest] at hresume ⊢
      rw [hresume]
      exact .moves (.scheduled hresumes)
    | failed err =>
      simp only [Pass.answer, hprog, Stage.prog, Option.some.injEq] at h
      subst h
      exact .abandons rfl rfl rfl rfl
    | _ => simp [Pass.answer, hprog, Stage.prog] at h
  | committing =>
    cases input with
    | commit answer =>
      simp only [Pass.answer, hprog, Stage.prog, Option.some.injEq] at h
      cases answer with
      | done => subst h; exact .commits rfl rfl rfl rfl rfl
      | lost msg => subst h; exact .commits rfl rfl rfl rfl rfl
      | failed msg => subst h; exact .abandons rfl rfl rfl rfl
    | _ => simp [Pass.answer, hprog, Stage.prog] at h

end Stages

end Selatpay.Outbox
