import Selatpay.Payout.Rail
import Selatpay.Settlement.Receipts

/-!
# Workers, the rail and the bank

The settlement system is put together with the bank stub over HTTP. A worker that stands
at the rail may have its request arrive at the bank more than once, may receive the answer
to any of them, or none, while the bank works on all that has arrived. So a payout that is
committed as succeeded can be traced to a request the bank has paid.
-/

namespace Selatpay.Payout

open Store Saga

open Settlement (Owner RailCall)

/-! ## The system -/

/-- What is fixed at deployment. -/
structure Env where
  books : Settlement.Env
  json : Json
  /-- The `fail` parameter of the URL the rail posts to. -/
  fail : String

/-- The state of both ends and of the network. -/
structure World where
  books : Settlement.World
  bank : MockBank.World
  /-- The requests of the call a worker is in, by their position at the bank. -/
  sent : Owner → List Nat
  /-- Every request that has arrived at the bank. -/
  posted : List SubmitRequest
  /-- Every answer a worker has received. -/
  receipts : List RailCall

/-- A new deployment. -/
def World.init (accounts : List Ledger.Account) (merchants : List Merchant) (now : Time) :
    World where
  books := .init accounts merchants now
  bank := .init
  sent := fun _ => []
  posted := []
  receipts := []

/-- The request a worker stands at the rail with. -/
def asking : Settlement.Worker → Option SubmitRequest
  | .executing _ _ (.call (.submit req) _) _ => some req
  | _ => none

/-- The rail answers. -/
def isAnswer : Settlement.Event → Bool
  | .exec _ (.rail _) => true
  | _ => false

/-- What can happen. -/
inductive Event
  /-- Anything but an answer of the rail. -/
  | books (e : Settlement.Event)
  /-- The request of a worker arrives at the bank. -/
  | post (w : Owner)
  /-- The bank works on a request. -/
  | bank (n : Nat) (newString : UUID)
  /-- A worker receives the response to one of its requests. -/
  | answer (w : Owner) (n : Nat)
  /-- A worker receives no response. -/
  | fail (w : Owner) (failure : Failure)

/-- The answer of the rail reaches a worker. -/
def World.deliver (env : Env) (s : World) (w : Owner) (answer : RailAnswer) : Option World :=
  match asking (s.books.worker w), s.books.step env.books (.exec w (.rail answer)) with
  | some req, some books => some { s with
      books := books
      sent := Function.update s.sent w []
      receipts := s.receipts ++ [(req, answer)] }
  | _, _ => none

/-- One event; `none` when it is not enabled. -/
def step (env : Env) (s : World) : Event → Option World
  | .books e =>
    if isAnswer e then none
    else match s.books.step env.books e with
      | none => none
      | some books => some { s with
          books := books
          sent := fun w => if asking (books.worker w) = none then [] else s.sent w }
  | .post w => match asking (s.books.worker w) with
    | none => none
    | some req =>
      match MockBank.step env.json.decodeRequest s.bank (.arrive (httpRequest env.fail req)) with
      | none => none
      | some bank => some { s with
          bank := bank
          sent := Function.update s.sent w (s.sent w ++ [s.bank.exchanges.length])
          posted := s.posted ++ [req] }
  | .bank n newString =>
    match MockBank.step env.json.decodeRequest s.bank (.call n newString) with
    | none => none
    | some bank => some { s with bank := bank }
  | .answer w n => match s.bank.exchanges[n]? with
    | none => none
    | some x => match x.response with
      | none => none
      | some r =>
        if n ∈ s.sent w then
          s.deliver env w (.ok (interpret env.json r.statusCode (text r.body)))
        else none
  | .fail w failure => s.deliver env w failure.answer

/-- No generated id is used again, and all bodies are short enough to be read whole. -/
def Sane (s : World) : Event → Prop
  | .books (.exec _ (.row uuid)) => ∀ req ∈ s.posted, req.payoutID ≠ uuid
  | .post w => ∀ req ∈ asking (s.books.worker w), Fits req
  | .answer _ n => ∀ x ∈ s.bank.exchanges[n]?, ∀ r ∈ x.response, (text r.body).length ≤ bodyLimit
  | _ => True

instance (s : World) (e : Event) : Decidable (Sane s e) := by
  unfold Sane
  split
  · infer_instance
  · exact Option.decidableForallMem _
  · exact @Option.decidableForallMem _ _ (fun _ => Option.decidableForallMem _) _
  · infer_instance

/-! ## What an event changes -/

/-- Where the answer a worker receives comes from. -/
inductive Origin (env : Env) (s : World) (w : Owner) : Event → RailAnswer → Prop
  | response {n : Nat} {x : MockBank.Exchange} {r : MockBank.Response}
      (hx : s.bank.exchanges[n]? = some x) (hr : x.response = some r) (hsent : n ∈ s.sent w) :
      Origin env s w (.answer w n) (.ok (interpret env.json r.statusCode (text r.body)))
  | failure (f : Failure) : Origin env s w (.fail w f) f.answer

/-- What an event does. -/
inductive Change (env : Env) (s : World) : Event → World → Prop
  | books {e : Settlement.Event} {books : Settlement.World} (he : isAnswer e = false)
      (h : Settlement.Change env.books s.books e books) :
      Change env s (.books e) { s with
        books := books
        sent := fun w => if asking (books.worker w) = none then [] else s.sent w }
  | post {w : Owner} {req : SubmitRequest} {bank : MockBank.World}
      (hask : asking (s.books.worker w) = some req)
      (h : MockBank.step env.json.decodeRequest s.bank (.arrive (httpRequest env.fail req)) =
        some bank) :
      Change env s (.post w) { s with
        bank := bank
        sent := Function.update s.sent w (s.sent w ++ [s.bank.exchanges.length])
        posted := s.posted ++ [req] }
  | bank {n : Nat} {newString : UUID} {bank : MockBank.World}
      (h : MockBank.step env.json.decodeRequest s.bank (.call n newString) = some bank) :
      Change env s (.bank n newString) { s with bank := bank }
  | deliver {e : Event} {w : Owner} {answer : RailAnswer} {req : SubmitRequest}
      {books : Settlement.World} (horigin : Origin env s w e answer)
      (hask : asking (s.books.worker w) = some req)
      (h : Settlement.Change env.books s.books (.exec w (.rail answer)) books) :
      Change env s e { s with
        books := books
        sent := Function.update s.sent w []
        receipts := s.receipts ++ [(req, answer)] }

section Change

variable {env : Env} {s t : World} {e : Event}

theorem deliver_change {w : Owner} {answer : RailAnswer} (horigin : Origin env s w e answer)
    (h : s.deliver env w answer = some t) : Change env s e t := by
  unfold World.deliver at h
  split at h
  · next req books hask hbooks =>
    cases h
    exact .deliver horigin hask (Settlement.step_change hbooks)
  · cases h

/-- Every event does what `Change` says. -/
theorem step_change (h : step env s e = some t) : Change env s e t := by
  cases e with
  | books e =>
    simp only [step] at h
    split at h
    · cases h
    · next he =>
      cases hbooks : s.books.step env.books e with
      | none => simp [hbooks] at h
      | some books =>
        simp only [hbooks, Option.some.injEq] at h
        subst h
        exact .books (by simpa using he) (Settlement.step_change hbooks)
  | post w =>
    cases hask : asking (s.books.worker w) with
    | none => simp [step, hask] at h
    | some req =>
      simp only [step, hask] at h
      split at h
      · cases h
      · next bank hbank =>
        cases h
        exact .post hask hbank
  | bank n newString =>
    simp only [step] at h
    split at h
    · cases h
    · next bank hbank =>
      cases h
      exact .bank hbank
  | answer w n =>
    cases hx : s.bank.exchanges[n]? with
    | none => simp [step, hx] at h
    | some x =>
      cases hr : x.response with
      | none => simp [step, hx, hr] at h
      | some r =>
        simp only [step, hx, hr] at h
        split at h
        · next hsent => exact deliver_change (.response hx hr hsent) h
        · cases h
  | fail w failure => exact deliver_change (.failure failure) h

end Change

section Books

variable {env : Settlement.Env} {s t : Settlement.World} {e : Settlement.Event} {w : Owner}

theorem asking_eq_some {x : Settlement.Worker} {req : SubmitRequest} :
    asking x = some req ↔
      ∃ run began k rail, x = .executing run began (.call (.submit req) k) rail := by
  constructor
  · intro h
    unfold asking at h
    split at h
    · cases h
      exact ⟨_, _, _, _, rfl⟩
    · cases h
  · rintro ⟨run, began, k, rail, rfl⟩
    rfl

/-- A worker stands at the rail with its request until it is answered or gives up. -/
theorem asking_change (h : Settlement.Change env s e t) {req : SubmitRequest}
    (hask : asking (s.worker w) = some req) (he : ∀ answer, e ≠ .exec w (.rail answer)) :
    asking (t.worker w) = some req ∨ asking (t.worker w) = none := by
  obtain ⟨run, began, k, rail, hw⟩ := asking_eq_some.mp hask
  cases h.worker w with
  | same hworker hlog => exact .inl (by rw [hworker, hask])
  | claim _ hidle =>
    rw [hw] at hidle
    cases hidle
  | start hw' =>
    rw [hw] at hw'
    cases hw'
  | @exec input run' began' c k' rail' r es hw' hanswer hworker hlog hdb hexec =>
    rw [hw] at hw'
    cases hw'
    cases input with
    | row uuid => cases hanswer
    | fail msg => cases hanswer
    | rail answer => exact absurd hexec (he answer)
  | rollback _ hworker =>
    obtain hworker | ⟨_, _, _, _, _, -, hworker⟩ := hworker <;> exact .inr (by rw [hworker]; rfl)
  | commit _ _ hworker =>
    obtain hworker | ⟨_, hworker⟩ := hworker <;> exact .inr (by rw [hworker]; rfl)
  | settle _ hworker => exact .inr (by rw [hworker]; rfl)

/-- A call of a worker leaves the others at the rail. -/
theorem asking_exec {v : Owner} {input : Input} (h : Settlement.Change env s (.exec w input) t)
    (hv : v ≠ w) {req : SubmitRequest} (hask : asking (s.worker v) = some req) :
    asking (t.worker v) = some req := by
  cases h.worker v with
  | same hworker hlog => rw [hworker, hask]
  | claim he => cases he
  | start hw =>
    rw [hw] at hask
    cases hask
  | exec hw hanswer hworker hlog hdb he =>
    cases he
    exact absurd rfl hv
  | rollback he => cases he
  | commit he => cases he
  | settle hw =>
    rw [hw] at hask
    cases hask

/-- A transaction works with the answer it had, or with the one it has just received. -/
theorem inFlight_change (h : Settlement.Change env s e t) {call : RailCall}
    (hcall : (t.worker w).inFlight = some call) : (s.worker w).inFlight = some call ∨
      e = .exec w (.rail call.2) ∧ asking (s.worker w) = some call.1 := by
  cases h.worker w with
  | same hworker hlog => exact .inl (by rw [← hworker, hcall])
  | claim _ _ _ _ hworker =>
    rw [hworker] at hcall
    cases hcall
  | start _ hworker =>
    obtain hworker | ⟨_, hworker⟩ := hworker <;> rw [hworker] at hcall <;> cases hcall
  | @exec input run began c k rail r es hw hanswer hworker hlog hdb hexec =>
    rw [hworker] at hcall
    cases c with
    | ledger o => exact .inl (by rw [hw]; cases input <;> exact hcall)
    | sql o => exact .inl (by rw [hw]; cases input <;> exact hcall)
    | submit req =>
      cases input with
      | row uuid => cases hanswer
      | fail msg => cases hanswer
      | rail answer =>
        cases hcall
        exact .inr ⟨hexec, by rw [hw]; rfl⟩
  | rollback _ hworker =>
    obtain hworker | ⟨_, _, _, _, _, -, hworker⟩ := hworker <;> rw [hworker] at hcall <;>
      cases hcall
  | commit _ _ hworker =>
    obtain hworker | ⟨_, hworker⟩ := hworker <;> rw [hworker] at hcall <;> cases hcall
  | settle _ hworker =>
    rw [hworker] at hcall
    cases hcall

/-- A payout row that a transaction has inserted was there before, or is inserted now. -/
theorem insertPayout_change (h : Settlement.Change env s e t) {row : Store.Payout}
    (hrow : .insertPayout row ∈ t.tx.log w) :
    .insertPayout row ∈ s.tx.log w ∨ e = .exec w (.row row.id) := by
  cases h.worker w with
  | same _ hlog => exact .inl (hlog ▸ hrow)
  | claim _ _ _ _ _ hlog => exact .inl (hlog ▸ hrow)
  | start _ _ hlog => exact .inl (hlog ▸ hrow)
  | exec hw hanswer hworker hlog hdb hexec =>
    rw [hlog, List.mem_append] at hrow
    exact hrow.imp id fun hnew => by rw [hexec, Settlement.insertPayout_of_answer hanswer hnew]
  | rollback _ _ hlog =>
    rw [hlog] at hrow
    cases hrow
  | commit _ _ _ hlog =>
    rw [hlog] at hrow
    cases hrow
  | settle _ _ hlog => exact .inl (hlog ▸ hrow)

end Books

end Selatpay.Payout
