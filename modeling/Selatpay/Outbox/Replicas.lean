import Selatpay.Core.Locks
import Selatpay.Core.Simulation
import Selatpay.Outbox.Delivery

/-!
# Dispatchers that share a topic

Any number of processes run `Dispatcher.Run` on one topic. Each polls
`pg_try_advisory_lock` on a connection of its pool and drains the topic while the
session of that connection holds the lock. A session can end at any time: the lock
and the open transaction go with it, but the process learns of it only when its next
statement fails. An unlock that fails leaves the lock with a connection that goes
back to the pool, where the session keeps it.
-/

namespace Selatpay.Outbox

/-- A connection of a process's pool, and the session of the database behind it. -/
structure Session where
  proc : Nat
  serial : Nat
  deriving DecidableEq, Repr

/-- Where a process is in `Run`. -/
inductive Phase
  /-- In `acquireWithLock`, without a connection. -/
  | acquiring
  /-- In `acquireWithLock`, about to call `tryLock`. -/
  | trying (conn : Session)
  /-- In `runOwnedLoop`, between two passes. -/
  | owning (conn : Session)
  /-- In `drainOnce`. -/
  | draining (conn : Session) (pass : Pass)
  /-- `runOwnedLoop` has returned, and `releaseLock` is next. -/
  | releasing (conn : Session)
  /-- `Run` has returned, or the process is gone. -/
  | stopped

/-- The processes, the database they share and the passes that are over. -/
structure Replicas where
  now : Int
  rows : List Row
  /-- The advisory locks, by key and session. -/
  locks : Locks Int Session
  /-- The sessions that were opened so far. -/
  opened : List Session
  /-- The sessions that have not ended. -/
  live : List Session
  /-- The connections at rest in the pools. -/
  idle : List Session
  phase : Nat → Phase
  ended : List Ended
  /-- The sends of passes whose session had ended. -/
  strays : List (Session × UUID)

/-- Processes that have just started on an empty outbox. -/
def Replicas.init (now : Int) : Replicas :=
  ⟨now, [], [], [], [], [], fun _ => .acquiring, [], []⟩

/-- The key of the lock: a hash of `'outbox.dispatcher.' + topic`. -/
def lockKey (hashtext : String → Int) (d : Dispatcher) : Int :=
  hashtext ("outbox.dispatcher." ++ d.topic)

/-- How a statement about the lock ends for its process. -/
inductive LockAnswer
  | done
  /-- It takes effect, but the process is told otherwise. -/
  | lost
  | failed
  deriving DecidableEq, Repr

/-- What can happen. -/
inductive ReplicaEvent
  | elapse (t : Nat)
  | publish (topic : String) (aggregateID : Option UUID) (payload : String)
      (headers : List (String × String)) (id : UUID) (createdAt : Int)
  /-- `pool.Acquire` hands out a connection at rest, or a new one. -/
  | acquire (n serial : Nat)
  /-- `pool.Acquire` fails or the context is done, and `Run` returns. -/
  | giveUp (n : Nat)
  | tryLock (n : Nat) (answer : LockAnswer)
  /-- `drainOnce` opens its transaction. -/
  | begin (n : Nat)
  /-- The transaction cannot be opened, or the context is done between two passes. -/
  | leave (n : Nat)
  /-- The next call of a pass is answered. -/
  | call (n : Nat) (input : Input)
  /-- `releaseLock` and `conn.Release`; `Run` returns if the loop ended with its context. -/
  | release (n : Nat) (answer : LockAnswer) (returns : Bool)
  /-- The process dies. -/
  | crash (n : Nat)
  /-- A session ends. -/
  | hangUp (conn : Session)

/-- The process that takes the step. -/
def ReplicaEvent.proc : ReplicaEvent → Option Nat
  | .acquire n _ => some n
  | .giveUp n => some n
  | .tryLock n _ => some n
  | .begin n => some n
  | .leave n => some n
  | .call n _ => some n
  | .release n _ _ => some n
  | .crash n => some n
  | _ => none

/-- The session that ends. -/
def ReplicaEvent.hangsUp : ReplicaEvent → Option Session
  | .hangUp conn => some conn
  | _ => none

/-- The event is one of `acquireWithLock` or of the end of `runOwnedLoop`. -/
def ReplicaEvent.quiet : ReplicaEvent → Bool
  | .acquire _ _ => true
  | .giveUp _ => true
  | .tryLock _ _ => true
  | .leave _ => true
  | .release _ _ _ => true
  | _ => false

/-- The answer can be given without the database. -/
def Input.isLocal : Input → Bool
  | .failed _ => true
  | .send _ => true
  | .draw _ => true
  | .clock => true
  | .commit (.failed _) => true
  | _ => false

/-- Where a process goes on after a call of its pass: an error ends `runOwnedLoop`. -/
def Phase.after (conn : Session) (p : Pass) : Phase :=
  match p.prog with
  | .call _ _ => .draining conn p
  | .ret _ => .owning conn
  | .throw _ => .releasing conn

/-- What a pass has sent by its last call. -/
def newSends (conn : Session) (p p' : Pass) : List (Session × UUID) :=
  (p'.sends.drop p.sends.length).map fun x => (conn, x.1)

/-- Set where a process is. -/
def Replicas.setPhase (s : Replicas) (n : Nat) (x : Phase) : Replicas :=
  { s with phase := Function.update s.phase n x }

/-- A pass is over for the database. -/
def Replicas.finish (s : Replicas) (p : Pass) : Replicas :=
  { s with
    rows := if p.committed then s.rows.map (applyLog p.log) else s.rows
    ended := s.ended ++ [⟨p.sends, p.log, p.committed⟩] }

/-- The pass a process makes on one of some sessions. -/
def Phase.passOn (conns : List Session) : Phase → Option Pass
  | .draining conn p => if conn ∈ conns then some p else none
  | _ => none

/-- The transaction of a pass, if there is one, is undone. -/
def Replicas.undo (s : Replicas) : Option Pass → Replicas
  | some p => s.finish { p with committed := false }
  | none => s

/-- The connection goes back to its pool, unless its session has ended. -/
def Replicas.rest (s : Replicas) (conn : Session) : Replicas :=
  { s with idle := if conn ∈ s.live then s.idle ++ [conn] else s.idle }

/-- The step function. -/
def replicaStep (hashtext : String → Int) (d : Dispatcher) (s : Replicas) :
    ReplicaEvent → Option Replicas
  | .elapse t => some { s with now := s.now + t }
  | .publish topic aggregateID payload headers id createdAt =>
    (publish topic aggregateID payload headers id createdAt).toOption.bind fun row =>
      if createdAt ≤ s.now ∧ s.rows.all (fun r => r.id ≠ id) then
        some { s with rows := s.rows ++ [row] }
      else none
  | .acquire n serial => match s.phase n with
    | .acquiring =>
      if Session.mk n serial ∈ s.idle then
        some ({ s with idle := s.idle.erase ⟨n, serial⟩ }.setPhase n (.trying ⟨n, serial⟩))
      else if Session.mk n serial ∉ s.opened then
        some ({ s with
          opened := s.opened ++ [Session.mk n serial]
          live := s.live ++ [Session.mk n serial] }.setPhase n (.trying ⟨n, serial⟩))
      else none
    | _ => none
  | .giveUp n => match s.phase n with
    | .acquiring => some (s.setPhase n .stopped)
    | _ => none
  | .tryLock n answer => match s.phase n with
    | .trying conn => match answer with
      | .failed => some (s.setPhase n .stopped)
      | .done =>
        if conn ∈ s.live then
          if s.locks.available conn [lockKey hashtext d] then
            some ({ s with locks := s.locks.acquire conn [lockKey hashtext d] }.setPhase n
              (.owning conn))
          else some ((s.rest conn).setPhase n .acquiring)
        else none
      | .lost =>
        if conn ∈ s.live then
          if s.locks.available conn [lockKey hashtext d] then
            some ({ s with locks := s.locks.acquire conn [lockKey hashtext d] }.setPhase n .stopped)
          else some (s.setPhase n .stopped)
        else none
    | _ => none
  | .begin n => match s.phase n with
    | .owning conn =>
      if conn ∈ s.live then
        some (s.setPhase n (.draining conn ⟨s.now, drainOnce d, [], [], [], false⟩))
      else none
    | _ => none
  | .leave n => match s.phase n with
    | .owning conn => some (s.setPhase n (.releasing conn))
    | _ => none
  | .call n input => match s.phase n with
    | .draining conn p => match p.answer d s.now s.rows input with
      | none => none
      | some p' =>
        if conn ∈ s.live then
          some ((if p'.over then s.finish p' else s).setPhase n (.after conn p'))
        else if input.isLocal then
          some ({ s with
            strays := s.strays ++ newSends conn p p' }.setPhase n (.after conn p'))
        else none
    | _ => none
  | .release n answer returns => match s.phase n with
    | .releasing conn =>
      if answer = .failed then
        some ((s.rest conn).setPhase n (if returns then .stopped else .acquiring))
      else if conn ∈ s.live then
        some ({ s.rest conn with
          locks := s.locks.unlock conn (lockKey hashtext d) }.setPhase n
            (if returns then .stopped else .acquiring))
      else none
    | _ => none
  | .crash n => some ((s.undo ((s.phase n).passOn s.live)).setPhase n .stopped)
  | .hangUp conn =>
    if conn ∈ s.live then
      some { s.undo ((s.phase conn.proc).passOn [conn]) with
        locks := s.locks.release conn
        live := s.live.filter fun c => c ≠ conn }
    else none

/-! ## What an event changes -/

/-- The connection a process has in its hands. -/
def Phase.conn : Phase → Option Session
  | .trying conn => some conn
  | .owning conn => some conn
  | .draining conn _ => some conn
  | .releasing conn => some conn
  | _ => none

/-- The connection on which a process owns the topic, as far as it knows. -/
def Phase.ownedConn : Phase → Option Session
  | .owning conn => some conn
  | .draining conn _ => some conn
  | .releasing conn => some conn
  | _ => none

theorem Phase.conn_of_ownedConn {x : Phase} {conn : Session} (h : x.ownedConn = some conn) :
    x.conn = some conn := by
  cases x <;> first | exact h | cases h

@[simp] theorem Phase.ownedConn_after (conn : Session) (p : Pass) :
    (Phase.after conn p).ownedConn = some conn := by
  unfold Phase.after
  split <;> rfl

section Fields

variable (s : Replicas) (n m : Nat) (x : Phase)

@[simp] theorem setPhase_self : (s.setPhase n x).phase n = x := by simp [Replicas.setPhase]

@[simp] theorem setPhase_ne (h : m ≠ n) : (s.setPhase n x).phase m = s.phase m := by
  simp [Replicas.setPhase, h]

end Fields

/-- The changes an event can make. -/
inductive ReplicaChange (key : Int) (d : Dispatcher) (s : Replicas) :
    ReplicaEvent → Replicas → Prop
  | elapse (t : Nat) : ReplicaChange key d s (.elapse t) { s with now := s.now + t }
  | publish {topic payload : String} {aggregateID : Option UUID}
      {headers : List (String × String)} {id : UUID} {createdAt : Int} {row : Row}
      (hrow : publish topic aggregateID payload headers id createdAt = .ok row)
      (htime : createdAt ≤ s.now) (hid : id ∉ s.rows.map Row.id) :
      ReplicaChange key d s (.publish topic aggregateID payload headers id createdAt)
        { s with rows := s.rows ++ [row] }
  | opens {n serial : Nat} (hphase : s.phase n = .acquiring)
      (hnew : Session.mk n serial ∉ s.opened) :
      ReplicaChange key d s (.acquire n serial) ({ s with
        opened := s.opened ++ [Session.mk n serial]
        live := s.live ++ [Session.mk n serial] }.setPhase n (.trying ⟨n, serial⟩))
  /-- A process outside a pass goes on without the lock table. -/
  | walks {e : ReplicaEvent} {n : Nat} {x : Phase} {idle : List Session}
      (hproc : e.proc = some n) (he : e.quiet = true)
      (hphase : ∀ conn p, s.phase n ≠ .draining conn p)
      (hx : ∀ conn ∈ x.conn, conn.proc = n ∨ (s.phase n).conn = some conn)
      (howned : ∀ conn ∈ x.ownedConn, (s.phase n).ownedConn = some conn)
      (hpass : ∀ conn p, x ≠ .draining conn p) :
      ReplicaChange key d s e ({ s with idle := idle }.setPhase n x)
  | locks {n : Nat} {answer : LockAnswer} {conn : Session} {x : Phase}
      (hphase : s.phase n = .trying conn) (hlive : conn ∈ s.live)
      (hfree : s.locks.available conn [key]) (hx : x = .owning conn ∨ x = .stopped) :
      ReplicaChange key d s (.tryLock n answer)
        ({ s with locks := s.locks.acquire conn [key] }.setPhase n x)
  | begins {n : Nat} {conn : Session} (hphase : s.phase n = .owning conn)
      (hlive : conn ∈ s.live) :
      ReplicaChange key d s (.begin n)
        (s.setPhase n (.draining conn ⟨s.now, drainOnce d, [], [], [], false⟩))
  | calls {n : Nat} {input : Input} {conn : Session} {p p' : Pass}
      (hphase : s.phase n = .draining conn p) (hlive : conn ∈ s.live)
      (hanswer : p.answer d s.now s.rows input = some p') :
      ReplicaChange key d s (.call n input)
        ((if p'.over then s.finish p' else s).setPhase n (.after conn p'))
  /-- A process whose session has ended goes on until its next statement. -/
  | strays {n : Nat} {input : Input} {conn : Session} {p p' : Pass}
      (hphase : s.phase n = .draining conn p) (hdead : conn ∉ s.live)
      (hlocal : input.isLocal = true) (hanswer : p.answer d s.now s.rows input = some p') :
      ReplicaChange key d s (.call n input)
        ({ s with strays := s.strays ++ newSends conn p p' }.setPhase n (.after conn p'))
  | unlocks {n : Nat} {answer : LockAnswer} {returns : Bool} {conn : Session} {x : Phase}
      {idle : List Session} (hphase : s.phase n = .releasing conn) (hlive : conn ∈ s.live)
      (hx : x = .stopped ∨ x = .acquiring) :
      ReplicaChange key d s (.release n answer returns)
        ({ s with idle := idle, locks := s.locks.unlock conn key }.setPhase n x)
  | crashes (n : Nat) : ReplicaChange key d s (.crash n)
      ((s.undo ((s.phase n).passOn s.live)).setPhase n .stopped)
  | hangsUp {conn : Session} (hlive : conn ∈ s.live) : ReplicaChange key d s (.hangUp conn)
      { s.undo ((s.phase conn.proc).passOn [conn]) with
        locks := s.locks.release conn
        live := s.live.filter fun c => c ≠ conn }

section Change

variable {hashtext : String → Int} {d : Dispatcher} {s t : Replicas} {e : ReplicaEvent}

/-- Every event makes one of these changes. -/
theorem replicaChange_of_step (h : replicaStep hashtext d s e = some t) :
    ReplicaChange (lockKey hashtext d) d s e t := by
  cases e with
  | elapse n =>
    cases h
    exact .elapse n
  | publish topic aggregateID payload headers id createdAt =>
    obtain ⟨row, hrow, h⟩ := Option.bind_eq_some_iff.mp h
    split at h <;> cases h
    rename_i hguard
    cases hpublish : publish topic aggregateID payload headers id createdAt with
    | error err =>
      rw [hpublish] at hrow
      cases hrow
    | ok row' =>
      rw [hpublish] at hrow
      cases hrow
      exact .publish hpublish hguard.1 (by simpa using hguard.2)
  | acquire n serial =>
    simp only [replicaStep] at h
    split at h
    · rename_i hphase
      split at h
      · cases h
        exact .walks rfl rfl (by simp [hphase]) (by simp [Phase.conn]) (by simp [Phase.ownedConn])
          (by simp)
      · split at h <;> cases h
        exact .opens hphase ‹_›
    · cases h
  | giveUp n =>
    simp only [replicaStep] at h
    split at h <;> cases h
    rename_i hphase
    exact .walks rfl rfl (by simp [hphase]) (by simp [Phase.conn]) (by simp [Phase.ownedConn])
      (by simp)
  | tryLock n answer =>
    simp only [replicaStep] at h
    split at h
    · rename_i conn hphase
      have hstay (x : Phase) (idle : List Session) (hx : x = .stopped ∨ x = .acquiring) :
          ReplicaChange (lockKey hashtext d) d s (.tryLock n answer)
            ({ s with idle := idle }.setPhase n x) := by
        refine .walks rfl rfl (by simp [hphase]) ?_ ?_ ?_ <;> rcases hx with rfl | rfl <;>
          simp [Phase.conn, Phase.ownedConn]
      cases answer with
      | failed =>
        cases h
        exact hstay _ _ (.inl rfl)
      | done =>
        simp only at h
        split at h
        · split at h <;> cases h
          · exact .locks hphase ‹_› ‹_› (.inl rfl)
          · exact hstay _ _ (.inr rfl)
        · cases h
      | lost =>
        simp only at h
        split at h
        · split at h <;> cases h
          · exact .locks hphase ‹_› ‹_› (.inr rfl)
          · exact hstay _ _ (.inl rfl)
        · cases h
    · cases h
  | begin n =>
    simp only [replicaStep] at h
    split at h
    · split at h <;> cases h
      exact .begins ‹_› ‹_›
    · cases h
  | leave n =>
    simp only [replicaStep] at h
    split at h <;> cases h
    rename_i conn hphase
    exact .walks rfl rfl (by simp [hphase]) (by simp [Phase.conn, hphase])
      (by simp [Phase.ownedConn, hphase]) (by simp)
  | call n input =>
    simp only [replicaStep] at h
    split at h
    · split at h
      · cases h
      · split at h
        · cases h
          exact .calls ‹_› ‹_› ‹_›
        · split at h <;> cases h
          exact .strays ‹_› ‹_› ‹_› ‹_›
    · cases h
  | release n answer returns =>
    simp only [replicaStep] at h
    split at h
    · rename_i conn hphase
      have hx : (if returns = true then Phase.stopped else .acquiring) = .stopped ∨
          (if returns = true then Phase.stopped else .acquiring) = .acquiring := by
        cases returns <;> simp
      split at h
      · cases h
        refine .walks rfl rfl (by simp [hphase]) ?_ ?_ ?_ <;> rcases hx with hx | hx <;>
          simp [hx, Phase.conn, Phase.ownedConn]
      · split at h <;> cases h
        exact .unlocks hphase ‹_› hx
    · cases h
  | crash n =>
    cases h
    exact .crashes n
  | hangUp conn =>
    simp only [replicaStep] at h
    split at h <;> cases h
    exact .hangsUp ‹_›

end Change

/-! ## One owner at a time -/

@[simp] theorem finish_live (s : Replicas) (p : Pass) : (s.finish p).live = s.live := rfl

@[simp] theorem undo_live (s : Replicas) (o : Option Pass) : (s.undo o).live = s.live := by
  cases o <;> rfl

@[simp] theorem undo_locks (s : Replicas) (o : Option Pass) : (s.undo o).locks = s.locks := by
  cases o <;> rfl

@[simp] theorem undo_phase (s : Replicas) (o : Option Pass) : (s.undo o).phase = s.phase := by
  cases o <;> rfl

@[simp] theorem undo_opened (s : Replicas) (o : Option Pass) : (s.undo o).opened = s.opened := by
  cases o <;> rfl

@[simp] theorem undo_now (s : Replicas) (o : Option Pass) : (s.undo o).now = s.now := by
  cases o <;> rfl

/-- Who holds the lock. -/
structure Guarded (key : Int) (s : Replicas) : Prop where
  exclusive : s.locks.Exclusive
  /-- A process uses connections of its own pool. -/
  own : ∀ n conn, (s.phase n).conn = some conn → conn.proc = n
  /-- The session of a process that owns the topic holds the lock until it ends. -/
  locked : ∀ n conn, (s.phase n).ownedConn = some conn → conn ∈ s.live → (key, conn) ∈ s.locks
  /-- A session that has ended is not opened again. -/
  opened : s.live ⊆ s.opened

section Guarded

variable {key : Int} {d : Dispatcher} {s t : Replicas} {e : ReplicaEvent}

theorem Guarded.init (key : Int) (now : Int) : Guarded key (.init now) where
  exclusive := Locks.exclusive_nil
  own := by
    intro n conn h
    cases h
  locked := by
    intro n conn h
    cases h
  opened := by simp [Replicas.init]

/-- Of the sessions that have not ended one holds the lock. -/
theorem Guarded.owner_eq (hs : Guarded key s) {n m : Nat} {conn conn' : Session}
    (hn : (s.phase n).ownedConn = some conn) (hm : (s.phase m).ownedConn = some conn')
    (hlive : conn ∈ s.live) (hlive' : conn' ∈ s.live) : n = m := by
  have hsame :=
    hs.exclusive key conn conn' (hs.locked n conn hn hlive) (hs.locked m conn' hm hlive')
  rw [← hs.own n conn (Phase.conn_of_ownedConn hn), hsame,
    hs.own m conn' (Phase.conn_of_ownedConn hm)]

/-- A process goes on, and the lock stays with the sessions of all others. -/
theorem Guarded.setPhase (hs : Guarded key s) {n : Nat} {x : Phase} {t : Replicas}
    (hphase : t.phase = Function.update s.phase n x) (hexclusive : t.locks.Exclusive)
    (hopened : t.live ⊆ t.opened) (hown : ∀ conn, x.conn = some conn → conn.proc = n)
    (hself : ∀ conn, x.ownedConn = some conn → conn ∈ t.live → (key, conn) ∈ t.locks)
    (hothers : ∀ conn, conn.proc ≠ n → conn ∈ t.live →
      conn ∈ s.live ∧ ((key, conn) ∈ s.locks → (key, conn) ∈ t.locks)) : Guarded key t where
  exclusive := hexclusive
  opened := hopened
  own := by
    intro m conn h
    rw [hphase] at h
    obtain rfl | hne := eq_or_ne m n
    · rw [Function.update_self] at h
      exact hown conn h
    · rw [Function.update_of_ne hne] at h
      exact hs.own m conn h
  locked := by
    intro m conn h hlive
    rw [hphase] at h
    obtain rfl | hne := eq_or_ne m n
    · rw [Function.update_self] at h
      exact hself conn h hlive
    · rw [Function.update_of_ne hne] at h
      have hproc : conn.proc = m := hs.own m conn (Phase.conn_of_ownedConn h)
      obtain ⟨hbefore, hkeep⟩ := hothers conn (hproc ▸ hne) hlive
      exact hkeep (hs.locked m conn h hbefore)

/-- A call of a pass keeps its session and its lock, whether the pass goes on or is over. -/
theorem Guarded.after (hs : Guarded key s) {u : Replicas} {n : Nat} {conn : Session} {p : Pass}
    (hlocks : u.locks = s.locks) (hlive : u.live = s.live) (hopened : u.opened = s.opened)
    (hphase : u.phase = s.phase) (hown : conn.proc = n) (hlocked : (key, conn) ∈ s.locks) :
    Guarded key (u.setPhase n (.after conn p)) := by
  have hafter : ∀ conn', (Phase.after conn p).conn = some conn' → conn' = conn := by
    intro conn' h
    rw [Phase.conn_of_ownedConn (Phase.ownedConn_after conn p)] at h
    exact (Option.some.inj h).symm
  refine hs.setPhase (n := n) (x := .after conn p) (by simp [Replicas.setPhase, hphase])
    (hlocks ▸ hs.exclusive) (by simpa [Replicas.setPhase, hlive, hopened] using hs.opened) ?_ ?_ ?_
  · intro conn' h
    rw [hafter conn' h]
    exact hown
  · intro conn' h _
    rw [hafter conn' (Phase.conn_of_ownedConn h)]
    exact hlocks ▸ hlocked
  · exact fun conn' _ h => ⟨hlive ▸ h, fun hmem => hlocks ▸ hmem⟩

theorem guarded_change (hs : Guarded key s) (h : ReplicaChange key d s e t) : Guarded key t := by
  cases h with
  | elapse n => exact ⟨hs.exclusive, hs.own, hs.locked, hs.opened⟩
  | publish => exact ⟨hs.exclusive, hs.own, hs.locked, hs.opened⟩
  | @opens n serial hphase hnew =>
    refine hs.setPhase rfl hs.exclusive ?_ ?_ ?_ ?_
    · exact List.append_subset.mpr ⟨fun c hc => List.mem_append_left _ (hs.opened hc),
        List.subset_append_right _ _⟩
    · rintro conn ⟨⟩
      rfl
    · rintro conn ⟨⟩
    · intro conn hproc hlive
      refine ⟨(List.mem_append.mp hlive).resolve_right fun hmem => ?_, id⟩
      rw [List.mem_singleton.mp hmem] at hproc
      exact hproc rfl
  | @walks _ n x idle _ _ hphase hx howned =>
    refine hs.setPhase rfl hs.exclusive hs.opened ?_ ?_ fun conn _ hlive => ⟨hlive, id⟩
    · intro conn hconn
      exact (hx conn hconn).elim id (hs.own n conn)
    · intro conn hconn hlive
      exact hs.locked n conn (howned conn hconn) hlive
  | @locks n answer conn x hphase hlive hfree hx =>
    have hconn : conn.proc = n := hs.own n conn (by rw [hphase]; rfl)
    refine hs.setPhase rfl (hs.exclusive.acquire hfree) hs.opened ?_ ?_ ?_
    · rcases hx with rfl | rfl
      · rintro conn' ⟨⟩
        exact hconn
      · rintro conn' ⟨⟩
    · rcases hx with rfl | rfl
      · rintro conn' ⟨⟩ -
        exact Locks.mem_acquire.mpr (.inl ⟨List.mem_singleton.mpr rfl, rfl⟩)
      · rintro conn' ⟨⟩
    · exact fun conn' _ hlive' => ⟨hlive', fun hmem => Locks.mem_acquire.mpr (.inr hmem)⟩
  | @begins n conn hphase hlive =>
    refine hs.setPhase rfl hs.exclusive hs.opened ?_ ?_ fun conn _ hlive => ⟨hlive, id⟩
    · rintro conn' ⟨⟩
      exact hs.own n conn (by rw [hphase]; rfl)
    · rintro conn' ⟨⟩
      exact hs.locked n conn (by rw [hphase]; rfl)
  | @calls n input conn p p' hphase hlive hanswer =>
    have hown : conn.proc = n := hs.own n conn (by rw [hphase]; rfl)
    have hlocked := hs.locked n conn (by rw [hphase]; rfl) hlive
    split
    · exact hs.after rfl rfl rfl rfl hown hlocked
    · exact hs.after rfl rfl rfl rfl hown hlocked
  | @strays n input conn p p' hphase hdead hlocal hanswer =>
    refine hs.setPhase rfl hs.exclusive hs.opened ?_ ?_ fun conn _ hlive => ⟨hlive, id⟩
    · intro conn' h
      rw [Phase.conn_of_ownedConn (Phase.ownedConn_after conn p')] at h
      cases h
      exact hs.own n conn (by rw [hphase]; rfl)
    · intro conn' h hlive
      rw [Phase.ownedConn_after] at h
      cases h
      exact absurd hlive hdead
  | @unlocks n answer returns conn x idle hphase hlive hx =>
    have hconn : conn.proc = n := hs.own n conn (by rw [hphase]; rfl)
    refine hs.setPhase rfl (hs.exclusive.unlock conn key) hs.opened ?_ ?_ ?_
    · rcases hx with rfl | rfl <;> rintro conn' ⟨⟩
    · rcases hx with rfl | rfl <;> rintro conn' ⟨⟩
    · intro conn' hproc hlive'
      refine ⟨hlive', (Locks.mem_unlock_of_ne ?_).mpr⟩
      rintro rfl
      exact hproc hconn
  | crashes n =>
    refine hs.setPhase (n := n) (x := .stopped) (by simp [Replicas.setPhase])
      (by simpa [Replicas.setPhase] using hs.exclusive)
      (by simpa [Replicas.setPhase] using hs.opened) ?_ ?_ ?_
    · rintro conn ⟨⟩
    · rintro conn ⟨⟩
    · intro conn _ hlive
      exact ⟨by simpa [Replicas.setPhase] using hlive, by simp [Replicas.setPhase]⟩
  | @hangsUp conn hlive =>
    refine ⟨hs.exclusive.release conn, by simpa using hs.own, ?_, ?_⟩
    · intro n conn' h hlive'
      obtain ⟨hbefore, hne⟩ : conn' ∈ s.live ∧ conn' ≠ conn := by simpa using hlive'
      exact Locks.mem_release.mpr ⟨hs.locked n conn' (by simpa using h) hbefore, hne⟩
    · intro conn' hlive'
      have hbefore : conn' ∈ s.live := (List.mem_filter.mp hlive').1
      simpa using hs.opened hbefore

end Guarded

section Runs

variable {hashtext : String → Int} {d : Dispatcher} {now : Int} {s t : Replicas}
  {es : List ReplicaEvent}

/-- Every run keeps the lock guarded. -/
theorem guarded_of_path {ok : Replicas → ReplicaEvent → Prop}
    (h : Path (replicaStep hashtext d) ok (.init now) es s) : Guarded (lockKey hashtext d) s :=
  h.invariant (fun _ _ _ hs _ hst => guarded_change hs (replicaChange_of_step hst))
    (.init _ now)

/-- Of all processes on a topic at most one is between the success of its `tryLock` and the end of
its `releaseLock` on a session that has not ended. -/
theorem one_owner_at_a_time (h : Path (replicaStep hashtext d) anyStep (.init now) es s) :
    ∀ n m, ∀ conn ∈ (s.phase n).ownedConn, ∀ conn' ∈ (s.phase m).ownedConn,
      conn ∈ s.live → conn' ∈ s.live → n = m :=
  fun _ _ _ hn _ hm => (guarded_of_path h).owner_eq hn hm

/-- The session goes on, and its process does nothing. -/
def LeavesAlone (conn : Session) (_ : Replicas) (e : ReplicaEvent) : Prop :=
  e.proc ≠ some conn.proc ∧ e.hangsUp ≠ some conn

instance (conn : Session) (s : Replicas) (e : ReplicaEvent) : Decidable (LeavesAlone conn s e) :=
  inferInstanceAs (Decidable (_ ∧ _))

/-- A lock stays with its session while the session lasts and its process does nothing. -/
theorem ReplicaChange.lock_kept {key : Int} {e : ReplicaEvent} {conn : Session}
    (hs : Guarded key s) (h : ReplicaChange key d s e t) (hok : LeavesAlone conn s e)
    (hlock : (key, conn) ∈ s.locks) : (key, conn) ∈ t.locks := by
  cases h with
  | locks => exact Locks.mem_acquire.mpr (.inr hlock)
  | @unlocks n answer returns conn' x idle hphase =>
    refine (Locks.mem_unlock_of_ne ?_).mpr hlock
    rintro rfl
    have hproc : conn.proc = n := hs.own n conn (by rw [hphase]; rfl)
    exact hok.1 (congrArg some hproc.symm)
  | @hangsUp conn' _ =>
    exact Locks.mem_release.mpr ⟨hlock, fun heq => hok.2 (congrArg some heq.symm)⟩
  | crashes n => simpa [Replicas.setPhase] using hlock
  | calls =>
    split <;> exact hlock
  | elapse _ => exact hlock
  | publish => exact hlock
  | opens => exact hlock
  | walks => exact hlock
  | begins => exact hlock
  | strays => exact hlock

/-- A lock that is left behind, by a failed unlock or by a process that is gone, keeps every other
process from owning the topic for as long as its session lasts. -/
theorem left_lock_keeps_out {past : List ReplicaEvent} {conn : Session}
    (hs : Path (replicaStep hashtext d) anyStep (.init now) past s)
    (hlock : (lockKey hashtext d, conn) ∈ s.locks)
    (h : Path (replicaStep hashtext d) (LeavesAlone conn) s es t) :
    ∀ n, n ≠ conn.proc → ∀ conn' ∈ (t.phase n).ownedConn, conn' ∉ t.live := by
  have hstep : ∀ s e t, Guarded (lockKey hashtext d) s ∧ (lockKey hashtext d, conn) ∈ s.locks →
      LeavesAlone conn s e → replicaStep hashtext d s e = some t →
      Guarded (lockKey hashtext d) t ∧ (lockKey hashtext d, conn) ∈ t.locks := by
    intro s e t hs hok hst
    have hchange := replicaChange_of_step hst
    exact ⟨guarded_change hs.1 hchange, hchange.lock_kept hs.1 hok hs.2⟩
  obtain ⟨hguarded, hlock'⟩ := h.invariant hstep ⟨guarded_of_path hs, hlock⟩
  intro n hne conn' hn hlive
  have hsame := hguarded.exclusive _ _ _ (hguarded.locked n conn' hn hlive) hlock'
  exact hne ((hguarded.own n conn' (Phase.conn_of_ownedConn hn)).symm.trans
    (congrArg Session.proc hsame))

end Runs

/-! ## Two processes -/

/-- A process opens a connection and owns the topic. -/
def owns (n serial : Nat) : List ReplicaEvent := [.acquire n serial, .tryLock n .done]

/-- A process begins a pass and its session ends, and another process takes the topic over. -/
def takenOver : List ReplicaEvent :=
  owns 0 0 ++ [.begin 0, .acquire 1 0, .tryLock 1 .done, .hangUp ⟨0, 0⟩] ++ owns 1 0

theorem one_owner_at_a_time_takenOver : ∃ s,
    Path (replicaStep (fun _ => 7) completions) anyStep (.init 0) takenOver s ∧
      (s.phase 0).ownedConn = some ⟨0, 0⟩ ∧ (s.phase 1).ownedConn = some ⟨1, 0⟩ ∧
      ∀ n, ∀ conn ∈ (s.phase n).ownedConn, conn ∈ s.live → n = 1 := by
  obtain ⟨s, hs, hzero, hone, hlive⟩ : ∃ s,
      run (replicaStep (fun _ => 7) completions) (.init 0) takenOver = some s ∧
        (s.phase 0).ownedConn = some ⟨0, 0⟩ ∧ (s.phase 1).ownedConn = some ⟨1, 0⟩ ∧
        ⟨1, 0⟩ ∈ s.live :=
    exists_of_any (by decide +kernel)
  exact ⟨s, .of_run hs, hzero, hone, fun n conn hn hconn =>
    one_owner_at_a_time (.of_run hs) n 1 conn hn ⟨1, 0⟩ hone hconn hlive⟩

/-- A process leaves its loop, and its unlock fails. -/
def unlockFails : List ReplicaEvent := owns 0 0 ++ [.leave 0, .release 0 .failed false]

/-- Another process tries the lock. -/
def triesInVain : List ReplicaEvent := [.acquire 1 0, .tryLock 1 .done]

theorem left_lock_keeps_out_triesInVain : ∃ s t,
    Path (replicaStep (fun _ => 7) completions) anyStep (.init 0) unlockFails s ∧
      Path (replicaStep (fun _ => 7) completions) (LeavesAlone ⟨0, 0⟩) s triesInVain t ∧
      (t.phase 0).ownedConn = none ∧
      ∀ n, n ≠ 0 → ∀ conn ∈ (t.phase n).ownedConn, conn ∉ t.live := by
  obtain ⟨s, hs, hlock, t, ht, hzero⟩ : ∃ s,
      run (replicaStep (fun _ => 7) completions) (.init 0) unlockFails = some s ∧
        (lockKey (fun _ => 7) completions, ⟨0, 0⟩) ∈ s.locks ∧
        ∃ t ∈ runIf (replicaStep (fun _ => 7) completions) (LeavesAlone ⟨0, 0⟩) s triesInVain,
          (t.phase 0).ownedConn = none :=
    exists_of_any (by decide +kernel)
  exact ⟨s, t, .of_run hs, .of_runIf ht, hzero,
    left_lock_keeps_out (.of_run hs) hlock (.of_runIf ht)⟩

end Selatpay.Outbox
