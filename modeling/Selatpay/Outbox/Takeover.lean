import Selatpay.Outbox.Replicas

/-!
# Many dispatchers refine one

What any number of processes do to a topic is what one dispatcher does: the pass of
the process whose session is alive is the pass of the one dispatcher, a session that
ends is a crash of it, and a process that goes on without its session does nothing to
the table. It cannot go on for long: it sends one message at most before its next
statement fails.
-/

namespace Selatpay.Outbox

/-- The pass a process makes on a live session. -/
def Replicas.openPass (s : Replicas) (n : Nat) : Option Pass := (s.phase n).passOn s.live

/-- What an event is for the one dispatcher. -/
def translate (s : Replicas) : ReplicaEvent → List Event
  | .elapse t => [.elapse t]
  | .publish topic aggregateID payload headers id createdAt =>
    [.publish topic aggregateID payload headers id createdAt]
  | .begin _ => [.begin]
  | .call n input => if (s.openPass n).isSome then [.call input] else []
  | .crash n => if (s.openPass n).isSome then [.crash] else []
  | .hangUp conn => if ((s.phase conn.proc).passOn [conn]).isSome then [.crash] else []
  | _ => []

/-- The one dispatcher has the same table, and its pass is the one on a live session. -/
structure Shadows (key : Int) (d : Dispatcher) (epoch : Int) (s : Replicas) (t : World) :
    Prop where
  guarded : Guarded key s
  inv : Inv d epoch t
  now : t.now = s.now
  rows : t.rows = s.rows
  ended : t.ended = s.ended
  pass : ∀ p, t.pass = some p ↔ ∃ n, s.openPass n = some p

section Passes

variable {s s' : Replicas} {conns : List Session} {x : Phase} {p : Pass} {n : Nat}

theorem Phase.passOn_eq_some :
    x.passOn conns = some p ↔ ∃ conn, x = .draining conn p ∧ conn ∈ conns := by
  cases x with
  | draining conn q =>
    simp only [Phase.passOn, Phase.draining.injEq]
    constructor
    · intro h
      split at h <;> cases h
      exact ⟨conn, ⟨rfl, rfl⟩, ‹_›⟩
    · rintro ⟨_, ⟨rfl, rfl⟩, hconn⟩
      simp [hconn]
  | acquiring => simp [Phase.passOn]
  | trying conn => simp [Phase.passOn]
  | owning conn => simp [Phase.passOn]
  | releasing conn => simp [Phase.passOn]
  | stopped => simp [Phase.passOn]

/-- A pass is only made in `drainOnce`. -/
theorem Phase.passOn_eq_none (h : ∀ conn p, x ≠ .draining conn p) : x.passOn conns = none := by
  rw [Option.eq_none_iff_forall_ne_some]
  intro p hp
  obtain ⟨conn, hx, -⟩ := passOn_eq_some.mp hp
  exact h conn p hx

/-- Only whether the session of the pass is among them counts. -/
theorem Phase.passOn_congr {conns' : List Session}
    (h : ∀ conn p, x = .draining conn p → (conn ∈ conns ↔ conn ∈ conns')) :
    x.passOn conns = x.passOn conns' := by
  cases x with
  | draining conn q => simp [Phase.passOn, h conn q rfl]
  | _ => rfl

/-- A process goes on with the pass as long as it is not over. -/
theorem Phase.passOn_after {conn : Session} (hconn : conn ∈ conns) (p : Pass) :
    (Phase.after conn p).passOn conns = if p.over then none else some p := by
  unfold Phase.after Pass.over
  cases p.prog <;> simp [Phase.passOn, hconn]

/-- A process in a pass after a call has the same session, and its pass is not over. -/
theorem Phase.after_eq_draining {conn conn' : Session} {p q : Pass}
    (h : Phase.after conn p = .draining conn' q) : conn' = conn ∧ q = p ∧ p.over = false := by
  unfold Phase.after at h
  split at h <;> cases h
  exact ⟨rfl, rfl, by simp [Pass.over, *]⟩

/-- A process without its session makes no pass. -/
theorem Phase.passOn_after_dead {conn : Session} (hconn : conn ∉ conns) (p : Pass) :
    (Phase.after conn p).passOn conns = none := by
  unfold Phase.after
  cases p.prog <;> simp [Phase.passOn, hconn]

end Passes

section Shadows

variable {key : Int} {d : Dispatcher} {epoch : Int} {s s' : Replicas} {t : World} {n : Nat}

/-- While a process owns the topic on a live session, no other one makes a pass. -/
theorem Guarded.alone (hs : Guarded key s) {conn : Session}
    (hn : (s.phase n).ownedConn = some conn) (hlive : conn ∈ s.live) :
    ∀ m, m ≠ n → s.openPass m = none := by
  intro m hne
  rw [Option.eq_none_iff_forall_ne_some]
  intro p hp
  obtain ⟨conn', hm, hlive'⟩ := Phase.passOn_eq_some.mp hp
  exact hne (hs.owner_eq (by rw [hm]; rfl) hn hlive' hlive)

/-- The pass of a process on a live session is the one pass. -/
theorem Shadows.pass_eq (h : Shadows key d epoch s t) {p : Pass} (hp : s.openPass n = some p) :
    t.pass = some p :=
  (h.pass p).mpr ⟨n, hp⟩

/-- Without an open pass the one dispatcher makes none. -/
theorem Shadows.pass_eq_none (h : Shadows key d epoch s t) (hn : ∀ m, s.openPass m = none) :
    t.pass = none := by
  rw [Option.eq_none_iff_forall_ne_some]
  intro p hp
  obtain ⟨m, hm⟩ := (h.pass p).mp hp
  rw [hn m] at hm
  cases hm

/-- An event that changes no table and no pass on a live session. -/
theorem Shadows.unmoved (h : Shadows key d epoch s t) (hguarded : Guarded key s')
    (hnow : s'.now = s.now) (hrows : s'.rows = s.rows) (hended : s'.ended = s.ended)
    (hpass : ∀ n, s'.openPass n = s.openPass n) : Shadows key d epoch s' t where
  guarded := hguarded
  inv := h.inv
  now := h.now.trans hnow.symm
  rows := h.rows.trans hrows.symm
  ended := h.ended.trans hended.symm
  pass := by simpa only [hpass] using h.pass

/-- An event of the only process that makes a pass. -/
theorem Shadows.moved {t' : World} {e : Event} (h : Shadows key d epoch s t)
    (hguarded : Guarded key s') (hstep : step d t e = some t') (hnow : t'.now = s'.now)
    (hrows : t'.rows = s'.rows) (hended : t'.ended = s'.ended)
    (halone : ∀ m, m ≠ n → s'.openPass m = none) (hpass : t'.pass = s'.openPass n) :
    Shadows key d epoch s' t' where
  guarded := hguarded
  inv := inv_step h.inv hstep
  now := hnow
  rows := hrows
  ended := hended
  pass := by
    intro p
    rw [hpass]
    refine ⟨fun hp => ⟨n, hp⟩, fun ⟨m, hm⟩ => ?_⟩
    obtain rfl | hne := eq_or_ne m n
    · exact hm
    · rw [halone m hne] at hm
      cases hm

/-- The open passes after one process has gone on. -/
theorem openPass_setPhase (s : Replicas) (x : Phase) (m : Nat) :
    (s.setPhase n x).openPass m = if m = n then x.passOn s.live else s.openPass m := by
  split
  · next h =>
    subst h
    simp [Replicas.openPass, Replicas.setPhase]
  · next h => simp [Replicas.openPass, Replicas.setPhase, h]

/-- The open passes when a process goes on outside a pass. -/
theorem openPass_outside {x : Phase} (hphase : ∀ conn p, s.phase n ≠ .draining conn p)
    (hx : ∀ conn p, x ≠ .draining conn p) (m : Nat) :
    (s.setPhase n x).openPass m = s.openPass m := by
  rw [openPass_setPhase]
  split
  · next h =>
    subst h
    rw [Phase.passOn_eq_none hx, Replicas.openPass, Phase.passOn_eq_none hphase]
  · rfl

end Shadows

section Simulation

variable {key : Int} {d : Dispatcher} {epoch : Int} {s s' : Replicas} {t : World}
  {e : ReplicaEvent}

/-- A transaction that is undone is a crash of the one dispatcher. -/
theorem Shadows.undone {n : Nat} {o : Option Pass} (h : Shadows key d epoch s t)
    (hguarded : Guarded key s') (hnow : s'.now = s.now) (hrows : s'.rows = (s.undo o).rows)
    (hended : s'.ended = (s.undo o).ended) (hopen : ∀ p, o = some p → s.openPass n = some p)
    (hpass : ∀ m, s'.openPass m = if o.isSome ∧ m = n then none else s.openPass m) :
    ∃ t', run (step d) t (if o.isSome then [.crash] else []) = some t' ∧
      Shadows key d epoch s' t' := by
  cases o with
  | none => exact ⟨t, rfl, h.unmoved hguarded hnow hrows hended (by simpa using hpass)⟩
  | some p =>
    obtain ⟨conn, hphase, hlive⟩ := Phase.passOn_eq_some.mp (hopen p rfl)
    have hstep : step d t .crash = some (t.finish { p with committed := false }) := by
      simp [step, h.pass_eq (hopen p rfl)]
    refine ⟨_, by simp [run, hstep], h.moved (n := n) hguarded hstep ?_ ?_ ?_ ?_ ?_⟩
    · exact h.now.trans hnow.symm
    · exact h.rows.trans hrows.symm
    · simp [World.finish, Replicas.undo, Replicas.finish, hended, h.ended]
    · intro m hne
      rw [hpass m, if_neg (by simp [hne])]
      exact h.guarded.alone (by rw [hphase]; rfl) hlive m hne
    · rw [hpass n, if_pos (by simp)]
      rfl

/-- One dispatcher can do what any of the processes does. -/
theorem Shadows.change (h : Shadows key d epoch s t) (hchange : ReplicaChange key d s e s') :
    ∃ t', run (step d) t (translate s e) = some t' ∧ Shadows key d epoch s' t' := by
  have hguarded := guarded_change h.guarded hchange
  have hstay (htr : translate s e = []) (hnow : s'.now = s.now) (hrows : s'.rows = s.rows)
      (hended : s'.ended = s.ended) (hpass : ∀ n, s'.openPass n = s.openPass n) :
      ∃ t', run (step d) t (translate s e) = some t' ∧ Shadows key d epoch s' t' :=
    ⟨t, by rw [htr]; rfl, h.unmoved hguarded hnow hrows hended hpass⟩
  cases hchange with
  | elapse n =>
    have hstep : step d t (.elapse n) = some { t with now := t.now + n } := rfl
    exact ⟨_, rfl, hguarded, inv_step h.inv hstep, by simp [h.now], h.rows, h.ended, h.pass⟩
  | @publish topic payload aggregateID headers id createdAt row hrow htime hid =>
    have hstep : step d t (.publish topic aggregateID payload headers id createdAt) =
        some { t with rows := t.rows ++ [row] } := by
      simp [step, hrow, h.now, h.rows, htime, hid]
    exact ⟨_, by simp [translate, run, hstep], hguarded, inv_step h.inv hstep, h.now,
      by simp [h.rows], h.ended, h.pass⟩
  | @opens n serial hphase hnew =>
    refine hstay rfl rfl rfl rfl fun m => ?_
    obtain rfl | hne := eq_or_ne m n
    · simp [Replicas.openPass, hphase, Phase.passOn]
    · have hown : ∀ conn p, s.phase m = .draining conn p → conn ≠ ⟨n, serial⟩ := by
        rintro _ p hm rfl
        exact hne (h.guarded.own m _ (by rw [hm]; rfl)).symm
      simp only [Replicas.openPass, setPhase_ne _ _ _ _ hne]
      exact Phase.passOn_congr fun conn p hm => by simp [Replicas.setPhase, hown conn p hm]
  | @walks _ n x idle hproc he hphase hx howned hpass =>
    refine hstay ?_ rfl rfl rfl (openPass_outside hphase hpass)
    cases e <;> first | rfl | cases he
  | @locks n answer conn x hphase hlive hfree hx =>
    refine hstay rfl rfl rfl rfl (openPass_outside ?_ ?_)
    · simp [hphase]
    · rcases hx with rfl | rfl <;> simp
  | @unlocks n answer returns conn x idle hphase hlive hx =>
    refine hstay rfl rfl rfl rfl (openPass_outside ?_ ?_)
    · simp [hphase]
    · rcases hx with rfl | rfl <;> simp
  | @begins n conn hphase hlive =>
    have halone := h.guarded.alone (n := n) (by rw [hphase]; rfl) hlive
    have hnone : t.pass = none := by
      refine h.pass_eq_none fun m => ?_
      obtain rfl | hne := eq_or_ne m n
      · simp [Replicas.openPass, hphase, Phase.passOn]
      · exact halone m hne
    have hstep : step d t .begin =
        some { t with pass := some ⟨t.now, drainOnce d, [], [], [], false⟩ } := by
      simp [step, hnone]
    refine ⟨_, by simp [translate, run, hstep], h.moved (n := n) hguarded hstep h.now h.rows
      h.ended ?_ ?_⟩
    · intro m hne
      rw [openPass_setPhase, if_neg hne]
      exact halone m hne
    · simp [openPass_setPhase, Phase.passOn, hlive, h.now]
  | @calls n input conn p p' hphase hlive hanswer =>
    have halone := h.guarded.alone (n := n) (by rw [hphase]; rfl) hlive
    have hopen : s.openPass n = some p := Phase.passOn_eq_some.mpr ⟨conn, hphase, hlive⟩
    have hstep : step d t (.call input) =
        some (if p'.over then t.finish p' else { t with pass := some p' }) := by
      simp [step, h.pass_eq hopen, h.now, h.rows, hanswer]
    refine ⟨_, by simp [translate, run, hopen, hstep],
      h.moved (n := n) hguarded hstep ?_ ?_ ?_ ?_ ?_⟩
    · cases p'.over <;> exact h.now
    · cases p'.over <;> simp [World.finish, Replicas.finish, Replicas.setPhase, h.rows]
    · cases p'.over <;> simp [World.finish, Replicas.finish, Replicas.setPhase, h.ended]
    · intro m hne
      rw [openPass_setPhase, if_neg hne]
      cases p'.over <;> exact halone m hne
    · rw [openPass_setPhase, if_pos rfl]
      cases hover : p'.over <;> simp [World.finish, Phase.passOn_after, hlive, hover]
  | @strays n input conn p p' hphase hdead hlocal hanswer =>
    have hopen : s.openPass n = none := by simp [Replicas.openPass, hphase, Phase.passOn, hdead]
    refine hstay (by simp [translate, hopen]) rfl rfl rfl fun m => ?_
    rw [openPass_setPhase]
    split
    · next hm =>
      subst hm
      rw [hopen]
      exact Phase.passOn_after_dead hdead p'
    · rfl
  | crashes n =>
    refine h.undone hguarded (by simp [Replicas.setPhase]) rfl rfl (fun p hp => hp) fun m => ?_
    rw [openPass_setPhase]
    obtain rfl | hne := eq_or_ne m n
    · cases s.openPass m <;> simp [Phase.passOn]
    · simp [hne, Replicas.openPass]
  | @hangsUp conn hlive =>
    refine h.undone (n := conn.proc) hguarded (by simp) rfl rfl (fun p hp => ?_) fun m => ?_
    · obtain ⟨conn', hphase, hmem⟩ := Phase.passOn_eq_some.mp hp
      rw [List.mem_singleton.mp hmem] at hphase
      exact Phase.passOn_eq_some.mpr ⟨conn, hphase, hlive⟩
    · simp only [Replicas.openPass, undo_phase]
      split
      · next hm =>
        obtain ⟨p, hp⟩ := Option.isSome_iff_exists.mp hm.1
        obtain ⟨conn', hphase, hmem⟩ := Phase.passOn_eq_some.mp hp
        rw [List.mem_singleton.mp hmem] at hphase
        simp [hm.2, hphase, Phase.passOn]
      · next hm =>
        refine Phase.passOn_congr fun conn' p hphase => ?_
        have hne : conn' ≠ conn := by
          rintro rfl
          have hproc : conn'.proc = m := h.guarded.own m conn' (by rw [hphase]; rfl)
          exact hm ⟨by simp [hproc, hphase, Phase.passOn], hproc.symm⟩
        simp [hne]

end Simulation

section Refinement

variable {hashtext : String → Int} {d : Dispatcher} {now : Int} {s : Replicas}
  {es : List ReplicaEvent}

/-- One dispatcher simulates any number of processes. -/
theorem replicas_simulated (hashtext : String → Int) (d : Dispatcher) (epoch : Int) :
    Simulates (replicaStep hashtext d) (step d) translate
      (Shadows (lockKey hashtext d) d epoch) :=
  fun _ _ _ _ h hstep => h.change (replicaChange_of_step hstep)

theorem Shadows.init (key : Int) (d : Dispatcher) (now : Int) :
    Shadows key d now (.init now) (.init now) where
  guarded := .init key now
  inv := .init d now
  now := rfl
  rows := rfl
  ended := rfl
  pass := by simp [World.init, Replicas.openPass, Replicas.init, Phase.passOn]

/-- Whatever any number of processes do to a topic, through sessions that end and processes that
die, is what one dispatcher does: same table, same finished passes, and the same accounts of
attempts, deliveries and retries. -/
theorem replicas_refine_dispatcher (h : run (replicaStep hashtext d) (.init now) es = some s)
    (hyears : s.now < now + century) :
    ∃ t, run (step d) (.init now)
        (translated (replicaStep hashtext d) translate (.init now) es) = some t ∧
      t.now = s.now ∧ t.rows = s.rows ∧ t.ended = s.ended ∧
      (∀ p, t.pass = some p ↔ ∃ n, s.openPass n = some p) ∧ Accounting d t := by
  obtain ⟨t, ht, hshadows⟩ :=
    (replicas_simulated hashtext d now).run (Shadows.init (lockKey hashtext d) d now) h
  exact ⟨t, ht, hshadows.now, hshadows.rows, hshadows.ended, hshadows.pass,
    hshadows.inv.accounting (hshadows.now ▸ hyears)⟩

end Refinement

/-! ## What a process sends without its session -/

/-- The stage of a pass whose session has ended. -/
structure Pass.Stranded (d : Dispatcher) (s : Replicas) (conn : Session) (p : Pass)
    (st : Stage) : Prop where
  prog : p.prog = st.prog d
  decoded : ∀ r ∈ st.rest, ∃ msg, toMessage r = .ok msg
  /-- It is about to send only if it has not sent a message without its session yet. -/
  sending : ∀ row msg rest, st = .sending row msg rest →
    conn ∉ s.strays.map Prod.fst ∧ msg.id ∈ s.rows.map Row.id

/-- What is sent without a session. -/
structure Strayed (d : Dispatcher) (s : Replicas) : Prop where
  nodup : (s.strays.map Prod.fst).Nodup
  ended : ∀ x ∈ s.strays, x.1 ∈ s.opened ∧ x.1 ∉ s.live ∧ x.2 ∈ s.rows.map Row.id
  pass : ∀ n conn p, s.phase n = .draining conn p → conn ∉ s.live →
    conn ∈ s.opened ∧ ∃ st, p.Stranded d s conn st

section Local

variable {d : Dispatcher} {now : Int} {rows : List Row} {p p' : Pass} {st : Stage} {input : Input}

/-- The table matters only for a claim. -/
theorem Pass.answer_local (rows' : List Row) (hlocal : input.isLocal = true) :
    p.answer d now rows input = p.answer d now rows' input := by
  cases input <;> first | rfl | cases hlocal

/-- Without the database a pass ends, or goes on to its next statement; it sends what it was about
to send. -/
theorem Answers.local (h : Answers d now rows p st input p') (hlocal : input.isLocal = true) :
    p'.over = true ∧ p'.sends = p.sends ∨
      ∃ st' : Stage, p'.prog = st'.prog d ∧ st'.rest = st.rest ∧
        (∀ row msg rest, st' ≠ .sending row msg rest) ∧
        (p'.sends = p.sends ∨ ∃ row msg rest ok, st = .sending row msg rest ∧
          p'.sends = p.sends ++ [(msg.id, ok)]) := by
  cases h with
  | abandons hover _ hsends _ => exact .inl ⟨hover, hsends⟩
  | commits _ hover _ hsends _ => exact .inl ⟨hover, hsends⟩
  | @moves st' hmoves =>
    refine .inr ⟨st', ?_⟩
    cases hmoves with
    | sent => exact ⟨rfl, rfl, by simp, .inr ⟨_, _, _, _, rfl, rfl⟩⟩
    | exhausted => exact ⟨rfl, rfl, by simp, .inr ⟨_, _, _, _, rfl, rfl⟩⟩
    | unsent => exact ⟨rfl, rfl, by simp, .inr ⟨_, _, _, _, rfl, rfl⟩⟩
    | drawn => exact ⟨rfl, rfl, by simp, .inl rfl⟩
    | timed => exact ⟨rfl, rfl, by simp, .inl rfl⟩
    | claim => cases hlocal
    | marked => cases hlocal
    | scheduled => cases hlocal

end Local

section Strayed

variable {key : Int} {d : Dispatcher} {epoch : Int} {s s' : Replicas} {t : World}
  {e : ReplicaEvent}

theorem Strayed.init (d : Dispatcher) (now : Int) : Strayed d (.init now) := by
  constructor <;> simp [Replicas.init]

@[simp] theorem finish_ids (s : Replicas) (p : Pass) :
    (s.finish p).rows.map Row.id = s.rows.map Row.id := by
  unfold Replicas.finish
  split
  · simp only [List.map_map]
    exact List.map_congr_left fun r _ => applyLog_id p.log r
  · rfl

@[simp] theorem undo_ids (s : Replicas) (o : Option Pass) :
    (s.undo o).rows.map Row.id = s.rows.map Row.id := by
  cases o with
  | none => rfl
  | some p => exact finish_ids s _

@[simp] theorem finish_strays (s : Replicas) (p : Pass) : (s.finish p).strays = s.strays := rfl

@[simp] theorem undo_strays (s : Replicas) (o : Option Pass) : (s.undo o).strays = s.strays := by
  cases o <;> rfl

/-- A stranded pass stays so while its session sends nothing. -/
theorem Pass.Stranded.mono {conn : Session} {p : Pass} {st : Stage}
    (h : p.Stranded d s conn st) (hstrays : s'.strays = s.strays)
    (hids : s.rows.map Row.id ⊆ s'.rows.map Row.id) : p.Stranded d s' conn st where
  prog := h.prog
  decoded := h.decoded
  sending := fun row msg rest hst =>
    ⟨hstrays ▸ (h.sending row msg rest hst).1, hids (h.sending row msg rest hst).2⟩

/-- Nothing is sent without a session, and no pass loses its session. -/
theorem Strayed.keep (h : Strayed d s) (hstrays : s'.strays = s.strays)
    (hids : s.rows.map Row.id ⊆ s'.rows.map Row.id) (hopened : s.opened ⊆ s'.opened)
    (hlive : ∀ conn ∈ s.opened, conn ∉ s.live → conn ∉ s'.live)
    (hpass : ∀ n conn p, s'.phase n = .draining conn p → conn ∉ s'.live →
      (s.phase n = .draining conn p ∧ conn ∉ s.live) ∨
        conn ∈ s'.opened ∧ ∃ st, p.Stranded d s' conn st) : Strayed d s' where
  nodup := hstrays ▸ h.nodup
  ended := by
    intro x hx
    obtain ⟨hbefore, hdead, hid⟩ := h.ended x (hstrays ▸ hx)
    exact ⟨hopened hbefore, hlive _ hbefore hdead, hids hid⟩
  pass := by
    intro n conn p hphase hdead
    rcases hpass n conn p hphase hdead with ⟨hbefore, hdead'⟩ | hstranded
    · obtain ⟨hmem, st, hst⟩ := h.pass n conn p hbefore hdead'
      exact ⟨hopened hmem, st, hst.mono hstrays hids⟩
    · exact hstranded

/-- A process goes on, and makes no pass without its session. -/
theorem Strayed.setPhase (h : Strayed d s) {u : Replicas} {n : Nat} {x : Phase}
    (hphase : u.phase = s.phase) (hstrays : u.strays = s.strays)
    (hids : u.rows.map Row.id = s.rows.map Row.id) (hopened : u.opened = s.opened)
    (hlive : u.live = s.live) (hx : ∀ conn p, x = .draining conn p → conn ∈ s.live) :
    Strayed d (u.setPhase n x) := by
  refine h.keep hstrays (hids ▸ List.Subset.refl _) (hopened ▸ List.Subset.refl _)
    (fun conn _ hdead => ?_) fun m conn p hm hdead => ?_
  · exact hlive ▸ hdead
  · have hdead' : conn ∉ s.live := hlive ▸ hdead
    obtain rfl | hne := eq_or_ne m n
    · exact absurd (hx conn p (setPhase_self u m x ▸ hm)) hdead'
    · rw [setPhase_ne u n m x hne, hphase] at hm
      exact .inl ⟨hm, hdead'⟩

/-- A pass that loses its session. -/
theorem Shadows.stranded (h : Shadows key d epoch s t) (hs : Strayed d s) {n : Nat}
    {conn : Session} {p : Pass} (hphase : s.phase n = .draining conn p) (hlive : conn ∈ s.live) :
    ∃ st, p.Stranded d s conn st := by
  obtain ⟨st, hat⟩ := h.inv.pass p (h.pass_eq (Phase.passOn_eq_some.mpr ⟨conn, hphase, hlive⟩))
  refine ⟨st, hat.prog, fun r hr => h.inv.decoded r (hat.rest_subset r hr), ?_⟩
  rintro row msg rest rfl
  refine ⟨fun hmem => ?_, ?_⟩
  · obtain ⟨x, hx, rfl⟩ := List.mem_map.mp hmem
    exact (hs.ended x hx).2.1 hlive
  · obtain ⟨done, hbatch, -⟩ := hat.split
    rw [toMessage_id hat.facts, ← h.rows]
    exact List.mem_map_of_mem (hat.due row (mem_of_split hbatch)).1

/-- What a stranded pass does with a local answer: it sends one message if it was about to, and
comes to its next statement or its end. -/
theorem Pass.Stranded.answer {conn : Session} {p p' : Pass} {st : Stage} {input : Input}
    (hst : p.Stranded d s conn st) (hlocal : input.isLocal = true)
    (hanswer : p.answer d s.now s.rows input = some p') :
    (newSends conn p p' = [] ∨ ∃ id ∈ s.rows.map Row.id, conn ∉ s.strays.map Prod.fst ∧
      newSends conn p p' = [(conn, id)]) ∧
    (p'.over = true ∨ ∀ s', ∃ st', p'.Stranded d s' conn st') := by
  have hanswers : Answers d s.now st.rest p st input p' :=
    Pass.answers hst.prog hst.decoded (fun _ => id) (Pass.answer_local s.rows hlocal ▸ hanswer)
  rcases hanswers.local hlocal with ⟨hover, hsends⟩ | ⟨st', hprog, hrest, hnot, hsends⟩
  · exact ⟨.inl (by simp [newSends, hsends]), .inl hover⟩
  · refine ⟨?_, .inr fun s' => ⟨st', hprog, hrest ▸ hst.decoded, fun row msg rest hsending =>
      absurd hsending (hnot row msg rest)⟩⟩
    rcases hsends with hsame | ⟨row, msg, rest, ok, hsending, hone⟩
    · exact .inl (by simp [newSends, hsame])
    · obtain ⟨hfirst, hid⟩ := hst.sending row msg rest hsending
      exact .inr ⟨msg.id, hid, hfirst, by simp [newSends, hone]⟩

/-- A process goes on without its session. -/
theorem Strayed.stray (hs : Strayed d s) (hguarded : Guarded key s) {n : Nat} {conn : Session}
    {p p' : Pass} {input : Input} (hphase : s.phase n = .draining conn p)
    (hdead : conn ∉ s.live) (hlocal : input.isLocal = true)
    (hanswer : p.answer d s.now s.rows input = some p') :
    Strayed d ({ s with
      strays := s.strays ++ newSends conn p p' }.setPhase n (.after conn p')) := by
  obtain ⟨hopened, st, hst⟩ := hs.pass n conn p hphase hdead
  obtain ⟨hnew, hafter⟩ := hst.answer hlocal hanswer
  have hfst : ∀ conn', conn' ≠ conn → conn' ∉ s.strays.map Prod.fst →
      conn' ∉ (s.strays ++ newSends conn p p').map Prod.fst := by
    intro conn' hne hbefore
    rcases hnew with hnil | ⟨id, -, -, hone⟩ <;> simp_all
  refine ⟨?_, ?_, ?_⟩
  · rcases hnew with hnil | ⟨id, -, hfirst, hone⟩
    · simpa [Replicas.setPhase, hnil] using hs.nodup
    · simp only [Replicas.setPhase, hone, List.map_append]
      exact List.nodup_append'.mpr ⟨hs.nodup, List.nodup_singleton _,
        List.disjoint_singleton.mpr hfirst⟩
  · intro x hx
    rcases List.mem_append.mp hx with hbefore | hx
    · exact hs.ended x hbefore
    · rcases hnew with hnil | ⟨id, hid, -, hone⟩
      · simp [hnil] at hx
      · rw [hone, List.mem_singleton] at hx
        subst hx
        exact ⟨hopened, hdead, hid⟩
  · intro m conn' q hm hdead'
    obtain rfl | hne := eq_or_ne m n
    · rw [setPhase_self] at hm
      obtain ⟨rfl, rfl, hover⟩ := Phase.after_eq_draining hm
      rw [hover] at hafter
      exact ⟨hopened, hafter.resolve_left Bool.false_ne_true _⟩
    · rw [setPhase_ne _ _ _ _ hne] at hm
      obtain ⟨hopened', st', hst'⟩ := hs.pass m conn' q hm hdead'
      have hother : conn' ≠ conn := by
        rintro rfl
        have hmine := hguarded.own n conn' (by rw [hphase]; rfl)
        exact hne ((hguarded.own m conn' (by rw [hm]; rfl)).symm.trans hmine)
      refine ⟨hopened', st', hst'.prog, hst'.decoded, fun row msg rest hsending => ?_⟩
      obtain ⟨hfirst, hid⟩ := hst'.sending row msg rest hsending
      exact ⟨hfst conn' hother hfirst, hid⟩

theorem strayed_change (hs : Strayed d s) (h : Shadows key d epoch s t)
    (hchange : ReplicaChange key d s e s') : Strayed d s' := by
  cases hchange with
  | elapse n =>
    refine hs.keep rfl (List.Subset.refl _) (List.Subset.refl _) (fun _ _ => id) ?_
    exact fun _ _ _ hphase hdead => .inl ⟨hphase, hdead⟩
  | publish =>
    refine hs.keep rfl (by simp) (List.Subset.refl _) (fun _ _ => id) ?_
    exact fun _ _ _ hphase hdead => .inl ⟨hphase, hdead⟩
  | @opens n serial hphase hnew =>
    refine hs.keep rfl (List.Subset.refl _) (List.subset_append_left _ _) ?_ ?_
    · intro conn hmem hdead hlive
      refine (List.mem_append.mp hlive).elim hdead fun hconn => ?_
      rw [List.mem_singleton.mp hconn] at hmem
      exact hnew hmem
    · intro m conn p hm hdead
      obtain rfl | hne := eq_or_ne m n
      · simp at hm
      · rw [setPhase_ne _ _ _ _ hne] at hm
        exact .inl ⟨hm, fun hlive => hdead (List.mem_append_left _ hlive)⟩
  | walks _ _ _ _ _ hpass =>
    exact hs.setPhase rfl rfl rfl rfl rfl fun conn p hx => absurd hx (hpass conn p)
  | locks _ _ _ hx =>
    refine hs.setPhase rfl rfl rfl rfl rfl fun conn p hdraining => ?_
    rcases hx with rfl | rfl <;> cases hdraining
  | begins _ hlive =>
    refine hs.setPhase rfl rfl rfl rfl rfl fun conn p hdraining => ?_
    cases hdraining
    exact hlive
  | @calls n input conn p p' hphase hlive hanswer =>
    have hx : ∀ conn' q, Phase.after conn p' = .draining conn' q → conn' ∈ s.live := by
      intro conn' q h
      rw [(Phase.after_eq_draining h).1]
      exact hlive
    split
    · exact hs.setPhase rfl rfl (finish_ids s p') rfl rfl hx
    · exact hs.setPhase rfl rfl rfl rfl rfl hx
  | strays hphase hdead hlocal hanswer => exact hs.stray h.guarded hphase hdead hlocal hanswer
  | unlocks _ _ hx =>
    refine hs.setPhase rfl rfl rfl rfl rfl fun conn p hdraining => ?_
    rcases hx with rfl | rfl <;> cases hdraining
  | crashes n =>
    exact hs.setPhase (by simp) (by simp) (by simp) (by simp) (by simp) (by simp)
  | @hangsUp conn hlive =>
    refine hs.keep (by simp) (by simp) (by simp) ?_ ?_
    · intro conn' _ hdead hlive'
      exact hdead (List.mem_filter.mp hlive').1
    · intro n conn' p hphase hdead
      simp only [undo_phase] at hphase
      by_cases hlive' : conn' ∈ s.live
      · obtain ⟨st, hst⟩ := h.stranded hs hphase hlive'
        exact .inr ⟨by simpa using h.guarded.opened hlive', st, hst.mono (by simp) (by simp)⟩
      · exact .inl ⟨hphase, hlive'⟩

/-- A process sends at most one message after its session has ended, when another process may have
taken the topic over; it is one of the table. -/
theorem stray_sends_at_most_once {hashtext : String → Int} {now : Int} {es : List ReplicaEvent}
    (h : Path (replicaStep hashtext d) anyStep (.init now) es s) :
    (s.strays.map Prod.fst).Nodup ∧
      ∀ x ∈ s.strays, x.1 ∈ s.opened ∧ x.1 ∉ s.live ∧ x.2 ∈ s.rows.map Row.id := by
  have hstep : ∀ s e s', Strayed d s ∧ (∃ t, Shadows (lockKey hashtext d) d now s t) →
      anyStep s e → replicaStep hashtext d s e = some s' →
      Strayed d s' ∧ ∃ t, Shadows (lockKey hashtext d) d now s' t := by
    rintro s e s' ⟨hs, t, ht⟩ - hst
    have hchange := replicaChange_of_step hst
    obtain ⟨t', -, ht'⟩ := ht.change hchange
    exact ⟨strayed_change hs ht hchange, t', ht'⟩
  obtain ⟨hs, -⟩ := h.invariant hstep ⟨.init d now, _, Shadows.init _ d now⟩
  exact ⟨hs.nodup, hs.ended⟩

end Strayed

/-! ## One message sent twice -/

/-- A process claims a row of the topic on a session of its own. -/
def claimsOne (n serial : Nat) : List ReplicaEvent :=
  owns n serial ++ [.begin n, .call n (.claim [publishedRow 1 10])]

/-- A session ends before the process sends the message it has claimed; another process delivers
it, and the first one sends it all the same. -/
def sentTwice : List ReplicaEvent :=
  [.elapse 10, .publish "intent.completed" none "" [] 1 10] ++ claimsOne 0 0 ++
    [.hangUp ⟨0, 0⟩] ++ claimsOne 1 0 ++
    [.call 1 (.send none), .call 1 .done, .call 1 (.commit .done), .call 0 (.send none),
      .call 0 (.failed (.failed "conn closed"))]

theorem replicas_refine_dispatcher_sentTwice : ∃ s t,
    run (replicaStep (fun _ => 7) completions) (.init 0) sentTwice = some s ∧
      s.now < 0 + century ∧
      run (step completions) (.init 0)
        (translated (replicaStep (fun _ => 7) completions) translate (.init 0) sentTwice) = some t ∧
      t.rows = s.rows ∧ s.rows.map Row.deliveredAt = [some 10] ∧ Accounting completions t := by
  obtain ⟨s, hs, hnow, hrows⟩ : ∃ s,
      run (replicaStep (fun _ => 7) completions) (.init 0) sentTwice = some s ∧
        s.now < 0 + century ∧ s.rows.map Row.deliveredAt = [some 10] :=
    exists_of_any (by decide +kernel)
  obtain ⟨t, ht, -, hsame, -, -, haccounting⟩ := replicas_refine_dispatcher hs hnow
  exact ⟨s, t, hs, hnow, ht, hsame, hrows, haccounting⟩

theorem stray_sends_at_most_once_sentTwice : ∃ s,
    Path (replicaStep (fun _ => 7) completions) anyStep (.init 0) sentTwice s ∧
      s.strays = [(⟨0, 0⟩, 1)] ∧ (s.strays.map Prod.fst).Nodup ∧
      ∀ x ∈ s.strays, x.1 ∉ s.live := by
  obtain ⟨s, hs, hstrays⟩ : ∃ s,
      run (replicaStep (fun _ => 7) completions) (.init 0) sentTwice = some s ∧
        s.strays = [(⟨0, 0⟩, 1)] :=
    exists_of_any (by decide +kernel)
  obtain ⟨hnodup, hended⟩ := stray_sends_at_most_once (.of_run hs)
  exact ⟨s, .of_run hs, hstrays, hnodup, fun x hx => (hended x hx).2.1⟩

end Selatpay.Outbox
