import Selatpay.Ledger.Blocks

/-!
# Each reference is booked exactly once

While every header and posting comes from a `PostTx` call, the log of an open
transaction is a sequence of complete blocks, one for each call that inserted a
header, followed by the part the running call has reached. The headers of open
transactions are new to the committed ledger and locked, so a commit adds whole
blocks and touches no other entry.
-/

namespace Selatpay.Ledger

/-- The event issues no ledger statement outside a call. -/
def Event.fromCalls : Event → Bool
  | .direct _ _ _ => false
  | _ => true

/-- All rows are inserted by calls. -/
def CallsOnly (_ : State) (e : Event) : Prop := e.fromCalls = true

instance (s : State) (e : Event) : Decidable (CallsOnly s e) :=
  inferInstanceAs (Decidable (e.fromCalls = true))

/-! ## Sessions -/

/-- What a session's log is made of. -/
def SessionInv (log : List Effect) : Session → Prop
  | .idle => log = []
  | .aborted => log = []
  | .active none created => Blocks log created
  | .active (some (e, p)) created =>
    ∃ l cs h m, Blocks l cs ∧ Steps Respond (postWith e) l h p log ∧
      log = l ++ m ∧ created = cs ++ (headers m).map (⟨·, e⟩)

/-- A call that has returned left nothing or its whole block. -/
theorem Blocks.of_returned {e : Entry} {j : JournalEntry} {l m : List Effect} {cs : List Creation}
    {h : List Tables} (hl : Blocks l cs) (hs : Steps Respond (postWith e) l h (.ret j) (l ++ m)) :
    Blocks (l ++ m) (cs ++ (headers m).map (⟨·, e⟩)) := by
  obtain ⟨hm, -⟩ | ⟨uuid, ps, rest, hm, hlines, hps, hret⟩ := postWith_steps hs
  · obtain rfl := List.append_cancel_left (hm.trans (List.append_nil l).symm)
    simpa using hl
  · obtain ⟨-, rfl⟩ := hret j rfl
    rw [List.append_nil] at hlines
    obtain rfl := List.append_cancel_left hm
    simpa using hl.snoc hlines hps

/-- What a session can be told about a call after one more statement. -/
theorem sessionInv_running {e : Entry} {p : LedgerM JournalEntry} {l m : List Effect}
    {cs : List Creation} {h : List Tables} (hl : Blocks l cs)
    (hs : Steps Respond (postWith e) l h p (l ++ m)) :
    SessionInv (l ++ m) (.active (running e p) (cs ++ (headers m).map (⟨·, e⟩))) := by
  cases p with
  | ret j => exact hl.of_returned hs
  | throw err => exact ⟨l, cs, h, m, hl, hs, rfl, rfl⟩
  | call o k => exact ⟨l, cs, h, m, hl, hs, rfl, rfl⟩

/-- One more statement of a running call. -/
theorem sessionInv_statement {db : Tables} {e : Entry} {o : Op} {k : o.Rep → LedgerM JournalEntry}
    {log es : List Effect} {r : o.Rep} {created : List Creation}
    (h : SessionInv log (.active (some (e, .call o k)) created)) (hr : Respond db log o r es) :
    SessionInv (log ++ es)
      (.active (running e (k r)) (created ++ (headers es).map (⟨·, e⟩))) := by
  obtain ⟨l, cs, hist, m, hl, hs, rfl, rfl⟩ := h
  have hsnoc := hs.snoc hr
  rw [List.append_assoc] at hsnoc
  simpa using sessionInv_running hl hsnoc

/-! ## The committed ledger -/

/-- The committed ledger is what the recorded calls posted. -/
structure Booked (s : State) : Prop extends MadeBy s.db s.created where
  /-- Keys are unique. -/
  sound : s.tx.Sound engine
  /-- Open transactions hold complete blocks and the part of a running call. -/
  sessions : ∀ c, SessionInv (s.tx.log c) (s.session c)

theorem booked_init : Booked .init where
  sound := .init (by simp [Tables.keys, Tables.empty])
  sessions := fun _ => rfl
  toMadeBy := .empty _

section Booked

variable {s t : State} {c : SessionID}

/-- A change of one session leaves what the others hold. -/
theorem sessions_update {x : Session} (hs : ∀ v, SessionInv (s.tx.log v) (s.session v))
    (hlog : ∀ v, v ≠ c → t.tx.log v = s.tx.log v)
    (hsession : t.session = Function.update s.session c x) (hc : SessionInv (t.tx.log c) x) :
    ∀ v, SessionInv (t.tx.log v) (t.session v) := by
  intro v
  rw [hsession]
  by_cases hv : v = c
  · subst hv
    simpa using hc
  · rw [hlog v hv, Function.update_of_ne hv]
    exact hs v

/-- An event that commits nothing keeps the ledger booked. -/
theorem Booked.uncommitted (hs : Booked s) (hsound : t.tx.Sound engine)
    (hsessions : ∀ v, SessionInv (t.tx.log v) (t.session v))
    (hentries : t.db.entries = s.db.entries) (hpostings : t.db.postings = s.db.postings)
    (hcreated : t.created = s.created) : Booked t where
  sound := hsound
  sessions := hsessions
  toMadeBy := by
    rw [hcreated]
    exact hs.toMadeBy.congr hentries hpostings

/-- Dropping a transaction keeps the ledger booked. -/
theorem Booked.rollback (hs : Booked s) (c : SessionID) {x : Session} (hx : SessionInv [] x) :
    Booked ({ s with tx := s.tx.rollback c }.setSession c x) := by
  refine hs.uncommitted (hs.sound.rollback c) ?_ rfl rfl rfl
  refine sessions_update hs.sessions (fun v hv => TxState.finish_log_ne _ _ _ _ hv) rfl ?_
  change SessionInv ((s.tx.finish c s.tx.db).log c) x
  rwa [TxState.finish_log_self]

/-- A commit adds the blocks of its transaction and touches no other entry. -/
theorem Booked.commit (hs : Booked s) {created : List Creation}
    (hsession : s.session c = .active none created) :
    Booked ({ s with tx := s.tx.commit engine c, created := s.created ++ created }.setSession c
      .idle) := by
  have hblocks : Blocks (s.tx.log c) created := by
    have := hs.sessions c
    rwa [hsession] at this
  refine ⟨hs.toMadeBy.view hblocks (hs.sound.view_unique c), hs.sound.commit c, ?_⟩
  refine sessions_update hs.sessions (fun v hv => TxState.finish_log_ne _ _ _ _ hv) rfl ?_
  exact TxState.finish_log_self _ _ _

/-- Every event of the calls keeps the ledger booked. -/
theorem booked_step {e : Event} (hs : Booked s) (hcalls : CallsOnly s e) (h : s.step e = some t) :
    Booked t := by
  have hchange := step_change h
  have hsound := sound_change hs.sound hchange
  cases hchange with
  | account => exact hs.uncommitted hsound hs.sessions rfl rfl rfl
  | @begin c hidle =>
    refine hs.uncommitted hsound (sessions_update hs.sessions (fun _ _ => rfl) rfl ?_) rfl rfl rfl
    have hlog := hs.sessions c
    rw [hidle] at hlog
    change Blocks (s.tx.log c) []
    rw [show s.tx.log c = [] from hlog]
    exact .nil
  | invalid => exact hs
  | @call c e created hopen =>
    refine hs.uncommitted hsound (sessions_update hs.sessions (fun _ _ => rfl) rfl ?_) rfl rfl rfl
    have hlog := hs.sessions c
    rw [hopen] at hlog
    simpa using sessionInv_running (m := []) hlog (by simpa using Steps.refl _ _)
  | @statement c answer e o k created _ hcall hstatement =>
    have hlog := hs.sessions c
    rw [hcall] at hlog
    obtain rfl | ⟨uuid, r, es, -, -, hexec, rfl⟩ := execute_cases hstatement
    · exact hs.rollback c rfl
    · refine hs.uncommitted hsound (sessions_update hs.sessions
        (fun v hv => TxState.extend_log_ne _ _ _ _ _ hv) rfl ?_) rfl rfl rfl
      change SessionInv ((s.tx.extend c (o.locks uuid) es).log c) _
      rw [TxState.extend_log_self]
      exact sessionInv_statement hlog (.inl ⟨uuid, hexec⟩)
  | direct => cases hcalls
  | commit hopen => exact hs.commit hopen
  | refused => exact hs.rollback _ rfl
  | rollback => exact hs.rollback _ rfl

end Booked

/-- In every committed state of every interleaving of calls, a reference has one entry, inserted
by one call, whose postings are the lines of that call: each once, in order and in full. -/
theorem journal_exactly_once {es : List Event} {t : State}
    (h : Path State.step CallsOnly .init es t) :
    (t.db.entries.map JournalEntry.externalRef).Nodup ∧
      ∀ j ∈ t.db.entries, ∃ c ∈ t.created, c.row = j ∧ j = c.entry.params.row j.id ∧
        (∀ d ∈ t.created, d.row.externalRef = j.externalRef → d = c) ∧
        (postingsOf t.db.postings j.id).map Posting.line = c.entry.lines := by
  have hb := h.invariant (fun _ _ _ hs hok he => booked_step hs hok he) booked_init
  have hrefs := Tables.externalRefs_nodup hb.sound.unique
  refine ⟨hrefs, ?_⟩
  intro j hj
  obtain ⟨c, hc, rfl⟩ : ∃ c ∈ t.created, c.row = j := by
    rwa [hb.entries, List.mem_map] at hj
  refine ⟨c, hc, rfl, hb.rows c hc, ?_, hb.postings c hc⟩
  intro d hd href
  rw [hb.entries, List.map_map] at hrefs
  exact Table.eq_of_mem hrefs hd hc href

/-- Two sessions look one reference up before either inserts it; they were asked for different
lines. -/
def overlapping : List Event :=
  [.createAccount "cash" .asset "IDR" 1, .createAccount "due" .liability "IDR" 2,
    .begin 0, .begin 1,
    .postTx 0 ⟨"ref", "kind", "", none, [⟨1, 5, "IDR", .debit⟩, ⟨2, 5, "IDR", .credit⟩]⟩,
    .postTx 1 ⟨"ref", "kind", "", none, [⟨1, 7, "IDR", .debit⟩, ⟨2, 7, "IDR", .credit⟩]⟩,
    .statement 0 (.ok 3), .statement 1 (.ok 3), .statement 0 (.ok 3), .statement 0 (.ok 4),
    .statement 0 (.ok 5), .commit 0, .statement 1 (.ok 6), .commit 1]

/-- The overlapping calls leave the two postings of the first. -/
theorem journal_exactly_once_overlapping : ∃ t,
    runIf State.step CallsOnly .init overlapping = some t ∧
      t.db.postings.map Posting.amount = [5, 5] ∧
      (t.db.entries.map JournalEntry.externalRef).Nodup := by
  have hsome : (runIf State.step CallsOnly .init overlapping).map
      (·.db.postings.map Posting.amount) = some [5, 5] := by decide
  obtain ⟨t, ht, hpostings⟩ := Option.map_eq_some_iff.mp hsome
  exact ⟨t, ht, hpostings, (journal_exactly_once (.of_runIf ht)).1⟩

end Selatpay.Ledger
