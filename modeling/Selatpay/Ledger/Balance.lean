import Selatpay.Core.Sums
import Selatpay.Ledger.ExactlyOnce

/-!
# The accounting equation

`AccountBalance` counts an account's postings in its natural direction, while the
triggers check debit minus credit by entry and currency. The two meet in the sum
of all postings of a currency: grouped by account it is the difference of the two
sides of the equation, grouped by entry it is zero.
-/

namespace Selatpay.Ledger

/-- The amount of a posting in the natural direction of its account's type. -/
def naturalAmount (type : AccountType) (p : Posting) : Int :=
  match type, p.direction with
  | .asset, .debit | .expense, .debit => p.amount
  | .asset, .credit | .expense, .credit => -p.amount
  | .liability, .credit | .equity, .credit | .revenue, .credit => p.amount
  | .liability, .debit | .equity, .debit | .revenue, .debit => -p.amount

/-- A row of the balance query. -/
structure Balance where
  accountID : UUID
  code : String
  type : AccountType
  currency : String
  amount : Int
  deriving DecidableEq, Repr

/-- The natural sum of the postings that name an account. -/
def postedTo (ps : List Posting) (a : Account) : Int :=
  ((ps.filter fun p => p.accountID = a.id).map (naturalAmount a.type)).sum

/-- The query `AccountBalance`, with the sum in exact integers. -/
def accountBalance (db : Tables) (accountID : UUID) : Option Balance :=
  (Table.find Account.id db.accounts accountID).map fun a =>
    ⟨a.id, a.code, a.type, a.currency, postedTo db.postings a⟩

/-- The sum of the balances of one currency over accounts of the given types. -/
def totalBalance (db : Tables) (currency : String) (types : List AccountType) : Int :=
  (((db.accounts.filter fun a => a.currency = currency ∧ a.type ∈ types).filterMap fun a =>
    accountBalance db a.id).map Balance.amount).sum

/-! ## One side minus the other -/

/-- Debit-normal accounts count a posting as the trigger does, the others with opposite sign. -/
theorem naturalAmount_eq (type : AccountType) (p : Posting) : naturalAmount type p =
    if type ∈ [.asset, .expense] then p.signed else -p.signed := by
  cases type <;> cases hd : p.direction <;> simp [naturalAmount, Posting.signed, hd]

/-- Debit minus credit of the postings that name an account. -/
def signedTo (ps : List Posting) (accountID : UUID) : Int :=
  ((ps.filter fun p => p.accountID = accountID).map Posting.signed).sum

theorem postedTo_eq (ps : List Posting) (a : Account) : postedTo ps a =
    if a.type ∈ [.asset, .expense] then signedTo ps a.id else -signedTo ps a.id := by
  simp only [postedTo, signedTo]
  induction ps.filter fun p => p.accountID = a.id with
  | nil => simp
  | cons p ps ih =>
    rw [List.map_cons, List.sum_cons, ih, naturalAmount_eq]
    split <;> simp [add_comm]

section Totals

variable {db : Tables}

/-- A stored account has a balance row. -/
theorem accountBalance_of_mem (h : db.keys.Nodup) {a : Account} (ha : a ∈ db.accounts) :
    accountBalance db a.id = some ⟨a.id, a.code, a.type, a.currency, postedTo db.postings a⟩ := by
  rw [accountBalance, Table.find_of_mem (Tables.account_ids_nodup h) ha, Option.map_some]

theorem totalBalance_eq (h : db.keys.Nodup) (currency : String) (types : List AccountType) :
    totalBalance db currency types = ((db.accounts.filter fun a =>
      a.currency = currency ∧ a.type ∈ types).map (postedTo db.postings)).sum := by
  have hrows : ∀ as : List Account, (∀ a ∈ as, a ∈ db.accounts) →
      ((as.filterMap fun a => accountBalance db a.id).map Balance.amount) =
        as.map (postedTo db.postings) := by
    intro as has
    induction as with
    | nil => rfl
    | cons a as ih =>
      have htail := ih fun a' ha' => has a' (List.mem_cons_of_mem a ha')
      simp [accountBalance_of_mem h (has a (by simp)), htail]
  rw [totalBalance, hrows _ fun a ha => (List.mem_filter.mp ha).1]

/-- The two sides differ by debit minus credit over the accounts of the currency. -/
theorem totalBalance_sub (h : db.keys.Nodup) (currency : String) :
    totalBalance db currency [.asset, .expense] -
        totalBalance db currency [.liability, .equity, .revenue] =
      ((db.accounts.filter fun a => a.currency = currency).map
        fun a => signedTo db.postings a.id).sum := by
  rw [totalBalance_eq h, totalBalance_eq h]
  induction db.accounts with
  | nil => simp
  | cons a as ih =>
    by_cases hc : a.currency = currency
    · cases ht : a.type <;> simp [hc, ht, postedTo_eq] at ih ⊢ <;> omega
    · simpa [hc] using ih

/-- The account a posting names exists in the posting's currency. -/
def Placed (accounts : List Account) (p : Posting) : Prop :=
  ∃ a ∈ accounts, a.id = p.accountID ∧ a.currency = p.currency

/-- Grouped by account, the postings of a currency are those of its accounts. -/
theorem sum_by_account (h : db.keys.Nodup) (hplaced : ∀ p ∈ db.postings, Placed db.accounts p)
    (currency : String) :
    ((db.accounts.filter fun a => a.currency = currency).map
        fun a => signedTo db.postings a.id).sum =
      ((db.postings.filter fun p => p.currency = currency).map Posting.signed).sum := by
  have hids := Tables.account_ids_nodup h
  have hgroup : ∀ a ∈ db.accounts.filter (fun a => a.currency = currency),
      signedTo db.postings a.id = (((db.postings.filter fun p => p.currency = currency).filter
        fun p => p.accountID = a.id).map Posting.signed).sum := by
    intro a ha
    simp only [List.mem_filter, decide_eq_true_eq] at ha
    have hfilter : (db.postings.filter fun p => p.accountID = a.id) =
        (db.postings.filter fun p => p.currency = currency).filter fun p => p.accountID = a.id := by
      rw [List.filter_filter]
      refine List.filter_congr fun p hp => ?_
      obtain ⟨b, hb, hid, hcur⟩ := hplaced p hp
      by_cases hpa : p.accountID = a.id
      · have hab : b = a := Table.eq_of_mem hids hb ha.1 (hid.trans hpa)
        simp [hpa, ← hcur, hab, ha.2]
      · simp [hpa]
    rw [signedTo, hfilter]
  have hn : ((db.accounts.filter fun a => a.currency = currency).map Account.id).Nodup :=
    hids.sublist (List.filter_sublist.map _)
  have hcover : ∀ p ∈ db.postings.filter (fun p => p.currency = currency),
      p.accountID ∈ (db.accounts.filter fun a => a.currency = currency).map Account.id := by
    intro p hp
    simp only [List.mem_filter, decide_eq_true_eq] at hp
    obtain ⟨a, ha, hid, hcur⟩ := hplaced p hp.1
    exact List.mem_map.mpr ⟨a, by simp [ha, hcur, hp.2], hid⟩
  have hsum := sum_groups_of_nodup Posting.accountID Posting.signed _ hn hcover
  rw [List.map_map] at hsum
  rw [List.map_congr_left hgroup]
  exact hsum

/-- Grouped by entry, the postings of a currency cancel. -/
theorem sum_by_entry (hbalanced : ∀ entryID currency, entryDiff db.postings entryID currency = 0)
    (currency : String) :
    ((db.postings.filter fun p => p.currency = currency).map Posting.signed).sum = 0 := by
  refine sum_eq_zero_of_groups Posting.journalEntryID Posting.signed _ fun entryID => ?_
  have hdiff := hbalanced entryID currency
  rw [entryDiff] at hdiff
  rw [List.filter_filter, ← hdiff]
  congr 3
  funext p
  simp

end Totals

/-! ## Every reachable ledger is balanced -/

/-- Every posting sits on an account of its currency, every entry is balanced. -/
structure Balanced (s : State) : Prop where
  /-- Keys are unique. -/
  sound : s.tx.Sound engine
  /-- Committed postings sit on accounts of their currency. -/
  placed : ∀ p ∈ s.db.postings, Placed s.db.accounts p
  /-- Postings of open transactions do as well. -/
  pending : ∀ c, ∀ p ∈ lines (s.tx.log c), Placed s.db.accounts p
  /-- Debits equal credits in every committed entry and currency. -/
  balanced : ∀ entryID currency, entryDiff s.db.postings entryID currency = 0

theorem balanced_init : Balanced .init where
  sound := .init (by simp [Tables.keys, Tables.empty])
  placed := by simp [State.init, TxState.init, Tables.empty]
  pending := by simp [State.init, TxState.init]
  balanced := by simp [State.init, TxState.init, Tables.empty, entryDiff]

/-- The triggers let a posting in only on an account of its currency. -/
theorem exec_placed {db : Tables} {uuid : UUID} {o : Op} {r : o.Rep} {es : List Effect}
    (h : o.exec db uuid = (r, es)) : ∀ p ∈ lines es, Placed db.accounts p := by
  cases o with
  | getAccountByCodeCurrency code currency =>
    simp only [Op.exec] at h
    split at h <;> cases h <;> simp
  | getJournalEntryByExternalRef ref =>
    simp only [Op.exec] at h
    split at h <;> cases h <;> simp
  | createJournalEntry p =>
    simp only [Op.exec] at h
    split at h <;> cases h <;> simp
  | insertPosting p =>
    simp only [Op.exec] at h
    cases hc : checkPosting db p with
    | error e =>
      simp only [hc] at h
      cases h
      simp
    | ok d =>
      simp only [hc] at h
      cases h
      obtain ⟨-, -, ⟨a, ha, hcur⟩, -⟩ := checkPosting_eq_ok hc
      intro q hq
      simp only [lines_cons_posting, lines_nil, List.mem_singleton] at hq
      subst hq
      obtain ⟨hmem, hid⟩ := Table.mem_of_find ha
      exact ⟨a, hmem, hid, hcur.symm⟩

section Balanced

variable {s t : State} {c : SessionID}

/-- Dropping a transaction keeps the ledger balanced. -/
theorem Balanced.rollback (hs : Balanced s) (c : SessionID) (x : Session) :
    Balanced ({ s with tx := s.tx.rollback c }.setSession c x) where
  sound := hs.sound.rollback c
  placed := hs.placed
  pending := by
    intro v p hp
    change p ∈ lines ((s.tx.finish c s.tx.db).log v) at hp
    by_cases hv : v = c
    · subst hv
      rw [TxState.finish_log_self] at hp
      cases hp
    · rw [TxState.finish_log_ne _ _ _ _ hv] at hp
      exact hs.pending v p hp
  balanced := hs.balanced

/-- A statement keeps the ledger balanced. -/
theorem Balanced.execute {o : Op} {answer : Answer} {next : o.Rep → List Effect → Session}
    (hs : Balanced s) (h : s.execute c o answer next = some t) : Balanced t := by
  have hsound := sound_execute hs.sound h
  obtain rfl | ⟨uuid, r, es, -, -, hexec, rfl⟩ := execute_cases h
  · exact hs.rollback c _
  · refine ⟨hsound, hs.placed, ?_, hs.balanced⟩
    intro v p hp
    change p ∈ lines ((s.tx.extend c (o.locks uuid) es).log v) at hp
    by_cases hv : v = c
    · subst hv
      rw [TxState.extend_log_self, lines_append] at hp
      rcases List.mem_append.mp hp with hp | hp
      · exact hs.pending v p hp
      · have hplaced := exec_placed hexec p hp
        rwa [Tables.view_eq] at hplaced
    · rw [TxState.extend_log_ne _ _ _ _ _ hv] at hp
      exact hs.pending v p hp

/-- A commit the trigger lets through keeps every entry balanced. -/
theorem Balanced.commit (hs : Balanced s) (hallowed : commitAllowed s.db (s.tx.log c))
    (created : List Creation) :
    Balanced ({ s with tx := s.tx.commit engine c, created := created }.setSession c .idle) where
  sound := hs.sound.commit c
  placed := by
    change ∀ p ∈ (s.db.view (s.tx.log c)).postings, Placed (s.db.view (s.tx.log c)).accounts p
    rw [Tables.view_eq]
    intro p hp
    rcases List.mem_append.mp hp with hp | hp
    · exact hs.placed p hp
    · exact hs.pending c p hp
  pending := by
    intro v p hp
    change Placed (s.db.view (s.tx.log c)).accounts p
    change p ∈ lines ((s.tx.finish c _).log v) at hp
    rw [Tables.view_eq]
    by_cases hv : v = c
    · subst hv
      rw [TxState.finish_log_self] at hp
      cases hp
    · rw [TxState.finish_log_ne _ _ _ _ hv] at hp
      exact hs.pending v p hp
  balanced := by
    intro entryID currency
    change entryDiff (s.db.view (s.tx.log c)).postings entryID currency = 0
    by_cases hmem : ∃ p ∈ lines (s.tx.log c), p.journalEntryID = entryID
    · obtain ⟨p, hp, rfl⟩ := hmem
      exact entryDiff_of_balanced (List.all_eq_true.mp hallowed p hp) currency
    · rw [Tables.view_eq, entryDiff_append, hs.balanced, zero_add, entryDiff,
        List.filter_eq_nil_iff.mpr]
      · rfl
      · intro p hp
        simpa using fun hid => absurd ⟨p, hp, hid⟩ hmem

/-- Every event keeps the ledger balanced, direct statements included. -/
theorem balanced_step {e : Event} (hs : Balanced s) (h : s.step e = some t) : Balanced t := by
  have hchange := step_change h
  have hsound := sound_change hs.sound hchange
  cases hchange with
  | @account code type currency uuid =>
    have hmono : ∀ p, Placed s.db.accounts p →
        Placed (s.db.accounts ++ [⟨uuid, code, type, currency⟩]) p := by
      rintro p ⟨a, ha, hp⟩
      exact ⟨a, List.mem_append_left _ ha, hp⟩
    exact ⟨hsound, fun p hp => hmono p (hs.placed p hp),
      fun c p hp => hmono p (hs.pending c p hp), hs.balanced⟩
  | begin => exact ⟨hsound, hs.placed, hs.pending, hs.balanced⟩
  | invalid => exact hs
  | call => exact ⟨hsound, hs.placed, hs.pending, hs.balanced⟩
  | statement _ hexec => exact hs.execute hexec
  | direct hexec => exact hs.execute hexec
  | commit _ hallowed => exact hs.commit hallowed _
  | refused => exact hs.rollback _ _
  | rollback => exact hs.rollback _ _

end Balanced

/-! ## What a commit does to the balances -/

/-- The postings an event makes part of the committed ledger. -/
def State.committed (s : State) : Event → List Posting
  | .commit c =>
    match s.session c with
    | .active none _ => if commitAllowed s.db (s.tx.log c) then lines (s.tx.log c) else []
    | _ => []
  | _ => []

section Committed

variable {s t : State} {e : Event}

/-- An event commits a transaction, or leaves postings and created headers as they are. -/
theorem step_committed (h : s.step e = some t) :
    (∃ c created, s.session c = .active none created ∧ s.committed e = lines (s.tx.log c) ∧
      t.db = s.db.view (s.tx.log c) ∧ t.created = s.created ++ created) ∨
    (s.committed e = [] ∧ s.db.accounts <+: t.db.accounts ∧ t.db.postings = s.db.postings ∧
      t.created = s.created) := by
  have hstatement : ∀ {c : SessionID} {o : Op} {answer : Answer}
      {next : o.Rep → List Effect → Session}, s.execute c o answer next = some t →
      s.db.accounts <+: t.db.accounts ∧ t.db.postings = s.db.postings ∧ t.created = s.created := by
    intro c o answer next h
    obtain rfl | ⟨uuid, r, es, -, -, -, rfl⟩ := execute_cases h <;>
      exact ⟨List.prefix_rfl, rfl, rfl⟩
  cases step_change h with
  | account => exact .inr ⟨rfl, List.prefix_append _ _, rfl, rfl⟩
  | begin => exact .inr ⟨rfl, List.prefix_rfl, rfl, rfl⟩
  | invalid => exact .inr ⟨rfl, List.prefix_rfl, rfl, rfl⟩
  | call => exact .inr ⟨rfl, List.prefix_rfl, rfl, rfl⟩
  | statement _ hexec => exact .inr ⟨rfl, hstatement hexec⟩
  | direct hexec => exact .inr ⟨rfl, hstatement hexec⟩
  | @commit c created hopen hallowed =>
    exact .inl ⟨c, created, hopen, by simp [State.committed, hopen, hallowed], rfl, rfl⟩
  | @refused c hrefused =>
    refine .inr ⟨?_, List.prefix_rfl, rfl, rfl⟩
    simp only [State.committed]
    split
    · rename_i created hopen
      exact if_neg (hrefused created hopen)
    · rfl
  | rollback => exact .inr ⟨rfl, List.prefix_rfl, rfl, rfl⟩

/-- Accounts are kept and postings are only appended. -/
theorem step_postings (h : s.step e = some t) :
    s.db.accounts <+: t.db.accounts ∧ t.db.postings = s.db.postings ++ s.committed e := by
  obtain ⟨c, created, -, hnew, hdb, -⟩ | ⟨hnew, hacc, hpost, -⟩ := step_committed h
  · rw [hdb, hnew, Tables.view_eq]
    exact ⟨List.prefix_rfl, rfl⟩
  · rw [hnew, hpost, List.append_nil]
    exact ⟨hacc, rfl⟩

/-- With calls only, the committed postings are the lines of the calls that became visible. -/
theorem committed_lines (hs : Booked s) (h : s.step e = some t) :
    ∃ cs, t.created = s.created ++ cs ∧
      (s.committed e).map Posting.line = cs.flatMap fun c => c.entry.lines := by
  obtain ⟨c, created, hsession, hnew, -, hcreated⟩ | ⟨hnew, -, -, hcreated⟩ := step_committed h
  · have hblocks := hs.sessions c
    rw [hsession] at hblocks
    exact ⟨created, hcreated, by rw [hnew]; exact hblocks.lines_eq⟩
  · exact ⟨[], by simp [hcreated], by simp [hnew]⟩

theorem postedTo_append (ps qs : List Posting) (a : Account) :
    postedTo (ps ++ qs) a = postedTo ps a + postedTo qs a := by
  simp [postedTo]

end Committed

/-- In every reachable ledger both sides of the equation agree in every currency; one more event
changes the balance of an account by the natural sum of the committed lines that name it, and
these lines are those of the calls that became visible, direct statements apart. -/
theorem accounting_equation {es : List Event} {s : State} (h : Path State.step anyStep .init es s) :
    (∀ currency, totalBalance s.db currency [.asset, .expense] =
      totalBalance s.db currency [.liability, .equity, .revenue]) ∧
    ∀ e t, s.step e = some t →
      (∀ a ∈ s.db.accounts, ∃ b b', accountBalance s.db a.id = some b ∧
        accountBalance t.db a.id = some b' ∧
        b'.amount = b.amount + postedTo (s.committed e) a) ∧
      (∀ a ∈ s.db.accounts, (∀ p ∈ s.committed e, p.accountID ≠ a.id) →
        accountBalance t.db a.id = accountBalance s.db a.id) ∧
      (Path State.step CallsOnly .init es s → ∃ cs, t.created = s.created ++ cs ∧
        (s.committed e).map Posting.line = cs.flatMap fun c => c.entry.lines) := by
  have hb := h.invariant (fun _ _ _ hs _ he => balanced_step hs he) balanced_init
  refine ⟨?_, ?_⟩
  · intro currency
    have hsub := totalBalance_sub hb.sound.unique currency
    rw [sum_by_account hb.sound.unique hb.placed, sum_by_entry hb.balanced] at hsub
    exact sub_eq_zero.mp hsub
  · intro e t he
    obtain ⟨hacc, hpost⟩ := step_postings he
    have hbefore : ∀ a ∈ s.db.accounts, accountBalance s.db a.id =
        some ⟨a.id, a.code, a.type, a.currency, postedTo s.db.postings a⟩ :=
      fun a ha => accountBalance_of_mem hb.sound.unique ha
    have hafter : ∀ a ∈ s.db.accounts, accountBalance t.db a.id = some ⟨a.id, a.code, a.type,
        a.currency, postedTo s.db.postings a + postedTo (s.committed e) a⟩ := by
      intro a ha
      rw [accountBalance_of_mem (balanced_step hb he).sound.unique (hacc.subset ha), hpost,
        postedTo_append]
    refine ⟨?_, ?_, ?_⟩
    · intro a ha
      exact ⟨_, _, hbefore a ha, hafter a ha, rfl⟩
    · intro a ha hnone
      have hzero : postedTo (s.committed e) a = 0 := by
        rw [postedTo, List.filter_eq_nil_iff.mpr (by simpa using hnone)]
        rfl
      rw [hafter a ha, hbefore a ha, hzero, add_zero]
    · intro hcalls
      exact committed_lines (hcalls.invariant (fun _ _ _ hs hok hstep => booked_step hs hok hstep)
        booked_init) he

/-- Both accounts of the overlapping calls end at five, on opposite sides. -/
theorem accounting_equation_overlapping : ∃ t, run State.step .init overlapping = some t ∧
    totalBalance t.db "IDR" [.asset, .expense] = 5 ∧
    totalBalance t.db "IDR" [.liability, .equity, .revenue] = 5 := by
  have hsome : (run State.step .init overlapping).map
      (totalBalance ·.db "IDR" [.asset, .expense]) = some 5 := by decide
  obtain ⟨t, ht, htotal⟩ := Option.map_eq_some_iff.mp hsome
  exact ⟨t, ht, htotal, (accounting_equation (.of_run ht)).1 "IDR" ▸ htotal⟩

end Selatpay.Ledger
