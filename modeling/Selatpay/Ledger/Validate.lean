import Selatpay.Core.Assoc
import Selatpay.Ledger.Store

/-!
# Pre-validation and the balance trigger

`validate` sums the lines of an entry per currency in `int64`; the deferred trigger sums
the inserted postings exactly. The sums of `validate` are those exact sums up to a
multiple of `2 ^ 64`, so the two agree unless such a multiple is left over.
-/

namespace Selatpay.Ledger

/-! ## Exact sums -/

/-- The sum of the debit amounts of a currency. -/
def debitSum (lines : List Line) (currency : String) : Int :=
  ((lines.filter fun l => l.currency = currency ∧ l.direction = .debit).map Line.amount).sum

/-- The sum of the credit amounts of a currency. -/
def creditSum (lines : List Line) (currency : String) : Int :=
  ((lines.filter fun l => l.currency = currency ∧ l.direction = .credit).map Line.amount).sum

/-- Debits equal credits in every currency. -/
def LinesBalance (lines : List Line) : Prop :=
  ∀ currency, debitSum lines currency = creditSum lines currency

/-- Debit counts positive, credit negative. -/
def Line.signed (l : Line) : Int :=
  match l.direction with
  | .debit => l.amount
  | .credit => -l.amount
  | .other _ => 0

/-- A line with a positive amount, a currency and a direction. -/
structure Line.IsValid (l : Line) : Prop where
  positive : 0 < l.amount
  currency : isBlank l.currency = false
  direction : l.direction = .debit ∨ l.direction = .credit

/-- An entry that passes every check but that of its sums. -/
structure Entry.IsWellFormed (e : Entry) : Prop where
  externalRef : isBlank e.externalRef = false
  kind : isBlank e.kind = false
  nonempty : e.lines ≠ []
  lines : ∀ l ∈ e.lines, l.IsValid

theorem isBlank_append_eq_false {s t : String} (h : isBlank s = false) :
    isBlank (s ++ t) = false := by
  simp only [isBlank, String.toList_append, List.all_append, Bool.and_eq_false_iff] at h ⊢
  exact .inl h

/-- The next line counts for its own currency. -/
theorem debitSum_sub_creditSum_cons (l : Line) (lines : List Line) (currency : String) :
    debitSum (l :: lines) currency - creditSum (l :: lines) currency =
      (if l.currency = currency then l.signed else 0) +
        (debitSum lines currency - creditSum lines currency) := by
  unfold debitSum creditSum Line.signed
  by_cases hc : l.currency = currency
  · cases hd : l.direction <;> simp [hc, hd] <;> ring
  · simp [hc]

/-! ## The sums of the checks -/

theorem bump_eq_update (sums : Sums) (currency : String) (amount : Int) :
    sums.bump currency amount = Assoc.update 0 currency (fun v => wrap64 (v + amount)) sums := by
  induction sums with
  | nil => simp [Sums.bump, Assoc.update]
  | cons e sums ih =>
    obtain ⟨c, v⟩ := e
    rw [Sums.bump, Assoc.update, ih]

/-- The running sums hold exact differences, reduced to 64 bits. -/
structure Sums.Tracks (sums : Sums) (diff : String → Int) : Prop where
  nodup : (Assoc.keys sums).Nodup
  get : ∀ currency, Assoc.get 0 sums currency = wrap64 (diff currency)

/-- Adding to a sum adds to the difference it holds. -/
theorem Sums.Tracks.bump {sums : Sums} {diff : String → Int} (h : sums.Tracks diff)
    (currency : String) (amount : Int) :
    (sums.bump currency amount).Tracks
      fun c => (if currency = c then amount else 0) + diff c := by
  rw [bump_eq_update]
  refine ⟨Assoc.nodup_keys_update 0 currency _ h.nodup, fun c => ?_⟩
  rw [Assoc.get_update]
  split
  · next hc =>
    subst hc
    rw [h.get, if_pos rfl, wrap64, wrap64, Int.bmod_add_bmod, Int.add_comm, wrap64]
  · next hc =>
    rw [h.get, if_neg (Ne.symm hc), Int.zero_add]

/-- One round of the loop: the line is valid and its signed amount is added. -/
theorem sumLines_cons {l : Line} {lines : List Line} {sums out : Sums} :
    sumLines (l :: lines) sums = .ok out ↔
      l.IsValid ∧ sumLines lines (sums.bump l.currency l.signed) = .ok out := by
  rw [sumLines]
  by_cases hpos : l.amount ≤ 0
  · have hinvalid : ¬ l.IsValid := fun h => absurd h.positive (by omega)
    simp [hpos, hinvalid]
  · by_cases hblank : isBlank l.currency = true
    · have hinvalid : ¬ l.IsValid := fun h => by simp [h.currency] at hblank
      simp [hpos, hblank, hinvalid]
    · simp only [hpos, hblank, if_false, Bool.false_eq_true]
      cases hd : l.direction with
      | debit =>
        have hvalid : l.IsValid := ⟨by omega, by simpa using hblank, .inl hd⟩
        simp [hvalid, Line.signed, hd]
      | credit =>
        have hvalid : l.IsValid := ⟨by omega, by simpa using hblank, .inr hd⟩
        simp [hvalid, Line.signed, hd]
      | other text =>
        have hinvalid : ¬ l.IsValid := fun h => by simpa [hd] using h.direction
        simp [hinvalid]

/-- Lines are summed if and only if all of them are valid. -/
theorem exists_sumLines_eq_ok {lines : List Line} {sums : Sums} :
    (∃ out, sumLines lines sums = .ok out) ↔ ∀ l ∈ lines, l.IsValid := by
  induction lines generalizing sums with
  | nil => simp [sumLines]
  | cons l lines ih =>
    simp only [sumLines_cons, exists_and_left, ih, List.forall_mem_cons]

/-- The sums that come out hold the differences of the lines. -/
theorem Sums.Tracks.sumLines {lines : List Line} {sums out : Sums} {diff : String → Int}
    (h : sums.Tracks diff) (hok : sumLines lines sums = .ok out) :
    out.Tracks fun c => debitSum lines c - creditSum lines c + diff c := by
  induction lines generalizing sums diff with
  | nil =>
    obtain rfl := Except.ok.inj hok
    simpa [debitSum, creditSum] using h
  | cons l lines ih =>
    have hnext := ih (h.bump l.currency l.signed) (sumLines_cons.mp hok).2
    refine ⟨hnext.nodup, fun c => ?_⟩
    rw [hnext.get, debitSum_sub_creditSum_cons]
    congr 1
    ring

/-- No sum is left over if and only if every difference is a multiple of the modulus. -/
theorem Sums.Tracks.any_ne_zero {sums : Sums} {diff : String → Int} (h : sums.Tracks diff) :
    sums.any (·.2 ≠ 0) = false ↔ ∀ currency, 2 ^ 64 ∣ diff currency := by
  simp only [List.any_eq_false, ← wrap64_eq_zero, ← h.get, decide_eq_true_eq, not_not]
  constructor
  · intro hzero c
    by_cases hmem : c ∈ Assoc.keys sums
    · obtain ⟨e, he, rfl⟩ := List.mem_map.mp hmem
      rw [Assoc.get_of_mem h.nodup he, hzero e he]
    · exact Assoc.get_of_notMem hmem
  · intro hzero e he
    rw [← Assoc.get_of_mem (d := 0) h.nodup he, hzero]

/-- The checks of `validate` in order: the entry, its lines and their sums. -/
theorem validate_eq_ok_iff_sums {e : Entry} : validate e = .ok () ↔
    isBlank e.externalRef = false ∧ isBlank e.kind = false ∧ e.lines ≠ [] ∧
      ∃ sums, sumLines e.lines [] = .ok sums ∧ sums.any (·.2 ≠ 0) = false := by
  unfold validate
  cases isBlank e.externalRef
  · cases isBlank e.kind
    · by_cases hne : e.lines = []
      · simp [hne]
      · cases hsum : sumLines e.lines [] with
        | error err => simp [hne]
        | ok sums =>
          simp only [hne, Bool.false_eq_true, if_false, Except.ok.injEq, exists_eq_left', ne_eq,
            not_false_eq_true, true_and]
          generalize (sums.any fun p => decide ¬ p.2 = 0) = left
          cases left <;> simp
    · simp
  · simp

/-- What `validate` accepts: every check passes, and the exact differences of the lines are
multiples of the modulus. -/
theorem validate_eq_ok {e : Entry} : validate e = .ok () ↔
    e.IsWellFormed ∧
      ∀ currency, 2 ^ 64 ∣ debitSum e.lines currency - creditSum e.lines currency := by
  have hempty : Sums.Tracks [] fun _ => 0 := ⟨List.nodup_nil, fun _ => rfl⟩
  have hlines := @exists_sumLines_eq_ok e.lines []
  rw [validate_eq_ok_iff_sums]
  constructor
  · rintro ⟨href, hkind, hne, sums, hsum, hzero⟩
    have hdvd := (hempty.sumLines hsum).any_ne_zero.mp hzero
    exact ⟨⟨href, hkind, hne, hlines.mp ⟨sums, hsum⟩⟩, fun c => by simpa using hdvd c⟩
  · rintro ⟨⟨href, hkind, hne, hvalid⟩, hdvd⟩
    obtain ⟨sums, hsum⟩ := hlines.mpr hvalid
    have hzero := (hempty.sumLines hsum).any_ne_zero.mpr fun c => by simpa using hdvd c
    exact ⟨href, hkind, hne, sums, hsum, hzero⟩

/-! ## The trigger -/

/-- The lines that the postings of an entry store. -/
def entryLines (ps : List Posting) (entryID : UUID) : List Line :=
  (ps.filter fun p => p.journalEntryID = entryID).map Posting.line

/-- The trigger's difference over the postings of an entry is that of their lines. -/
theorem entryDiff_eq (ps : List Posting) (entryID : UUID) (currency : String) :
    entryDiff ps entryID currency =
      debitSum (entryLines ps entryID) currency - creditSum (entryLines ps entryID) currency := by
  induction ps with
  | nil => rfl
  | cons p ps ih =>
    by_cases hid : p.journalEntryID = entryID
    · have hlines : entryLines (p :: ps) entryID = p.line :: entryLines ps entryID := by
        simp [entryLines, hid]
      have hsigned : p.line.signed = p.signed := by
        cases hd : p.direction <;>
          simp [Posting.line, Line.signed, Posting.signed, hd, PostingDirection.toGo]
      rw [hlines, debitSum_sub_creditSum_cons, ← ih, hsigned, entryDiff, entryDiff]
      by_cases hc : p.currency = currency <;> simp [hid, hc, Posting.line]
    · have hlines : entryLines (p :: ps) entryID = entryLines ps entryID := by
        simp [entryLines, hid]
      rw [hlines, ← ih, entryDiff, entryDiff]
      simp [hid]

/-- The trigger accepts precisely the postings of balanced lines. -/
theorem entryBalanced_iff {ps : List Posting} {entryID : UUID} :
    entryBalanced ps entryID = true ↔ LinesBalance (entryLines ps entryID) := by
  constructor
  · intro h c
    have hdiff := entryDiff_of_balanced h c
    rw [entryDiff_eq] at hdiff
    omega
  · intro h
    simp only [entryBalanced, List.all_eq_true, decide_eq_true_eq]
    intro p _
    rw [entryDiff_eq, h p.currency, Int.sub_self]

/-! ## Agreement -/

/-- The sums of an entry wrap around to zero: it passes every other check, its differences are
multiples of the modulus, and not all of them are zero. -/
def Wraps (e : Entry) : Prop :=
  e.IsWellFormed ∧
    (∀ currency, 2 ^ 64 ∣ debitSum e.lines currency - creditSum e.lines currency) ∧
    ¬ LinesBalance e.lines

/-- Pre-validation accepts the well-formed balanced entries and no others, unless the sums of
the entry wrap around; and balanced is what the trigger checks of its postings. -/
theorem validate_agrees_iff (e : Entry) :
    ((validate e = .ok () ↔ e.IsWellFormed ∧ LinesBalance e.lines) ↔ ¬ Wraps e) ∧
      ∀ (ps : List Posting) (entryID : UUID), entryLines ps entryID = e.lines →
        (entryBalanced ps entryID = true ↔ LinesBalance e.lines) := by
  refine ⟨?_, fun ps entryID hlines => hlines ▸ entryBalanced_iff⟩
  rw [validate_eq_ok, Wraps]
  have hdvd : LinesBalance e.lines →
      ∀ currency, 2 ^ 64 ∣ debitSum e.lines currency - creditSum e.lines currency := by
    intro h c
    rw [h c, Int.sub_self]
    exact Int.dvd_zero _
  tauto

theorem validate_agrees_two_lines :
    (validate ⟨"order-1", "deposit", "", none,
        [⟨1, 5, "USDC", .debit⟩, ⟨2, 5, "USDC", .credit⟩]⟩ = .ok ()) ∧
      entryBalanced [⟨1, 7, 1, 5, "USDC", .debit⟩, ⟨2, 7, 2, 5, "USDC", .credit⟩] 7 = true :=
  have hbalanced : LinesBalance [⟨1, 5, "USDC", .debit⟩, ⟨2, 5, "USDC", .credit⟩] := by
    intro c
    by_cases hc : "USDC" = c <;> simp [debitSum, creditSum, hc]
  ⟨by decide +kernel, ((validate_agrees_iff ⟨"order-1", "deposit", "", none,
    [⟨1, 5, "USDC", .debit⟩, ⟨2, 5, "USDC", .credit⟩]⟩).2 _ 7 (by decide +kernel)).mpr hbalanced⟩

/-- Four debits of `2 ^ 62` and no credit: the sum wraps around to zero, and the trigger
refuses the postings. -/
theorem validate_accepts_four_debits :
    validate ⟨"order-1", "deposit", "", none,
        List.replicate 4 ⟨1, 2 ^ 62, "USDC", .debit⟩⟩ = .ok () ∧
      debitSum (List.replicate 4 ⟨1, 2 ^ 62, "USDC", .debit⟩) "USDC" = 2 ^ 64 ∧
      creditSum (List.replicate 4 ⟨1, 2 ^ 62, "USDC", .debit⟩) "USDC" = 0 ∧
      entryBalanced (List.replicate 4 ⟨1, 7, 1, 2 ^ 62, "USDC", .debit⟩) 7 = false := by
  decide +kernel

end Selatpay.Ledger
