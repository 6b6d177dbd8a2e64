import Selatpay.Ledger.Balance
import Selatpay.Ledger.Blocks

/-!
# What entries contribute to balances

In a ledger that was made by calls, the balance of an account is the sum of what
the entries of the calls contribute to it, and the same holds for the entries of
one intent alone.
-/

namespace Selatpay.Ledger

/-- The amount of a line in the natural direction of an account's type. -/
def Line.natural (type : AccountType) (l : Line) : Int :=
  match type, l.direction with
  | .asset, .debit | .expense, .debit => l.amount
  | .asset, .credit | .expense, .credit => -l.amount
  | .liability, .credit | .equity, .credit | .revenue, .credit => l.amount
  | .liability, .debit | .equity, .debit | .revenue, .debit => -l.amount
  | _, .other _ => 0

/-- What lines contribute to the balance of an account. -/
def linesTo (ls : List Line) (a : Account) : Int :=
  ((ls.filter fun l => l.accountID = a.id).map (Line.natural a.type)).sum

/-- What the entries of an intent contribute to the balance of an account. -/
def contributed (db : Tables) (intentID : UUID) (a : Account) : Int :=
  ((db.entries.filter fun e => e.intentID = some intentID).map fun e =>
    postedTo (postingsOf db.postings e.id) a).sum

@[simp] theorem linesTo_nil (a : Account) : linesTo [] a = 0 := rfl

theorem linesTo_cons (l : Line) (ls : List Line) (a : Account) :
    linesTo (l :: ls) a = (if l.accountID = a.id then l.natural a.type else 0) + linesTo ls a := by
  by_cases h : l.accountID = a.id <;> simp [linesTo, h]

theorem natural_line (type : AccountType) (p : Posting) :
    p.line.natural type = naturalAmount type p := by
  cases type <;> cases hd : p.direction <;>
    simp [Line.natural, Posting.line, naturalAmount, PostingDirection.toGo, hd]

/-- Postings count as the lines they store. -/
theorem postedTo_eq_linesTo (ps : List Posting) (a : Account) :
    postedTo ps a = linesTo (ps.map Posting.line) a := by
  induction ps with
  | nil => rfl
  | cons p ps ih =>
    have hp : postedTo (p :: ps) a =
        (if p.accountID = a.id then naturalAmount a.type p else 0) + postedTo ps a := by
      by_cases h : p.accountID = a.id <;> simp [postedTo, h]
    rw [List.map_cons, linesTo_cons, hp, ih, natural_line]
    rfl

namespace MadeBy

variable {db : Tables} {created : List Creation}

/-- The calls have different references. -/
theorem refs_nodup (h : MadeBy db created) (hkeys : db.keys.Nodup) :
    (created.map fun c => c.entry.externalRef).Nodup := by
  have hrefs := Tables.externalRefs_nodup hkeys
  rw [h.entries, List.map_map] at hrefs
  refine (List.map_congr_left fun c hc => ?_) ▸ hrefs
  exact congrArg JournalEntry.externalRef (h.rows c hc)

/-- A header was created by a call with its reference. -/
theorem exists_creation (h : MadeBy db created) {e : JournalEntry} (he : e ∈ db.entries) :
    ∃ c ∈ created, c.row = e ∧ e = c.entry.params.row e.id := by
  rw [h.entries] at he
  obtain ⟨c, hc, rfl⟩ := List.mem_map.mp he
  exact ⟨c, hc, rfl, h.rows c hc⟩

/-- What the postings of a call's entry add to an account. -/
theorem postedTo_entry (h : MadeBy db created) {c : Creation} (hc : c ∈ created) (a : Account) :
    postedTo (postingsOf db.postings c.row.id) a = linesTo c.entry.lines a := by
  rw [postedTo_eq_linesTo, h.postings c hc]

/-- A balance is the sum of what the calls contribute. -/
theorem postedTo_eq (h : MadeBy db created) (hkeys : db.keys.Nodup) (a : Account) :
    postedTo db.postings a = (created.map fun c => linesTo c.entry.lines a).sum := by
  have hids := Tables.entry_ids_nodup hkeys
  rw [h.entries, List.map_map] at hids
  have hcover : ∀ p ∈ db.postings.filter (fun p => p.accountID = a.id),
      p.journalEntryID ∈ created.map (JournalEntry.id ∘ Creation.row) := by
    intro p hp
    obtain ⟨c, hc, hid⟩ := h.owned p (List.mem_filter.mp hp).1
    exact List.mem_map.mpr ⟨c, hc, hid⟩
  rw [postedTo, ← sum_groups_of_nodup Posting.journalEntryID _ _ hids hcover, List.map_map]
  refine congrArg List.sum (List.map_congr_left fun c hc => ?_)
  rw [← h.postedTo_entry hc, postedTo, postingsOf, List.filter_comm]
  rfl

/-- The entries of an intent contribute what the calls for it do. -/
theorem contributed_eq (h : MadeBy db created) (intentID : UUID) (a : Account) :
    contributed db intentID a = ((created.filter fun c => c.entry.intentID = some intentID).map
      fun c => linesTo c.entry.lines a).sum := by
  have hintent : ∀ c ∈ created, c.row.intentID = c.entry.intentID :=
    fun c hc => congrArg JournalEntry.intentID (h.rows c hc)
  rw [contributed, h.entries, List.filter_map, List.map_map]
  have hfilter : created.filter ((fun e : JournalEntry => decide (e.intentID = some intentID)) ∘
      Creation.row) = created.filter fun c => c.entry.intentID = some intentID :=
    List.filter_congr fun c hc => by simp [hintent c hc]
  rw [hfilter]
  refine congrArg List.sum (List.map_congr_left fun c hc => ?_)
  exact h.postedTo_entry (List.mem_filter.mp hc).1 a

/-- Calls for an intent that are all there are for it make up what it contributes. -/
theorem contributed_of_all (h : MadeBy db created) (hkeys : db.keys.Nodup) {intentID : UUID}
    {cs : List Creation} (hn : (cs.map fun c => c.entry.externalRef).Nodup)
    (hcs : ∀ c ∈ cs, c ∈ created ∧ c.entry.intentID = some intentID)
    (hall : ∀ c ∈ created, c.entry.intentID = some intentID →
      c.entry.externalRef ∈ cs.map fun c => c.entry.externalRef) (a : Account) :
    contributed db intentID a = (cs.map fun c => linesTo c.entry.lines a).sum := by
  have hrefs := h.refs_nodup hkeys
  have hperm : (created.filter fun c => c.entry.intentID = some intentID).Perm cs := by
    refine (List.perm_ext_iff_of_nodup (hrefs.of_map.filter _) hn.of_map).mpr fun c => ?_
    constructor
    · intro hc
      obtain ⟨hmem, hintent⟩ := List.mem_filter.mp hc
      obtain ⟨c', hc', href⟩ := List.mem_map.mp (hall c hmem (of_decide_eq_true hintent))
      have heq : c' = c := Table.eq_of_mem hrefs (hcs c' hc').1 hmem href
      rwa [← heq]
    · intro hc
      exact List.mem_filter.mpr ⟨(hcs c hc).1, decide_eq_true (hcs c hc).2⟩
  rw [h.contributed_eq]
  exact (hperm.map _).sum_eq

end MadeBy

end Selatpay.Ledger
