import Selatpay.Ledger.System

/-!
# Blocks of an entry and its lines

A transaction that only posts leaves blocks in its log, each made of a header and
all the lines of one entry. A ledger that was made by such transactions has, for
every header, exactly the lines of the entry that created it.
-/

namespace Selatpay.Ledger

/-- A log made of complete blocks: a header and all lines of the entry that created it. -/
inductive Blocks : List Effect → List Creation → Prop
  | nil : Blocks [] []
  | snoc {log : List Effect} {cs : List Creation} {e : Entry} {uuid : UUID} {ps : List Posting} :
      Blocks log cs → ps.map Posting.line = e.lines → (∀ p ∈ ps, p.journalEntryID = uuid) →
      Blocks (log ++ .entry (e.params.row uuid) :: ps.map Effect.posting)
        (cs ++ [⟨e.params.row uuid, e⟩])

/-- The postings of one entry. -/
def postingsOf (ps : List Posting) (entryID : UUID) : List Posting :=
  ps.filter fun p => p.journalEntryID = entryID

theorem postingsOf_append (ps qs : List Posting) (entryID : UUID) :
    postingsOf (ps ++ qs) entryID = postingsOf ps entryID ++ postingsOf qs entryID :=
  List.filter_append _ _

theorem postingsOf_eq_nil {ps : List Posting} {entryID : UUID}
    (h : ∀ p ∈ ps, p.journalEntryID ≠ entryID) : postingsOf ps entryID = [] := by
  rw [postingsOf, List.filter_eq_nil_iff]
  simpa using h

theorem postingsOf_eq_self {ps : List Posting} {entryID : UUID}
    (h : ∀ p ∈ ps, p.journalEntryID = entryID) : postingsOf ps entryID = ps := by
  rw [postingsOf, List.filter_eq_self]
  simpa using h

namespace Blocks

variable {log : List Effect} {cs : List Creation}

/-- The headers of the blocks are those of the calls. -/
theorem headers_eq (h : Blocks log cs) : headers log = cs.map Creation.row := by
  induction h with
  | nil => rfl
  | snoc _ _ _ ih => simp [ih]

/-- A header carries what its call was asked to post. -/
theorem row_eq (h : Blocks log cs) : ∀ c ∈ cs, c.row = c.entry.params.row c.row.id := by
  induction h with
  | nil => simp
  | snoc _ _ _ ih =>
    intro c hc
    rcases List.mem_append.mp hc with hc | hc
    · exact ih c hc
    · rw [List.mem_singleton.mp hc]
      rfl

/-- The lines of the blocks are those of the calls. -/
theorem lines_eq (h : Blocks log cs) :
    (lines log).map Posting.line = cs.flatMap fun c => c.entry.lines := by
  induction h with
  | nil => rfl
  | snoc _ hline _ ih => simp [ih, hline]

/-- Every line belongs to a header of the same log. -/
theorem line_header (h : Blocks log cs) :
    ∀ p ∈ lines log, ∃ c ∈ cs, c.row.id = p.journalEntryID := by
  induction h with
  | nil => simp
  | @snoc log cs e uuid ps _ _ hps ih =>
    intro p hp
    simp only [lines_append, lines_cons_entry, lines_map_posting, List.mem_append] at hp
    rcases hp with hp | hp
    · obtain ⟨c, hc, hid⟩ := ih p hp
      exact ⟨c, List.mem_append_left _ hc, hid⟩
    · exact ⟨⟨e.params.row uuid, e⟩, by simp, (hps p hp).symm⟩

/-- The lines found under a header are the lines of its call, each once and in order. -/
theorem postings_eq (h : Blocks log cs) (hn : (cs.map fun c => c.row.id).Nodup) :
    ∀ c ∈ cs, (postingsOf (lines log) c.row.id).map Posting.line = c.entry.lines := by
  induction h with
  | nil => simp
  | @snoc log cs e uuid ps hlog hline hps ih =>
    rw [List.map_append, List.nodup_append'] at hn
    obtain ⟨hn, -, hdisj⟩ := hn
    have hnew : ∀ c ∈ cs, c.row.id ≠ uuid := by
      intro c hc heq
      exact hdisj (List.mem_map_of_mem hc) (by simp [heq, CreateEntryParams.row])
    intro c hc
    simp only [lines_append, lines_cons_entry, lines_map_posting, postingsOf_append]
    rcases List.mem_append.mp hc with hc | hc
    · have hnil : postingsOf ps c.row.id = [] :=
        postingsOf_eq_nil fun p hp heq => hnew c hc (heq.symm.trans (hps p hp))
      rw [hnil, List.append_nil]
      exact ih hn c hc
    · obtain rfl := List.mem_singleton.mp hc
      have hnil : postingsOf (lines log) uuid = [] := by
        refine postingsOf_eq_nil fun p hp heq => ?_
        obtain ⟨c, hc, hid⟩ := hlog.line_header p hp
        exact hnew c hc (hid.trans heq)
      change (postingsOf (lines log) uuid ++ postingsOf ps uuid).map Posting.line = e.lines
      rw [hnil, List.nil_append, postingsOf_eq_self hps]
      exact hline

end Blocks

/-! ## The ledger that blocks make -/

/-- The ledger holds the headers of these calls, each with the lines of its call and no other. -/
structure MadeBy (db : Tables) (created : List Creation) : Prop where
  /-- The headers are those the calls inserted. -/
  entries : db.entries = created.map Creation.row
  /-- A header carries what its call was asked to post. -/
  rows : ∀ c ∈ created, c.row = c.entry.params.row c.row.id
  /-- The postings of an entry are the lines of its call. -/
  postings : ∀ c ∈ created, (postingsOf db.postings c.row.id).map Posting.line = c.entry.lines
  /-- Every posting belongs to a header. -/
  owned : ∀ p ∈ db.postings, ∃ c ∈ created, c.row.id = p.journalEntryID

namespace MadeBy

variable {db db' : Tables} {created : List Creation}

theorem empty (accounts : List Account) : MadeBy ⟨accounts, [], []⟩ [] := by
  constructor <;> simp

theorem congr (h : MadeBy db created) (hentries : db'.entries = db.entries)
    (hpostings : db'.postings = db.postings) : MadeBy db' created :=
  ⟨hentries.trans h.entries, h.rows, hpostings ▸ h.postings, hpostings ▸ h.owned⟩

/-- Committed blocks are added, and no other entry is touched. -/
theorem view {log : List Effect} {new : List Creation} (h : MadeBy db created)
    (hblocks : Blocks log new) (hkeys : (db.view log).keys.Nodup) :
    MadeBy (db.view log) (created ++ new) := by
  have hids := Tables.entry_ids_nodup hkeys
  rw [Tables.view_eq, hblocks.headers_eq, h.entries, ← List.map_append, List.map_map,
    List.map_append, List.nodup_append'] at hids
  obtain ⟨-, hnew, hdisj⟩ := hids
  rw [Tables.view_eq]
  refine ⟨?_, ?_, ?_, ?_⟩
  · rw [List.map_append, h.entries, hblocks.headers_eq]
  · intro d hd
    rcases List.mem_append.mp hd with hd | hd
    · exact h.rows d hd
    · exact hblocks.row_eq d hd
  · intro d hd
    rw [postingsOf_append]
    rcases List.mem_append.mp hd with hd | hd
    · have hnil : postingsOf (lines log) d.row.id = [] := by
        refine postingsOf_eq_nil fun p hp heq => ?_
        obtain ⟨d', hd', hid⟩ := hblocks.line_header p hp
        exact hdisj (List.mem_map.mpr ⟨d, hd, rfl⟩) (List.mem_map.mpr ⟨d', hd', hid.trans heq⟩)
      rw [hnil, List.append_nil]
      exact h.postings d hd
    · have hnil : postingsOf db.postings d.row.id = [] := by
        refine postingsOf_eq_nil fun p hp heq => ?_
        obtain ⟨d', hd', hid⟩ := h.owned p hp
        exact hdisj (List.mem_map.mpr ⟨d', hd', hid.trans heq⟩) (List.mem_map.mpr ⟨d, hd, rfl⟩)
      rw [hnil, List.nil_append]
      exact hblocks.postings_eq hnew d hd
  · intro p hp
    rcases List.mem_append.mp hp with hp | hp
    · obtain ⟨d, hd, hid⟩ := h.owned p hp
      exact ⟨d, List.mem_append_left _ hd, hid⟩
    · obtain ⟨d, hd, hid⟩ := hblocks.line_header p hp
      exact ⟨d, List.mem_append_right _ hd, hid⟩

end MadeBy

end Selatpay.Ledger
