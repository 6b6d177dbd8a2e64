import Mathlib.Data.List.Count
import Mathlib.Data.List.Sort

/-!
# Queries with an order and a limit

`SELECT … WHERE P ORDER BY key LIMIT n` returns the first rows in the order of the
key; which of the rows with one key come first is left open. A row is out of reach as
long as enough others come before it, and it is reached as soon as they are too few.
-/

namespace Selatpay

variable {ρ κ : Type} [LinearOrder κ]

/-- What `SELECT … WHERE P ORDER BY key LIMIT limit` may return. -/
structure Selects (P : ρ → Prop) (key : ρ → κ) (limit : Nat) (table result : List ρ) : Prop where
  mem : ∀ r ∈ result, r ∈ table ∧ P r
  nodup : result.Nodup
  sorted : result.Pairwise fun q r => key q ≤ key r
  size : result.length ≤ limit
  full : ∀ r ∈ table, P r → r ∈ result ∨ result.length = limit ∧ ∀ q ∈ result, key q ≤ key r

variable {P Q : ρ → Prop} [DecidablePred P] [DecidablePred Q] {key : ρ → κ} {limit : Nat}
  {table result : List ρ} {p : ρ}

/-- When the rows of one sort up to a row do not fill the result and the row is not in it, a row of
another sort is. -/
theorem Selects.exists_other (h : Selects P key limit table result) (hp : p ∈ table) (hP : P p)
    (habsent : p ∉ result) (hcount : table.countP (fun r => P r ∧ Q r ∧ key r ≤ key p) < limit) :
    ∃ r ∈ result, ¬ Q r := by
  obtain ⟨hlength, hkeys⟩ := (h.full p hp hP).resolve_left habsent
  by_contra hnone
  push Not at hnone
  have hsub : result ⊆ table.filter fun r => P r ∧ Q r ∧ key r ≤ key p := by
    intro r hr
    obtain ⟨hmem, hPr⟩ := h.mem r hr
    exact List.mem_filter.mpr ⟨hmem, by simpa using ⟨hPr, hnone r hr, hkeys r hr⟩⟩
  have hle := (List.subperm_of_subset h.nodup hsub).length_le
  rw [← List.countP_eq_length_filter] at hle
  omega

/-- A row that has enough others strictly before it is not selected. -/
theorem Selects.not_mem (h : Selects P key limit table result) (htable : table.Nodup)
    (hcount : limit ≤ table.countP fun r => P r ∧ key r < key p) : p ∉ result := by
  intro hp
  have hsub : p :: table.filter (fun r => P r ∧ key r < key p) ⊆ result := by
    refine List.cons_subset.mpr ⟨hp, fun r hr => ?_⟩
    obtain ⟨hmem, hr⟩ := List.mem_filter.mp hr
    obtain ⟨hPr, hlt⟩ := of_decide_eq_true hr
    rcases h.full r hmem hPr with hr | ⟨-, hkeys⟩
    · exact hr
    · exact absurd (hkeys p hp) (not_le.mpr hlt)
  have hnodup : (p :: table.filter fun r => P r ∧ key r < key p).Nodup := by
    refine List.nodup_cons.mpr ⟨fun hmem => ?_, htable.filter _⟩
    exact lt_irrefl _ (of_decide_eq_true (List.mem_filter.mp hmem).2).2
  have hle := (List.subperm_of_subset hnodup hsub).length_le
  have hsize := h.size
  rw [List.length_cons, ← List.countP_eq_length_filter] at hle
  omega

/-- The first rows in order are no later than a bound that enough rows meet. -/
theorem key_le_of_mem_take {rows : List ρ} {bound : κ}
    (hsorted : rows.Pairwise fun q r => key q ≤ key r)
    (hcount : limit ≤ rows.countP fun r => key r ≤ bound) :
    ∀ q ∈ rows.take limit, key q ≤ bound := by
  induction rows generalizing limit with
  | nil => simp
  | cons a rows ih =>
    cases limit with
    | zero => simp
    | succ limit =>
      rw [List.pairwise_cons] at hsorted
      have ha : key a ≤ bound := by
        by_contra hlt
        have hzero : (a :: rows).countP (fun r => key r ≤ bound) = 0 := by
          rw [List.countP_eq_zero]
          intro r hr
          rcases List.mem_cons.mp hr with rfl | hr
          · simpa using hlt
          · have hle := hsorted.1 r hr
            simpa using lt_of_lt_of_le (not_le.mp hlt) hle
        omega
      intro q hq
      rw [List.take_succ_cons, List.mem_cons] at hq
      rcases hq with rfl | hq
      · exact ha
      · refine ih hsorted.2 ?_ q hq
        rw [List.countP_cons_of_pos (by simpa using ha)] at hcount
        omega

/-- A row that has enough others before it or beside it may be left out. -/
theorem exists_selects_without [DecidableEq ρ] (htable : table.Nodup)
    (hcount : limit ≤ table.countP fun r => P r ∧ r ≠ p ∧ key r ≤ key p) :
    ∃ result, Selects P key limit table result ∧ p ∉ result := by
  set rows := (table.filter fun r => P r ∧ r ≠ p).insertionSort fun q r => key q ≤ key r with hrows
  have hmem (r : ρ) : r ∈ rows ↔ r ∈ table ∧ P r ∧ r ≠ p := by
    simp [hrows, List.mem_insertionSort]
  have htotal : Std.Total fun q r : ρ => key q ≤ key r := ⟨fun q r => le_total (key q) (key r)⟩
  have htrans : IsTrans ρ fun q r => key q ≤ key r := ⟨fun _ _ _ => le_trans⟩
  have hsorted : rows.Pairwise fun q r => key q ≤ key r := List.pairwise_insertionSort _ _
  have hnodup : rows.Nodup :=
    (List.perm_insertionSort _ _).nodup_iff.mpr (htable.filter _)
  have hbound : limit ≤ rows.countP fun r => key r ≤ key p := by
    rw [(List.perm_insertionSort _ _).countP_eq, List.countP_filter]
    refine hcount.trans (List.countP_mono_left fun r _ hr => ?_)
    simpa [and_comm, and_assoc] using hr
  have hlength : (rows.take limit).length = limit := by
    have hle := List.countP_le_length (p := fun r => decide (key r ≤ key p)) (l := rows)
    rw [List.length_take]
    omega
  refine ⟨rows.take limit, ⟨fun r hr => ?_, hnodup.sublist (List.take_sublist _ _),
    hsorted.sublist (List.take_sublist _ _), hlength.le, fun r hr hPr => ?_⟩, fun hp => ?_⟩
  · obtain ⟨hr, hPr, -⟩ := (hmem r).mp (List.mem_of_mem_take hr)
    exact ⟨hr, hPr⟩
  · by_cases hrp : r = p
    · subst hrp
      exact .inr ⟨hlength, key_le_of_mem_take hsorted hbound⟩
    · have hin : r ∈ rows.take limit ++ rows.drop limit := by
        rw [List.take_append_drop]
        exact (hmem r).mpr ⟨hr, hPr, hrp⟩
      rcases List.mem_append.mp hin with hin | hin
      · exact .inl hin
      · rw [← List.take_append_drop limit rows, List.pairwise_append] at hsorted
        exact .inr ⟨hlength, fun q hq => hsorted.2.2 q hq r hin⟩
  · exact ((hmem p).mp (List.mem_of_mem_take hp)).2.2 rfl

/-- Fewer rows meet a condition when no row newly meets it and one no longer does. -/
theorem countP_map_lt {f : ρ → ρ} (hmono : ∀ r ∈ table, P (f r) → P r) (hp : p ∈ table) (hP : P p)
    (hnot : ¬ P (f p)) : (table.map f).countP (P ·) < table.countP (P ·) := by
  have hrest : ∀ rows ⊆ table, (rows.map f).countP (P ·) ≤ rows.countP (P ·) := by
    intro rows hsub
    rw [List.countP_map]
    exact List.countP_mono_left fun r hr h => by simpa using hmono r (hsub hr) (by simpa using h)
  obtain ⟨before, after, rfl⟩ := List.append_of_mem hp
  have hbefore := hrest before (List.subset_append_left _ _)
  have hafter := hrest after fun r hr => by simp [hr]
  rw [List.map_append, List.map_cons, List.countP_append, List.countP_append,
    List.countP_cons_of_neg (by simpa using hnot), List.countP_cons_of_pos (by simpa using hP)]
  omega

end Selatpay
