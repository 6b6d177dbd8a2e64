import Mathlib.Data.List.Nodup

/-!
# Tables as lists of rows

A table is the list of its rows in insertion order; a key is a projection of the
row. Reading through a key takes the first row that carries it, updating rewrites
every row that carries it. Under a uniqueness constraint the two agree.
-/

namespace Selatpay.Table

variable {κ ρ : Type} [DecidableEq κ]

/-- The row stored under a key. -/
def find (key : ρ → κ) (t : List ρ) (k : κ) : Option ρ := t.find? fun r => key r = k

/-- Rewrite the rows stored under a key. -/
def update (key : ρ → κ) (t : List ρ) (k : κ) (f : ρ → ρ) : List ρ :=
  t.map fun r => if key r = k then f r else r

variable {key : ρ → κ} {t u : List ρ} {k k' : κ} {r : ρ} {f g : ρ → ρ}

/-- A row that is found is stored and carries the key. -/
theorem mem_of_find (h : find key t k = some r) : r ∈ t ∧ key r = k :=
  ⟨List.mem_of_find?_eq_some h, by simpa [find] using List.find?_some h⟩

theorem find_eq_none_iff : find key t k = none ↔ ∀ r ∈ t, key r ≠ k := by
  simp [find]

@[simp] theorem find_nil : find key [] k = none := rfl

theorem find_append : find key (t ++ u) k = (find key t k).or (find key u k) := by
  simp [find]

theorem find_singleton : find key [r] k = if key r = k then some r else none := by
  by_cases h : key r = k <;> simp [find, h]

/-- A key is looked up through any rewriting of rows that keeps it. -/
theorem find_map (hg : ∀ r, key (g r) = key r) : find key (t.map g) k = (find key t k).map g := by
  induction t with
  | nil => rfl
  | cons a t ih =>
    by_cases h : key a = k
    · simp [find, hg, h]
    · simp only [find] at ih
      simp [find, hg, h, ih]

theorem find_update_self (hf : ∀ r, key (f r) = key r) :
    find key (update key t k f) k = (find key t k).map f := by
  rw [update, find_map (by intro r; split <;> simp [hf])]
  cases h : find key t k with
  | none => rfl
  | some r => simp [(mem_of_find h).2]

theorem find_update_ne (hf : ∀ r, key (f r) = key r) (hk : k' ≠ k) :
    find key (update key t k f) k' = find key t k' := by
  rw [update, find_map (by intro r; split <;> simp [hf])]
  cases h : find key t k' with
  | none => rfl
  | some r => simp [(mem_of_find h).2, hk]

/-- Every row of an updated table comes from a stored row. -/
theorem mem_update (h : r ∈ update key t k f) : ∃ a ∈ t, r = if key a = k then f a else a := by
  obtain ⟨a, ha, rfl⟩ := List.mem_map.mp h
  exact ⟨a, ha, rfl⟩

/-- Under a uniqueness constraint a stored row is the one its key finds. -/
theorem find_of_mem (hn : (t.map key).Nodup) (h : r ∈ t) : find key t (key r) = some r := by
  induction t with
  | nil => cases h
  | cons a t ih =>
    rw [List.map_cons, List.nodup_cons] at hn
    rcases List.mem_cons.mp h with rfl | h
    · simp [find]
    · have hne : key a ≠ key r := fun he => hn.1 (he ▸ List.mem_map_of_mem h)
      simpa [find, hne] using ih hn.2 h

/-- Two stored rows with one key are the same row. -/
theorem eq_of_mem (hn : (t.map key).Nodup) {a b : ρ} (ha : a ∈ t) (hb : b ∈ t)
    (h : key a = key b) : a = b :=
  Option.some.inj ((find_of_mem hn ha).symm.trans (h ▸ find_of_mem hn hb))

/-- Hiding rows hides none of a key that only other rows carry. -/
theorem find_filter {P : ρ → Bool} (h : ∀ r ∈ t, key r = k → P r = true) :
    find key (t.filter P) k = find key t k := by
  induction t with
  | nil => rfl
  | cons a t ih =>
    have hrest := ih fun r hr => h r (List.mem_cons_of_mem a hr)
    by_cases ha : key a = k
    · simp [find, h a List.mem_cons_self ha, ha]
    · by_cases hP : P a = true
      · simpa [find, hP, ha] using hrest
      · simpa [find, hP, ha] using hrest

/-- Under a uniqueness constraint a hidden row is not found. -/
theorem find_filter_hidden {P : ρ → Bool} (hn : (t.map key).Nodup) (hr : r ∈ t)
    (hP : P r = false) : find key (t.filter P) (key r) = none := by
  rw [find_eq_none_iff]
  intro a ha hkey
  obtain ⟨ha, hPa⟩ := List.mem_filter.mp ha
  rw [eq_of_mem hn ha hr hkey, hP] at hPa
  cases hPa

/-- Under a uniqueness constraint at most one row carries a key. -/
theorem length_filter_le_one (hn : (t.map key).Nodup) :
    (t.filter fun r => key r = k).length ≤ 1 := by
  have hsub : ((t.filter fun r => key r = k).map key).Nodup :=
    hn.sublist (List.filter_sublist.map key)
  have hall : (t.filter fun r => key r = k).map key =
      List.replicate (t.filter fun r => key r = k).length k := by
    rw [List.eq_replicate_iff, List.length_map]
    refine ⟨rfl, fun a ha => ?_⟩
    obtain ⟨r, hr, rfl⟩ := List.mem_map.mp ha
    simpa using (List.mem_filter.mp hr).2
  rw [hall] at hsub
  exact List.nodup_replicate.mp hsub

/-- Under a uniqueness constraint a stored row is the only one with its key. -/
theorem filter_key_eq (hn : (t.map key).Nodup) (h : r ∈ t) :
    (t.filter fun a => key a = key r) = [r] := by
  have hmem : r ∈ t.filter fun a => key a = key r := List.mem_filter.mpr ⟨h, by simp⟩
  have hpos := List.length_pos_of_mem hmem
  obtain ⟨a, ha⟩ := List.length_eq_one_iff.mp (Nat.le_antisymm (length_filter_le_one hn) hpos)
  rw [ha] at hmem ⊢
  rw [List.mem_singleton.mp hmem]

/-- An update that keeps a column keeps the list of its values. -/
theorem map_update {γ : Type} {col : ρ → γ} (hf : ∀ r, col (f r) = col r) :
    (update key t k f).map col = t.map col := by
  simp only [update, List.map_map]
  congr 1
  funext r
  by_cases h : key r = k <;> simp [h, hf]

/-- An update that keeps the keys of a row keeps the list of all keys. -/
theorem flatMap_update {γ : Type} {cols : ρ → List γ} (hf : ∀ r, cols (f r) = cols r) :
    (update key t k f).flatMap cols = t.flatMap cols := by
  rw [List.flatMap_def, map_update hf, ← List.flatMap_def]

/-- A table without the key is not changed by updating it. -/
theorem update_of_find_none (h : find key t k = none) : update key t k f = t := by
  rw [find_eq_none_iff] at h
  unfold update
  exact (List.map_congr_left fun r hr => by simp [h r hr]).trans (List.map_id _)

/-- A row is still there, up to other columns, when the values of a column are only added to. -/
theorem exists_of_column_prefix {γ : Type} {col : ρ → γ} (h : t.map col <+: u.map col)
    (hr : r ∈ t) : ∃ a ∈ u, col a = col r :=
  List.mem_map.mp (h.subset (List.mem_map_of_mem hr))

/-- A column whose values occur among unique keys is unique. -/
theorem nodup_column {κ ρ γ : Type} {t : List ρ} {keys : ρ → List κ} {col : ρ → γ} (tag : γ → κ)
    (hmem : ∀ r, tag (col r) ∈ keys r) (h : (t.flatMap keys).Nodup) : (t.map col).Nodup := by
  induction t with
  | nil => simp
  | cons r t ih =>
    rw [List.flatMap_cons, List.nodup_append'] at h
    obtain ⟨-, htail, hdisj⟩ := h
    refine List.nodup_cons.mpr ⟨?_, ih htail⟩
    intro hcol
    obtain ⟨r', hr', heq⟩ := List.mem_map.mp hcol
    exact hdisj (hmem r) (List.mem_flatMap.mpr ⟨r', hr', heq ▸ hmem r'⟩)

section Changes

variable {κ ρ : Type} {t : List ρ} {r : ρ} {P : ρ → Prop}

/-- What holds of all rows and of a new one holds of all rows with it. -/
theorem forall_mem_concat (h : ∀ x ∈ t, P x) (hr : P r) : ∀ x ∈ t ++ [r], P x :=
  List.forall_mem_append.mpr ⟨h, List.forall_mem_singleton.mpr hr⟩

/-- What holds of all rows and of a row that takes the place of one holds of all rows then. -/
theorem forall_mem_set (h : ∀ x ∈ t, P x) (hr : P r) (n : Nat) : ∀ x ∈ t.set n r, P x := by
  intro x hx
  rcases List.mem_or_eq_of_mem_set hx with hx | rfl
  · exact h x hx
  · exact hr

/-- Distinct keys stay distinct when a row with a new key is added. -/
theorem nodup_map_concat {key : ρ → κ} (h : (t.map key).Nodup) (hr : ∀ x ∈ t, key x ≠ key r) :
    ((t ++ [r]).map key).Nodup := by
  rw [List.map_append, List.map_singleton, List.nodup_append']
  refine ⟨h, by simp, ?_⟩
  intro k hk hk'
  obtain ⟨x, hx, rfl⟩ := List.mem_map.mp hk
  exact hr x hx (List.mem_singleton.mp hk')

end Changes

end Selatpay.Table
