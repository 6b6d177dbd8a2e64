import Mathlib.Tactic

/-!
# Regrouping list sums

A sum over a list is the sum over its groups, whatever key the groups are formed
by, as long as the keys counted cover the list.
-/

namespace Selatpay

variable {κ ρ : Type} [DecidableEq κ]

/-- The sum over a list is the sum over the groups of a key. -/
theorem sum_groups (key : ρ → κ) (f : ρ → Int) (l : List ρ) (S : Finset κ)
    (h : ∀ r ∈ l, key r ∈ S) :
    ∑ k ∈ S, ((l.filter fun r => key r = k).map f).sum = (l.map f).sum := by
  induction l with
  | nil => simp
  | cons r l ih =>
    have hgroup : ∀ k, (((r :: l).filter fun r => key r = k).map f).sum =
        (if key r = k then f r else 0) + ((l.filter fun r => key r = k).map f).sum := by
      intro k
      by_cases hk : key r = k <;> simp [hk]
    rw [Finset.sum_congr rfl fun k _ => hgroup k, Finset.sum_add_distrib, Finset.sum_ite_eq,
      if_pos (h r (by simp)), ih fun r' hr' => h r' (List.mem_cons_of_mem r hr')]
    simp

/-- A sum all of whose groups vanish vanishes. -/
theorem sum_eq_zero_of_groups (key : ρ → κ) (f : ρ → Int) (l : List ρ)
    (h : ∀ k, ((l.filter fun r => key r = k).map f).sum = 0) : (l.map f).sum = 0 := by
  rw [← sum_groups key f l (l.map key).toFinset (by intro r hr; simpa using ⟨r, hr, rfl⟩)]
  exact Finset.sum_eq_zero fun k _ => h k

/-- Summing the groups over a list of distinct keys that covers the list. -/
theorem sum_groups_of_nodup (key : ρ → κ) (f : ρ → Int) (l : List ρ) {ks : List κ}
    (hn : ks.Nodup) (h : ∀ r ∈ l, key r ∈ ks) :
    (ks.map fun k => ((l.filter fun r => key r = k).map f).sum).sum = (l.map f).sum := by
  rw [← List.sum_toFinset _ hn]
  exact sum_groups key f l ks.toFinset fun r hr => by simpa using h r hr

omit [DecidableEq κ] in
/-- A sum is at most another one if every term above zero has a term of its own, found by key, that
is no smaller, and no other term is negative. -/
theorem sum_le_of_matching {α β : Type} (key : α → κ) (key' : β → κ) {f : α → Int} {g : β → Int}
    {xs : List α} {ys : List β} (hn : (xs.map key).Nodup)
    (h : ∀ x ∈ xs, f x ≤ 0 ∨ ∃ y ∈ ys, key' y = key x ∧ f x ≤ g y) (hg : ∀ y ∈ ys, 0 ≤ g y) :
    (xs.map f).sum ≤ (ys.map g).sum := by
  induction xs generalizing ys with
  | nil =>
    refine List.sum_nonneg fun n hmem => ?_
    obtain ⟨y, hy, rfl⟩ := List.mem_map.mp hmem
    exact hg y hy
  | cons x xs ih =>
    obtain ⟨hfresh, hn⟩ := List.nodup_cons.mp hn
    rw [List.map_cons, List.sum_cons]
    rcases h x List.mem_cons_self with hx | ⟨y, hy, hkey, hle⟩
    · have hrest := ih hn (fun x' hx' => h x' (List.mem_cons_of_mem x hx')) hg
      omega
    · -- The term of `x` is taken out; the others have theirs among the rest.
      obtain ⟨l, m, rfl⟩ := List.append_of_mem hy
      have hrest : (xs.map f).sum ≤ ((l ++ m).map g).sum := by
        refine ih hn (fun x' hx' => ?_) fun y' hy' => hg y' (by simp at hy' ⊢; tauto)
        refine (h x' (List.mem_cons_of_mem x hx')).imp id ?_
        rintro ⟨y', hy', hkey', hle'⟩
        have hne : y' ≠ y := by
          rintro rfl
          exact hfresh (List.mem_map.mpr ⟨x', hx', hkey'.symm.trans hkey⟩)
        exact ⟨y', by simpa [hne] using hy', hkey', hle'⟩
      simp only [List.map_append, List.map_cons, List.sum_append, List.sum_cons] at hrest ⊢
      omega

/-- Elements that are counted before and not after make up the difference. -/
theorem countP_add_length_le {α : Type} {p q : α → Bool} {l b : List α} (hl : l.Nodup)
    (hb : b.Nodup) (hsub : b ⊆ l) (hq : ∀ x ∈ l, q x → p x ∧ x ∉ b) (hp : ∀ x ∈ b, p x) :
    l.countP q + b.length ≤ l.countP p := by
  have hnodup : (l.filter q ++ b).Nodup := by
    refine List.nodup_append'.mpr ⟨hl.filter _, hb, fun x hx hxb => ?_⟩
    obtain ⟨hmem, hqx⟩ := List.mem_filter.mp hx
    exact (hq x hmem hqx).2 hxb
  have hsubset : l.filter q ++ b ⊆ l.filter p := by
    intro x hx
    rcases List.mem_append.mp hx with hx | hx
    · obtain ⟨hmem, hqx⟩ := List.mem_filter.mp hx
      exact List.mem_filter.mpr ⟨hmem, (hq x hmem hqx).1⟩
    · exact List.mem_filter.mpr ⟨hsub hx, hp x hx⟩
  have hle := (hnodup.subperm hsubset).length_le
  rwa [List.length_append, ← List.countP_eq_length_filter, ← List.countP_eq_length_filter] at hle

/-- A sum of terms that are not negative is at least that of a part of them and one of the
others. -/
theorem sum_filter_add_le {α : Type} {f : α → Int} {p : α → Bool} {l : List α}
    (hf : ∀ a ∈ l, 0 ≤ f a) {a : α} (ha : a ∈ l) (hp : p a = false) :
    ((l.filter p).map f).sum + f a ≤ (l.map f).sum := by
  induction l with
  | nil => cases ha
  | cons b l ih =>
    obtain ⟨hb, hl⟩ := List.forall_mem_cons.mp hf
    have hrest : ((l.filter p).map f).sum ≤ (l.map f).sum :=
      (List.filter_sublist.map f).sum_le_sum fun n hn => by
        obtain ⟨c, hc, rfl⟩ := List.mem_map.mp hn
        exact hl c hc
    rcases List.mem_cons.mp ha with rfl | hmem
    · simpa [hp, add_comm] using hrest
    · have hle := ih hl hmem
      by_cases hpb : p b = true
      · simp only [List.filter_cons_of_pos hpb, List.map_cons, List.sum_cons]
        omega
      · simp only [List.filter_cons_of_neg hpb, List.map_cons, List.sum_cons]
        omega

end Selatpay
