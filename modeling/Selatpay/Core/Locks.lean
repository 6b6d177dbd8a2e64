import Mathlib.Data.List.Basic

/-!
# A lock table

A lock is a pair of a key and the owner holding it until its transaction ends.
A request that finds one of its keys held by another owner waits, so the table
never gives one key to two owners.
-/

namespace Selatpay

/-- The locks currently held. -/
abbrev Locks (κ ω : Type) := List (κ × ω)

namespace Locks

variable {κ ω : Type}

/-- No other owner holds any of the keys. -/
def available (t : Locks κ ω) (w : ω) (ks : List κ) : Prop :=
  ∀ p ∈ t, p.1 ∈ ks → p.2 = w

instance [DecidableEq κ] [DecidableEq ω] (t : Locks κ ω) (w : ω) (ks : List κ) :
    Decidable (t.available w ks) :=
  inferInstanceAs (Decidable (∀ p ∈ t, p.1 ∈ ks → p.2 = w))

/-- Take the keys for an owner. -/
def acquire (t : Locks κ ω) (w : ω) (ks : List κ) : Locks κ ω := ks.map (·, w) ++ t

/-- Give up everything an owner holds. -/
def release [DecidableEq ω] (t : Locks κ ω) (w : ω) : Locks κ ω := t.filter fun p => p.2 ≠ w

/-- Give one key up once; a key that was taken twice stays held. -/
def unlock [DecidableEq κ] [DecidableEq ω] (t : Locks κ ω) (w : ω) (k : κ) : Locks κ ω :=
  t.erase (k, w)

/-- One key, one owner. -/
def Exclusive (t : Locks κ ω) : Prop := ∀ k w v, (k, w) ∈ t → (k, v) ∈ t → w = v

variable {t : Locks κ ω} {w v : ω} {k : κ} {ks : List κ}

@[simp] theorem mem_acquire : (k, v) ∈ t.acquire w ks ↔ k ∈ ks ∧ v = w ∨ (k, v) ∈ t := by
  simp only [acquire, List.mem_append, List.mem_map, Prod.mk.injEq]
  constructor
  · rintro (⟨a, ha, rfl, rfl⟩ | h)
    · exact .inl ⟨ha, rfl⟩
    · exact .inr h
  · rintro (⟨hk, rfl⟩ | h)
    · exact .inl ⟨k, hk, rfl, rfl⟩
    · exact .inr h

@[simp] theorem mem_release [DecidableEq ω] : (k, v) ∈ t.release w ↔ (k, v) ∈ t ∧ v ≠ w := by
  simp [release]

theorem mem_of_mem_unlock [DecidableEq κ] [DecidableEq ω] {k' : κ} (h : (k', v) ∈ t.unlock w k) :
    (k', v) ∈ t :=
  List.mem_of_mem_erase h

/-- Only the owner that gives a key up can lose it. -/
theorem mem_unlock_of_ne [DecidableEq κ] [DecidableEq ω] {k' : κ} (hne : v ≠ w) :
    (k', v) ∈ t.unlock w k ↔ (k', v) ∈ t :=
  List.mem_erase_of_ne fun h => hne (congrArg Prod.snd h)

theorem exclusive_nil : Exclusive ([] : Locks κ ω) := by
  intro k w v h
  cases h

/-- Waiting for held keys keeps the table exclusive. -/
theorem Exclusive.acquire (h : Exclusive t) (ha : t.available w ks) :
    Exclusive (t.acquire w ks) := by
  intro k u v hu hv
  rw [mem_acquire] at hu hv
  rcases hu with ⟨hk, rfl⟩ | hu <;> rcases hv with ⟨hk', rfl⟩ | hv
  · rfl
  · exact (ha _ hv hk).symm
  · exact ha _ hu hk'
  · exact h k u v hu hv

/-- Releasing keeps the table exclusive. -/
theorem Exclusive.release [DecidableEq ω] (h : Exclusive t) (w : ω) : Exclusive (t.release w) := by
  intro k u v hu hv
  rw [mem_release] at hu hv
  exact h k u v hu.1 hv.1

/-- Giving one key up keeps the table exclusive. -/
theorem Exclusive.unlock [DecidableEq κ] [DecidableEq ω] (h : Exclusive t) (w : ω) (k : κ) :
    Exclusive (t.unlock w k) := by
  intro k' u v hu hv
  exact h k' u v (mem_of_mem_unlock hu) (mem_of_mem_unlock hv)

end Locks

end Selatpay
