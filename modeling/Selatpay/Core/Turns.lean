import Mathlib.Data.List.Basic

/-!
# Clients that look a key up, work, and fill it

Each client of a list has a key. A client that finds its key unfilled enters a turn:
it works, then fills the key, and nothing marks the key in between. As long as no
client enters while another one of its key is in its turn, and a turn only ends with
the key filled, at most one client per key ever enters.
-/

namespace Selatpay

variable {X κ : Type} {key : X → κ} {inTurn entered : X → Prop} {filled filled' : κ → Prop}
  {xs : List X} {n : Nat} {x x' : X}

/-- A key is filled when a turn of it is over, and only one client per key has entered. -/
structure InOrder (key : X → κ) (inTurn entered : X → Prop) (filled : κ → Prop)
    (xs : List X) : Prop where
  left : ∀ x ∈ xs, entered x → ¬ inTurn x → filled (key x)
  once : ∀ (i j : Nat) (x y : X), xs[i]? = some x → xs[j]? = some y → key x = key y →
    entered x → entered y → i = j

theorem InOrder.nil : InOrder key inTurn entered filled [] :=
  ⟨by simp, by simp⟩

/-- A client arrives. -/
theorem InOrder.arrive (h : InOrder key inTurn entered filled xs) (hx : ¬ entered x) :
    InOrder key inTurn entered filled (xs ++ [x]) := by
  have hold : ∀ (i : Nat) (y : X), (xs ++ [x])[i]? = some y → entered y → xs[i]? = some y := by
    intro i y hy hentered
    by_cases hi : i < xs.length
    · rwa [List.getElem?_append_left hi] at hy
    · rw [List.getElem?_append_right (Nat.le_of_not_lt hi)] at hy
      have hmem : y ∈ [x] := List.mem_of_getElem? hy
      rw [List.mem_singleton.mp hmem] at hentered
      exact absurd hentered hx
  constructor
  · intro y hy hentered
    obtain ⟨i, hi⟩ := List.mem_iff_getElem?.mp hy
    exact h.left y (List.mem_of_getElem? (hold i y hi hentered)) hentered
  · intro i j y z hy hz hkey hentered hentered'
    exact h.once i j y z (hold i y hy hentered) (hold j z hz hentered') hkey hentered hentered'

/-- A client takes a step: it has entered before, or it enters while its key is unfilled and no
client of its key is in its turn; and it leaves a turn only with its key filled. -/
theorem InOrder.move (h : InOrder key inTurn entered filled xs)
    (hfilled : ∀ k, filled k → filled' k) (hx : xs[n]? = some x) (hkey : key x' = key x)
    (hleft : entered x' → ¬ inTurn x' → filled' (key x))
    (henter : entered x' → entered x ∨
      ¬ filled (key x) ∧ ∀ y ∈ xs, key y = key x → ¬ inTurn y) :
    InOrder key inTurn entered filled' (xs.set n x') := by
  have halone : entered x' → ∀ (j : Nat) (z : X), xs[j]? = some z → key x = key z →
      entered z → n = j := by
    intro hx' j z hz hkeys hz'
    rcases henter hx' with hbefore | ⟨hunfilled, hfree⟩
    · exact h.once n j x z hx hz hkeys hbefore hz'
    · have hmem : z ∈ xs := List.mem_of_getElem? hz
      have hz'' : filled (key z) := h.left z hmem hz' (hfree z hmem hkeys.symm)
      exact absurd (hkeys ▸ hz'') hunfilled
  have hlookup : ∀ (i : Nat) (y : X), (xs.set n x')[i]? = some y →
      n = i ∧ y = x' ∨ n ≠ i ∧ xs[i]? = some y := by
    intro i y hy
    by_cases hni : n = i
    · subst hni
      have hlt : n < xs.length := (List.getElem?_eq_some_iff.mp hx).1
      rw [List.getElem?_set_self hlt] at hy
      exact .inl ⟨rfl, (Option.some_inj.mp hy).symm⟩
    · rw [List.getElem?_set_ne hni] at hy
      exact .inr ⟨hni, hy⟩
  constructor
  · intro y hy hentered hturn
    rcases List.mem_or_eq_of_mem_set hy with hy | rfl
    · exact hfilled _ (h.left y hy hentered hturn)
    · exact hkey ▸ hleft hentered hturn
  · intro i j y z hy hz hkeys hentered hentered'
    rcases hlookup i y hy with ⟨rfl, rfl⟩ | ⟨-, hyold⟩
    · rcases hlookup j z hz with ⟨rfl, -⟩ | ⟨-, hzold⟩
      · rfl
      · exact halone hentered j z hzold (hkey ▸ hkeys) hentered'
    · rcases hlookup j z hz with ⟨rfl, rfl⟩ | ⟨-, hzold⟩
      · exact (halone hentered' i y hyold (hkey ▸ hkeys.symm) hentered).symm
      · exact h.once i j y z hyold hzold hkeys hentered hentered'

end Selatpay
