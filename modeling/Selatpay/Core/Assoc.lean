import Mathlib.Data.List.Nodup
import Mathlib.Data.List.Perm.Basic

/-!
# Maps as lists of entries

A map with a default value is a list of keys and values. An update replaces the value of
its key, or adds the key with an update of the default; reading takes the first entry of
a key, so for distinct keys the order of the entries does not matter.
-/

namespace Selatpay.Assoc

variable {κ α : Type} [DecidableEq κ]

/-- The keys of the entries. -/
def keys (es : List (κ × α)) : List κ := es.map Prod.fst

/-- The value of a key. -/
def get (d : α) : List (κ × α) → κ → α
  | [], _ => d
  | (k, v) :: es, key => if k = key then v else get d es key

/-- Replace the value of a key, which is added if it is missing. -/
def update (d : α) (key : κ) (f : α → α) : List (κ × α) → List (κ × α)
  | [] => [(key, f d)]
  | (k, v) :: es => if k = key then (k, f v) :: es else (k, v) :: update d key f es

/-- An update replaces the value of its key and no others. -/
theorem get_update (d : α) (key : κ) (f : α → α) (es : List (κ × α)) (k : κ) :
    get d (update d key f es) k = if k = key then f (get d es key) else get d es k := by
  induction es with
  | nil => simp [update, get, eq_comm]
  | cons e es ih =>
    obtain ⟨k', v⟩ := e
    rw [update]
    split
    · next he =>
      subst he
      by_cases hk : k = k'
      · simp [get, hk]
      · simp [get, hk, Ne.symm hk]
    · next he =>
      rw [get, ih]
      by_cases hk : k = key
      · simp [get, hk, he]
      · simp [get, hk]

/-- The keys after an update. -/
theorem keys_update (d : α) (key : κ) (f : α → α) (es : List (κ × α)) :
    keys (update d key f es) = if key ∈ keys es then keys es else keys es ++ [key] := by
  induction es with
  | nil => simp [update, keys]
  | cons e es ih =>
    obtain ⟨k, v⟩ := e
    rw [update]
    split
    · next hk => simp [keys, hk]
    · next hk =>
      rw [keys, List.map_cons, ← keys, ih]
      by_cases hmem : key ∈ keys es
      · simp only [keys] at hmem ⊢
        simp [hmem]
      · simp only [keys] at hmem ⊢
        simp [hmem, Ne.symm hk]

theorem nodup_keys_update (d : α) (key : κ) (f : α → α) {es : List (κ × α)}
    (h : (keys es).Nodup) : (keys (update d key f es)).Nodup := by
  rw [keys_update]
  split
  · exact h
  · next hmem => exact List.nodup_append_comm.mp (by simpa using ⟨hmem, h⟩)

/-- A missing key has the default value. -/
theorem get_of_notMem {d : α} {es : List (κ × α)} {key : κ} (h : key ∉ keys es) :
    get d es key = d := by
  induction es with
  | nil => rfl
  | cons e es ih =>
    obtain ⟨k, v⟩ := e
    obtain ⟨hk, hes⟩ := not_or.mp (fun h' => h (List.mem_cons.mpr h'))
    rw [get, if_neg (Ne.symm hk), ih hes]

/-- An entry with its key's only value is read. -/
theorem get_of_mem {d : α} {es : List (κ × α)} (h : (keys es).Nodup) {e : κ × α} (he : e ∈ es) :
    get d es e.1 = e.2 := by
  induction es with
  | nil => cases he
  | cons e' es ih =>
    obtain ⟨k, v⟩ := e'
    obtain ⟨hnot, hes⟩ := List.nodup_cons.mp h
    rw [get]
    rcases List.mem_cons.mp he with rfl | he
    · simp
    · have hmem : e.1 ∈ keys es := List.mem_map_of_mem he
      have hne : k ≠ e.1 := fun hk => hnot (hk ▸ hmem)
      rw [if_neg hne, ih hes he]

/-- The order of entries with distinct keys does not matter. -/
theorem get_perm {d : α} {es es' : List (κ × α)} (hperm : es.Perm es') (h : (keys es).Nodup)
    (key : κ) : get d es key = get d es' key := by
  have h' : (keys es').Nodup := (hperm.map Prod.fst).nodup_iff.mp h
  by_cases hmem : key ∈ keys es
  · obtain ⟨e, he, rfl⟩ := List.mem_map.mp hmem
    rw [get_of_mem h he, get_of_mem h' (hperm.mem_iff.mp he)]
  · have hmem' : key ∉ keys es' := fun hk => hmem ((hperm.map Prod.fst).mem_iff.mpr hk)
    rw [get_of_notMem hmem, get_of_notMem hmem']

end Selatpay.Assoc
