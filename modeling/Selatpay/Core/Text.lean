import Mathlib.Data.List.DropRight

/-!
# Byte strings

A string is the list of its bytes, so that every byte sequence is one. `cut` splits
around the first occurrence of a byte, and the other scanners are read through it.
-/

namespace Selatpay

/-- A string, as its bytes. -/
abbrev Text := List UInt8

/-- The bytes of a literal. -/
def text (s : String) : Text := s.toUTF8.data.toList

theorem text_append (s t : String) : text (s ++ t) = text s ++ text t := by
  simp [text, String.toUTF8, String.toByteArray_append]

theorem text_injective : Function.Injective text := by
  intro s t h
  have hdata : s.toUTF8.data = t.toUTF8.data := Array.toList_inj.mp h
  exact String.toByteArray_inj.mp (ByteArray.ext hdata)

/-- The bytes of characters in ASCII are their codes. -/
theorem text_ofList {l : List Char} (h : ∀ c ∈ l, c.val ≤ 127) :
    text (String.ofList l) = l.map fun c => c.val.toUInt8 := by
  have hflat : l.flatMap String.utf8EncodeChar = l.map fun c => c.val.toUInt8 := by
    induction l with
    | nil => rfl
    | cons c l ih =>
      have hc := String.utf8EncodeChar_eq_singleton
        (Char.utf8Size_eq_one_iff.mpr (h c List.mem_cons_self))
      rw [List.flatMap_cons, hc, ih fun c hc => h c (List.mem_cons_of_mem _ hc)]
      rfl
  simp [text, String.toUTF8, List.utf8Encode, hflat]

namespace Text

/-- `strings.Cut` around a byte: the text before its first occurrence and the text after. -/
def cut (c : UInt8) : Text → Option (Text × Text)
  | [] => none
  | b :: s => if b = c then some ([], s) else (cut c s).map fun p => (b :: p.1, p.2)

/-- Cutting where two parts were joined. -/
theorem cut_append_cons {c : UInt8} {l : Text} (h : c ∉ l) (r : Text) :
    cut c (l ++ c :: r) = some (l, r) := by
  induction l with
  | nil => simp [cut]
  | cons b l ih =>
    have hb : b ≠ c := fun hb => h (hb ▸ List.mem_cons_self)
    have hl : c ∉ l := fun hl => h (List.mem_cons_of_mem b hl)
    simp [cut, hb, ih hl]

/-- The two parts of a cut surround the first occurrence of the byte. -/
theorem cut_eq_some {c : UInt8} {s l r : Text} :
    cut c s = some (l, r) ↔ s = l ++ c :: r ∧ c ∉ l := by
  constructor
  · intro h
    induction s generalizing l with
    | nil => simp [cut] at h
    | cons b s ih =>
      rw [cut] at h
      split at h
      · next hb => simp_all
      · next hb =>
        obtain ⟨⟨l', r'⟩, hcut, hp⟩ := Option.map_eq_some_iff.mp h
        obtain ⟨rfl, rfl⟩ := Prod.mk.inj hp
        obtain ⟨rfl, hl⟩ := ih hcut
        exact ⟨rfl, by simp [hl, Ne.symm hb]⟩
  · rintro ⟨rfl, hl⟩
    exact cut_append_cons hl r

/-- A text without the byte cannot be cut. -/
theorem cut_eq_none {c : UInt8} {s : Text} : cut c s = none ↔ c ∉ s := by
  induction s with
  | nil => simp [cut]
  | cons b s ih =>
    rw [cut]
    split
    · next hb => simp [hb]
    · next hb => simp [ih, Ne.symm hb]

/-- Two texts joined by a byte that neither first part has are equal part by part. -/
theorem append_cons_inj {c : UInt8} {l l' r r' : Text} (h : c ∉ l) (h' : c ∉ l')
    (he : l ++ c :: r = l' ++ c :: r') : l = l' ∧ r = r' := by
  have hcut := cut_append_cons h r
  rw [he, cut_append_cons h' r'] at hcut
  simpa [eq_comm] using hcut

/-- Two texts joined by a byte that neither last part has are equal part by part. -/
theorem append_cons_inj_right {c : UInt8} {l l' r r' : Text} (h : c ∉ r) (h' : c ∉ r')
    (he : l ++ c :: r = l' ++ c :: r') : l = l' ∧ r = r' := by
  have hrev : r.reverse ++ c :: l.reverse = r'.reverse ++ c :: l'.reverse := by
    simpa using congrArg List.reverse he
  obtain ⟨hr, hl⟩ := append_cons_inj (by simpa using h) (by simpa using h') hrev
  exact ⟨List.reverse_injective hl, List.reverse_injective hr⟩

/-- A check of every byte of a text, as a computation on the text. -/
theorem forall_mem_of_all {p : UInt8 → Prop} [DecidablePred p] {s : Text}
    (h : s.all (fun c => p c) = true) : ∀ c ∈ s, p c := by
  simpa using h

/-- A byte of joined texts is in the separator or in one of them. -/
theorem mem_of_mem_intercalate {c : UInt8} {sep : Text} {ls : List Text}
    (h : c ∈ sep.intercalate ls) : c ∈ sep ∨ ∃ l ∈ ls, c ∈ l := by
  induction ls with
  | nil => simp at h
  | cons l ls ih =>
    cases ls with
    | nil => exact .inr ⟨l, by simp, by simpa using h⟩
    | cons l' ls =>
      rw [List.intercalate_cons_cons, List.mem_append, List.mem_append] at h
      rcases h with (h | h) | h
      · exact .inr ⟨l, by simp, h⟩
      · exact .inl h
      · rcases ih h with h | ⟨m, hm, h⟩
        · exact .inl h
        · exact .inr ⟨m, List.mem_cons_of_mem l hm, h⟩

end Text

end Selatpay
