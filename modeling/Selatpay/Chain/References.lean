import Selatpay.Chain.Watcher

/-!
# The references of a message

`referencesIn` walks the account keys with the set of known references and the set of
those it has reported. What it reports under any such sets is described once, by
membership and by the order of first occurrences; the reference a deposit is bound to is
the first of them.
-/

namespace Selatpay.Chain

open Store

section Loop

variable {known seen keys : List PublicKey} {ref : PublicKey}

/-- Reported are the known keys that were not reported before. -/
theorem mem_referencesLoop :
    ref ∈ referencesLoop known seen keys ↔ ref ∈ known ∧ ref ∉ seen ∧ ref ∈ keys := by
  induction keys generalizing seen with
  | nil => simp [referencesLoop]
  | cons key keys ih =>
    rw [referencesLoop]
    split
    · next hknown =>
      have hne : ref ∈ known → ref ≠ key := fun hmem he => hknown (he ▸ hmem)
      rw [ih, List.mem_cons]
      tauto
    · split
      · next hknown hseen =>
        have hne : ref ∉ seen → ref ≠ key := fun hmem he => hmem (he ▸ hseen)
        rw [ih, List.mem_cons]
        tauto
      · next hknown hseen =>
        rw [List.mem_cons, ih, List.mem_cons, List.mem_cons]
        by_cases he : ref = key
        · subst he
          simp_all
        · tauto

/-- Each reference is reported once. -/
theorem nodup_referencesLoop : (referencesLoop known seen keys).Nodup := by
  induction keys generalizing seen with
  | nil => exact List.nodup_nil
  | cons key keys ih =>
    rw [referencesLoop]
    split
    · exact ih
    · split
      · exact ih
      · refine List.nodup_cons.mpr ⟨fun hmem => ?_, ih⟩
        exact (mem_referencesLoop.mp hmem).2.1 List.mem_cons_self

/-- Keys other than the first keep the order of their first occurrences behind it. -/
theorem pairwise_idxOf_cons {l : List PublicKey} {key : PublicKey} (hne : key ∉ l)
    (h : l.Pairwise fun a b => keys.idxOf a < keys.idxOf b) :
    l.Pairwise fun a b => (key :: keys).idxOf a < (key :: keys).idxOf b := by
  refine h.imp_of_mem fun {a b} ha hb hlt => ?_
  have hshift : ∀ c ∈ l, (key :: keys).idxOf c = keys.idxOf c + 1 := fun c hc =>
    List.idxOf_cons_ne _ fun he => hne (he ▸ hc)
  rw [hshift a ha, hshift b hb]
  omega

/-- References are reported in the order of their first occurrences. -/
theorem pairwise_referencesLoop :
    (referencesLoop known seen keys).Pairwise fun a b => keys.idxOf a < keys.idxOf b := by
  induction keys generalizing seen with
  | nil => exact List.Pairwise.nil
  | cons key keys ih =>
    rw [referencesLoop]
    split
    · next hknown =>
      exact pairwise_idxOf_cons (fun hmem => hknown (mem_referencesLoop.mp hmem).1) ih
    · split
      · next hseen =>
        exact pairwise_idxOf_cons (fun hmem => (mem_referencesLoop.mp hmem).2.1 hseen) ih
      · have hnot : key ∉ referencesLoop known (key :: seen) keys := fun hmem =>
          (mem_referencesLoop.mp hmem).2.1 List.mem_cons_self
        refine List.pairwise_cons.mpr ⟨fun b hb => ?_, pairwise_idxOf_cons hnot ih⟩
        have hne : key ≠ b := fun he => hnot (he ▸ hb)
        rw [List.idxOf_cons_self, List.idxOf_cons_ne _ hne]
        omega

/-- The first reported reference is the first known key that was not reported before. -/
theorem head?_referencesLoop :
    (referencesLoop known seen keys).head? = keys.find? fun key => key ∈ known ∧ key ∉ seen := by
  induction keys generalizing seen with
  | nil => rfl
  | cons key keys ih =>
    rw [referencesLoop]
    split
    · next hknown => simp [ih, hknown]
    · split
      · next hseen => simp [ih, hseen]
      · next hknown hseen => simp [not_not.mp hknown, hseen]

/-- Only the set of known references matters. -/
theorem referencesLoop_congr {known' : List PublicKey} (h : ∀ ref, ref ∈ known ↔ ref ∈ known') :
    referencesLoop known seen keys = referencesLoop known' seen keys := by
  induction keys generalizing seen with
  | nil => rfl
  | cons key keys ih => simp only [referencesLoop, h, ih]

end Loop

theorem referencesIn_of_resolved {msg : Message} {keys : List PublicKey}
    (h : msg.accountMetaList = .ok keys) (known : List PublicKey) :
    referencesIn msg known = referencesLoop known [] keys := by
  rw [referencesIn, h]

/-- Of a message whose account keys resolve, the references found are the known ones among its
keys, each once and in the order of first occurrences. A deposit is bound to the first key that is
known, in whatever order the known references are listed. -/
theorem referencesIn_ordered_intersection (msg : Message) (keys : List PublicKey)
    (hkeys : msg.accountMetaList = .ok keys) :
    (∀ known : List PublicKey,
      (∀ ref, ref ∈ referencesIn msg known ↔ ref ∈ known ∧ ref ∈ keys) ∧
      (referencesIn msg known).Nodup ∧
      (referencesIn msg known).Pairwise fun a b => keys.idxOf a < keys.idxOf b) ∧
    ∀ (refs : References) (deposit : Deposit),
      matchReference refs deposit msg =
        .seen deposit (keys.find? fun key => key ∈ refs.map Prod.fst) ∧
      ∀ refs' : References, (∀ ref, ref ∈ refs'.map Prod.fst ↔ ref ∈ refs.map Prod.fst) →
        matchReference refs' deposit msg = matchReference refs deposit msg := by
  refine ⟨fun known => ?_, fun refs deposit => ?_⟩
  · rw [referencesIn_of_resolved hkeys]
    refine ⟨fun ref => ?_, nodup_referencesLoop, pairwise_referencesLoop⟩
    simp [mem_referencesLoop]
  · constructor
    · rw [matchReference, referencesIn_of_resolved hkeys, head?_referencesLoop]
      simp
    · intro refs' hsame
      rw [matchReference, matchReference, referencesIn_of_resolved hkeys,
        referencesIn_of_resolved hkeys, referencesLoop_congr hsame]

/-- A message with two references of which one occurs twice. -/
def repeatedReference : Message := .plain [5, 2, 3, 2, 7] false []

/-- The repeated reference is reported once, and the deposit is bound to it in both orders of the
known references. -/
theorem referencesIn_ordered_intersection_repeated :
    referencesIn repeatedReference [3, 9, 2] = [2, 3] ∧
    (referencesIn repeatedReference [3, 9, 2]).Nodup ∧
    matchReference [(3, 30), (2, 20)] ⟨"sig", 1, none, ⟨4, 6, 5, 4, 1, 6⟩, .finalized⟩
        repeatedReference =
      matchReference [(2, 20), (3, 30)] ⟨"sig", 1, none, ⟨4, 6, 5, 4, 1, 6⟩, .finalized⟩
        repeatedReference := by
  obtain ⟨hfound, hbound⟩ :=
    referencesIn_ordered_intersection repeatedReference [5, 2, 3, 2, 7] rfl
  refine ⟨by decide, (hfound [3, 9, 2]).2.1, ?_⟩
  exact (hbound _ _).2 _ (by simp [or_comm])

end Selatpay.Chain
