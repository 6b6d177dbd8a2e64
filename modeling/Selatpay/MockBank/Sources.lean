import Selatpay.MockBank.Server

/-!
# Where the answers of the bank come from

However requests interleave, an answer of the bank that is no refusal was decided for a
request of the same key. Two requests of one key may both be decided, but a confirmation
always stands for a request the bank has paid.
-/

namespace Selatpay.MockBank

/-- The bank has decided the request, and this is the answer. -/
structure Exchange.DecidedAs (unmarshal : Bytes → Except String SubmitRequest) (x : Exchange)
    (v : CachedResponse) : Prop where
  decided : x.decided = 1
  decision : ∃ req newString, x.request.parse unmarshal = .ok req ∧
    v = ⟨(decide newString x.request.fail req).1, (decide newString x.request.fail req).2.marshal⟩

/-- The answer was decided for a request of the key that is finished. -/
def Source (unmarshal : Bytes → Except String SubmitRequest) (xs : List Exchange) (key : String)
    (v : CachedResponse) : Prop :=
  ∃ y ∈ xs, y.key = key ∧ y.DecidedAs unmarshal v ∧ y.prog = .ret (write v.statusCode v.body)

/-- How far a request has come, and where its answer comes from. -/
inductive Exchange.Standing (unmarshal : Bytes → Except String SubmitRequest) (xs : List Exchange)
    (x : Exchange) : Prop
  | looking (hprog : x.prog = .call (.lookup x.key) (afterLookup unmarshal x.request))
      (hdecided : x.decided = 0)
  | deciding {req : SubmitRequest} (hprog : x.prog = decideAndStore x.request req)
      (hreq : x.request.parse unmarshal = .ok req) (hdecided : x.decided = 0)
  | storing {v : CachedResponse} (hprog : x.prog = storeAndWrite x.key v.statusCode v.body)
      (hv : x.DecidedAs unmarshal v)
  | refused {msg : String} {code : Nat} (hprog : x.prog = .ret (httpError msg code))
      (hcode : 400 ≤ code)
  | answered {v : CachedResponse} (hprog : x.prog = .ret (write v.statusCode v.body))
      (hv : Source unmarshal xs x.key v)

/-- All answers have a source. -/
structure Sourced (unmarshal : Bytes → Except String SubmitRequest) (s : World) : Prop where
  exchanges : ∀ x ∈ s.exchanges, x.Standing unmarshal s.exchanges
  cache : ∀ key v, s.cache key = some v → Source unmarshal s.exchanges key v

section Sources

variable {unmarshal : Bytes → Except String SubmitRequest} {xs ys : List Exchange} {x : Exchange}
  {key : String} {v : CachedResponse}

theorem Source.mono (h : Source unmarshal xs key v)
    (hxs : ∀ y ∈ xs, ∀ r, y.prog = .ret r → y ∈ ys) : Source unmarshal ys key v := by
  obtain ⟨y, hy, hkey, hdecided, hprog⟩ := h
  exact ⟨y, hxs y hy _ hprog, hkey, hdecided, hprog⟩

theorem Exchange.Standing.mono (h : x.Standing unmarshal xs)
    (hxs : ∀ y ∈ xs, ∀ r, y.prog = .ret r → y ∈ ys) : x.Standing unmarshal ys := by
  cases h with
  | looking hprog hdecided => exact .looking hprog hdecided
  | deciding hprog hreq hdecided => exact .deciding hprog hreq hdecided
  | storing hprog hv => exact .storing hprog hv
  | refused hprog hcode => exact .refused hprog hcode
  | answered hprog hv => exact .answered hprog (hv.mono hxs)

/-- A request that has just arrived looks its key up, or is refused. -/
theorem standing_arrive (r : Request) :
    Exchange.Standing unmarshal xs ⟨r, handlePayouts unmarshal r, 0⟩ := by
  unfold handlePayouts
  split
  · exact .refused rfl (by decide)
  · split
    · exact .refused rfl (by decide)
    · exact .looking rfl rfl

/-- Finished requests stay when another one takes a step. -/
theorem mem_set_of_ret {n : Nat} {x' y : Exchange} {o : Op} {k : o.Rep → ServerM Response}
    (hx : xs[n]? = some x) (hprog : x.prog = .call o k) (hy : y ∈ xs) {r : Response}
    (hr : y.prog = .ret r) : y ∈ xs.set n x' := by
  obtain ⟨m, hm⟩ := List.mem_iff_getElem?.mp hy
  have hne : n ≠ m := by
    rintro rfl
    rw [hx] at hm
    cases hm
    rw [hprog] at hr
    cases hr
  exact List.mem_iff_getElem?.mpr ⟨m, by rw [List.getElem?_set_ne hne, hm]⟩

/-- A step of a request: it stands somewhere afterwards, and a cached answer still has a source. -/
theorem Exchange.Standing.answer {cache cache' : String → Option CachedResponse} {n : Nat}
    {x' : Exchange} {newString : UUID} (hx : x.Standing unmarshal xs)
    (hcache : ∀ key v, cache key = some v → Source unmarshal xs key v) (hn : xs[n]? = some x)
    (h : x.answer cache newString = some (x', cache')) :
    (∀ y ∈ xs, ∀ r, y.prog = .ret r → y ∈ xs.set n x') ∧
      x'.Standing unmarshal (xs.set n x') ∧
      ∀ key v, cache' key = some v → Source unmarshal (xs.set n x') key v := by
  have hset : x' ∈ xs.set n x' :=
    List.mem_iff_getElem?.mpr ⟨n, List.getElem?_set_self (List.getElem?_eq_some_iff.mp hn).1⟩
  unfold Exchange.answer at h
  cases hx with
  | looking hprog hdecided =>
    have hmono : ∀ y ∈ xs, ∀ r, y.prog = .ret r → y ∈ xs.set n x' :=
      fun y hy r hr => mem_set_of_ret hn hprog hy hr
    simp only [hprog, Option.some.injEq, Prod.mk.injEq] at h
    obtain ⟨rfl, rfl⟩ := h
    refine ⟨hmono, ?_, fun key v hv => (hcache key v hv).mono hmono⟩
    rcases hfound : cache x.key with _ | v
    · cases hparse : x.request.parse unmarshal with
      | error msg =>
        have hrefuse : afterLookup unmarshal x.request none = .ret (httpError msg 400) := by
          simp [afterLookup, hparse]
        exact .refused hrefuse (le_refl 400)
      | ok req => exact .deciding (by simp [afterLookup, hparse]) hparse hdecided
    · exact .answered rfl ((hcache _ v hfound).mono fun y hy r hr => mem_set_of_ret hn hprog hy hr)
  | @deciding req hprog hreq hdecided =>
    have hmono : ∀ y ∈ xs, ∀ r, y.prog = .ret r → y ∈ xs.set n x' :=
      fun y hy r hr => mem_set_of_ret hn hprog hy hr
    simp only [hprog, decideAndStore, Option.some.injEq, Prod.mk.injEq] at h
    obtain ⟨rfl, rfl⟩ := h
    refine ⟨hmono, ?_, fun key v hv => (hcache key v hv).mono hmono⟩
    exact .storing (v := ⟨(decide newString x.request.fail req).1,
      (decide newString x.request.fail req).2.marshal⟩) rfl
      ⟨by simp [hdecided], req, newString, hreq, rfl⟩
  | @storing v hprog hv =>
    have hmono : ∀ y ∈ xs, ∀ r, y.prog = .ret r → y ∈ xs.set n x' :=
      fun y hy r hr => mem_set_of_ret hn hprog hy hr
    simp only [hprog, storeAndWrite, Option.some.injEq, Prod.mk.injEq] at h
    obtain ⟨rfl, rfl⟩ := h
    have hsource : Source unmarshal (xs.set n _) x.key v :=
      ⟨_, hset, rfl, ⟨hv.decided, hv.decision⟩, rfl⟩
    refine ⟨hmono, .answered rfl hsource, fun key v' hv' => ?_⟩
    by_cases hkey : key = x.key
    · subst hkey
      rw [Function.update_self] at hv'
      exact Option.some.inj hv' ▸ hsource
    · rw [Function.update_of_ne hkey] at hv'
      exact (hcache key v' hv').mono hmono
  | refused hprog hcode => simp [hprog] at h
  | answered hprog hv => simp [hprog] at h

theorem Sourced.init : Sourced unmarshal .init := ⟨by simp [World.init], by simp [World.init]⟩

/-- The next step of a request leaves what was asked. -/
theorem Exchange.request_of_answer {cache cache' : String → Option CachedResponse} {x' : Exchange}
    {newString : UUID} (h : x.answer cache newString = some (x', cache')) :
    x'.request = x.request := by
  unfold Exchange.answer at h
  split at h <;> cases h <;> rfl

/-- A request keeps its place. -/
theorem getElem?_of_step {s t : World} {e : Event} (h : step unmarshal s e = some t) {n : Nat}
    (hx : s.exchanges[n]? = some x) : ∃ x', t.exchanges[n]? = some x' ∧ x'.request = x.request := by
  cases e with
  | arrive r =>
    cases h
    exact ⟨x, by rw [List.getElem?_append_left (List.getElem?_eq_some_iff.mp hx).1, hx], rfl⟩
  | call m newString =>
    simp only [step] at h
    split at h
    · cases h
    · next y hy =>
      split at h
      · cases h
      · next y' cache hanswer =>
        cases h
        obtain rfl | hne := eq_or_ne m n
        · rw [hx] at hy
          cases hy
          exact ⟨y', List.getElem?_set_self (List.getElem?_eq_some_iff.mp hx).1,
            Exchange.request_of_answer hanswer⟩
        · exact ⟨x, by rw [List.getElem?_set_ne hne, hx], rfl⟩

/-- A request was there before, or has just arrived. -/
theorem request_of_step {s t : World} {e : Event} (h : step unmarshal s e = some t)
    (hx : x ∈ t.exchanges) :
    (∃ y ∈ s.exchanges, x.request = y.request) ∨ e = .arrive x.request := by
  cases e with
  | arrive r =>
    cases h
    rcases List.mem_append.mp hx with hx | hx
    · exact .inl ⟨x, hx, rfl⟩
    · obtain rfl := List.mem_singleton.mp hx
      exact .inr rfl
  | call n newString =>
    simp only [step] at h
    split at h
    · cases h
    · next y hy =>
      split at h
      · cases h
      · next y' cache hanswer =>
        cases h
        rcases List.mem_or_eq_of_mem_set hx with hx | rfl
        · exact .inl ⟨x, hx, rfl⟩
        · exact .inl ⟨y, List.mem_of_getElem? hy, Exchange.request_of_answer hanswer⟩

/-- Finished requests stay, whatever happens. -/
theorem mem_of_step {s t : World} {e : Event} (h : step unmarshal s e = some t)
    (hx : x ∈ s.exchanges) {r : Response} (hr : x.prog = .ret r) : x ∈ t.exchanges := by
  cases e with
  | arrive r' =>
    cases h
    exact List.mem_append_left _ hx
  | call n newString =>
    simp only [step] at h
    cases hy : s.exchanges[n]? with
    | none => simp [hy] at h
    | some y =>
      cases hanswer : y.answer s.cache newString with
      | none => simp [hy, hanswer] at h
      | some next =>
        simp only [hy, hanswer, Option.some.injEq] at h
        subst h
        cases hprog : y.prog with
        | ret r' => simp [Exchange.answer, hprog] at hanswer
        | throw e => cases e
        | call o k => exact mem_set_of_ret hy hprog hx hr

/-- Every event keeps the sources. -/
theorem sourced_step {s t : World} {e : Event} (hs : Sourced unmarshal s)
    (h : step unmarshal s e = some t) : Sourced unmarshal t := by
  cases e with
  | arrive r =>
    cases h
    have hmono : ∀ y ∈ s.exchanges, ∀ r', y.prog = .ret r' →
        y ∈ s.exchanges ++ [⟨r, handlePayouts unmarshal r, 0⟩] :=
      fun y hy _ _ => List.mem_append_left _ hy
    exact ⟨Table.forall_mem_concat (fun x hx => (hs.exchanges x hx).mono hmono)
      (standing_arrive r), fun key v hv => (hs.cache key v hv).mono hmono⟩
  | call n newString =>
    simp only [step] at h
    cases hx : s.exchanges[n]? with
    | none => simp [hx] at h
    | some x =>
      cases hanswer : x.answer s.cache newString with
      | none => simp [hx, hanswer] at h
      | some next =>
        obtain ⟨x', cache⟩ := next
        simp only [hx, hanswer, Option.some.injEq] at h
        subst h
        obtain ⟨hmono, hstanding, hcache⟩ :=
          (hs.exchanges x (List.mem_of_getElem? hx)).answer hs.cache hx hanswer
        exact ⟨Table.forall_mem_set (fun y hy => (hs.exchanges y hy).mono hmono) hstanding n,
          hcache⟩

/-- The answer to a payment: the amount and the account of the request, under a new reference. -/
def paid (newString : UUID) (req : SubmitRequest) : SubmitResponse := (decide newString "" req).2

/-- A confirmation was decided for a request of the same key. -/
theorem Sourced.confirmed {s : World} (hs : Sourced unmarshal s) (hx : x ∈ s.exchanges)
    {r : Response} (hr : x.response = some r) (hok : r.statusCode < 300) :
    ∃ y ∈ s.exchanges, y.key = x.key ∧ y.decided = 1 ∧ y.response = some r ∧ ∃ req newString,
      y.request.parse unmarshal = .ok req ∧
        decide newString y.request.fail req = (200, paid newString req) ∧
        r = write 200 (paid newString req).marshal := by
  unfold Exchange.response at hr
  cases hs.exchanges x hx with
  | looking hprog hdecided => simp [hprog] at hr
  | deciding hprog hreq hdecided => simp [hprog, decideAndStore] at hr
  | storing hprog hv => simp [hprog, storeAndWrite] at hr
  | @refused msg code hprog hcode =>
    simp only [hprog, Option.some.injEq] at hr
    subst hr
    exact absurd hok (by simp only [httpError]; omega)
  | @answered v hprog hv =>
    simp only [hprog, Option.some.injEq] at hr
    subst hr
    obtain ⟨y, hy, hkey, ⟨hdecided, req, newString, hparse, rfl⟩, hret⟩ := hv
    have hpaid : decide newString y.request.fail req = (200, paid newString req) := by
      simp only [write, paid, decide] at hok ⊢
      split at hok
      · exact absurd hok (by decide)
      · split at hok
        · exact absurd hok (by decide)
        · next hretry hpermanent => simp [hretry, hpermanent]
    exact ⟨y, hy, hkey, hdecided, by rw [Exchange.response, hret], req, newString, hparse, hpaid,
      by rw [hpaid]⟩

end Sources

end Selatpay.MockBank
