import Selatpay.Chain.Promotion
import Selatpay.Settlement.Intents
import Selatpay.Settlement.Links

/-!
# The poll loop

`PollReferences` lists the signatures of every known reference and processes each of
them at confirmed commitment. After the references were reloaded, one such sweep
stores and links every deposit the node still lists: a missing row is inserted, a row
without a link gets it, and a row that was finalized before it was linked gets its run.
-/

namespace Selatpay.Settlement

open Store Saga Chain

/-! ## The sweep -/

/-- A signature as the node lists it for an address. -/
structure TransactionSignature where
  signature : String
  failed : Bool
  deriving DecidableEq, Repr

/-- What the node answers at confirmed commitment. -/
structure RpcClient where
  signaturesForAddress : PublicKey → List TransactionSignature
  transaction : String → RpcAnswer

/-- The signatures of a reference that are processed: the newest ones that succeeded. -/
def RpcClient.listed (rpc : RpcClient) (pollLimit : Nat) (ref : PublicKey) : List String :=
  (((rpc.signaturesForAddress ref).take pollLimit).filter fun s => !s.failed).map
    TransactionSignature.signature

/-- `Watcher.ProcessSignature` without interruption. The identifier and the time are those the
database assigns when it inserts rows; a row that it refuses is given up. -/
def World.processSignature (env : Env) (s : World) (signature : String) (commitment : Commitment)
    (answer : RpcAnswer) (uuid : UUID) (now : Time) : Option World :=
  match checkTransfer env.watcher signature commitment answer with
  | .ok (some (deposit, message)) => run (World.step env) s [.observe signature commitment answer,
      .link s.sightings.length,
      if acceptable s.db (linkedRow s.refs deposit message now) then
        .record s.sightings.length uuid now
      else .forget s.sightings.length]
  | _ => run (World.step env) s [.observe signature commitment answer]

/-- The inner loop of `PollReferences`: whatever becomes of a signature, it goes on to the next.
Each is processed with an identifier and a time of its own. -/
def World.processSignatures (env : Env) (rpc : RpcClient) :
    World → List String → List (UUID × Time) → Option World
  | s, [], _ => some s
  | s, signature :: rest, (uuid, now) :: choices =>
    match s.processSignature env signature .confirmed (rpc.transaction signature) uuid now with
    | none => none
    | some t => World.processSignatures env rpc t rest choices
  | _, _ :: _, [] => none

/-- `Watcher.PollReferences`, which visits the known references in any order. -/
def World.pollReferences (env : Env) (rpc : RpcClient) (pollLimit : Nat) (s : World)
    (order : List PublicKey) (choices : List (UUID × Time)) : Option World :=
  World.processSignatures env rpc s (order.flatMap (rpc.listed pollLimit)) choices

/-- The intent a signature is linked to. -/
def linkOf (db : Db) (signature : String) : Option UUID :=
  (storedPayment db signature).bind OnchainPayment.intentID

/-- The signature is stored with the intent. -/
def StoredWith (db : Db) (signature : String) (intentID : Option UUID) : Prop :=
  ∃ row, storedPayment db signature = some row ∧ row.intentID = intentID

section Process

variable {env : Env} {s t : World} {signature : String} {commitment : Commitment}
  {answer : RpcAnswer} {uuid : UUID} {now : Time}

/-- Processing a signature is a run of the system. -/
theorem processSignature_path
    (h : s.processSignature env signature commitment answer uuid now = some t) :
    ∃ es, Path (World.step env) anyStep s es t := by
  unfold World.processSignature at h
  split at h <;> exact ⟨_, .of_run h⟩

/-- A transaction that is not a deposit is skipped. -/
theorem processSignature_other
    (hcheck : ∀ found, checkTransfer env.watcher signature commitment answer ≠ .ok (some found))
    (h : s.processSignature env signature commitment answer uuid now = some t) : t = s := by
  cases hfound : checkTransfer env.watcher signature commitment answer with
  | error msg => simpa [World.processSignature, hfound, run, World.step] using h.symm
  | ok found =>
    cases found with
    | none => simpa [World.processSignature, hfound, run, World.step] using h.symm
    | some found => exact absurd hfound (hcheck found)

/-- A deposit is upserted with the intent its reference is known for, or refused. The database
assigns an unused identifier and a time that has come. -/
theorem processSignature_eq {deposit : Deposit} {message : Message}
    (hcheck : checkTransfer env.watcher signature commitment answer =
      .ok (some (deposit, message))) :
    s.processSignature env signature commitment answer uuid now =
      if acceptable s.db (linkedRow s.refs deposit message now) then
        if now ≤ s.now ∧ s.tx.unseen engine (.id uuid) then
          some { s with
            tx.db := recordDeposit s.db (linkedRow s.refs deposit message now) uuid now }
        else none
      else some s := by
  have hlast : ∀ x : Sighting, (s.sightings ++ [x])[s.sightings.length]? = some x := by simp
  have hset : ∀ x y : Sighting, (s.sightings ++ [x]).set s.sightings.length y =
      s.sightings ++ [y] := by simp
  have herase : ∀ x : Sighting, (s.sightings ++ [x]).eraseIdx s.sightings.length =
      s.sightings := by simp [List.eraseIdx_append_of_length_le]
  simp only [World.processSignature, hcheck]
  by_cases haccepted : acceptable s.db (linkedRow s.refs deposit message now)
  · have hrow : depositRow deposit _ _ now = linkedRow s.refs deposit message now := rfl
    simp only [if_pos haccepted, run, World.step, hcheck, matchReference, hlast, linkReference,
      hset, herase, hrow]
    by_cases hassigned : now ≤ s.now ∧ s.tx.unseen engine (.id uuid)
    · rw [if_pos hassigned, if_pos ⟨hassigned.1, haccepted, hassigned.2⟩]
    · rw [if_neg hassigned, if_neg fun h => hassigned ⟨h.1, h.2.2⟩]
  · simp only [if_neg haccepted, run, World.step, hcheck, matchReference, hlast, linkReference,
      hset, herase]

/-- What has become of a deposit. -/
theorem processSignature_deposit {deposit : Deposit} {message : Message}
    (hcheck : checkTransfer env.watcher signature commitment answer =
      .ok (some (deposit, message)))
    (h : s.processSignature env signature commitment answer uuid now = some t) :
    acceptable s.db (linkedRow s.refs deposit message now) ∧
        t = { s with
          tx.db := recordDeposit s.db (linkedRow s.refs deposit message now) uuid now } ∨
      ¬ acceptable s.db (linkedRow s.refs deposit message now) ∧ t = s := by
  rw [processSignature_eq hcheck] at h
  split at h
  · next haccepted =>
    split at h <;> cases h
    exact .inl ⟨haccepted, rfl⟩
  · next hrefused =>
    cases h
    exact .inr ⟨hrefused, rfl⟩

/-- Processing a signature changes nothing, or records a row for it. -/
theorem processSignature_cases
    (h : s.processSignature env signature commitment answer uuid now = some t) :
    t = s ∨ ∃ row : OnchainPayment, row.signature = signature ∧
      t = { s with tx.db := recordDeposit s.db row uuid now } := by
  by_cases hcheck : ∃ found,
      checkTransfer env.watcher signature commitment answer = .ok (some found)
  · obtain ⟨⟨deposit, message⟩, hcheck⟩ := hcheck
    rcases processSignature_deposit hcheck h with ⟨-, heq⟩ | ⟨-, heq⟩
    · exact .inr ⟨linkedRow s.refs deposit message now, (checkTransfer_ok hcheck).1, heq⟩
    · exact .inl heq
  · rw [not_exists] at hcheck
    exact .inl (processSignature_other hcheck h)

/-- Only the payments and the runs change. -/
theorem processSignature_keeps
    (h : s.processSignature env signature commitment answer uuid now = some t) :
    t.refs = s.refs ∧ t.now = s.now ∧ t.db.intents = s.db.intents ∧
      ∀ id, id ≠ uuid → s.tx.unseen engine (.id id) → t.tx.unseen engine (.id id) := by
  rcases processSignature_cases h with rfl | ⟨row, -, rfl⟩
  · exact ⟨rfl, rfl, rfl, fun _ _ hid => hid⟩
  · refine ⟨rfl, rfl, recordDeposit_intents _ _ _ _, fun id hne hid => ⟨fun hmem => ?_, hid.2⟩⟩
    obtain ⟨ks, hperm, -, hks⟩ := keys_recordDeposit s.db row uuid now
    rcases List.mem_append.mp (hperm.mem_iff.mp hmem) with hold | hnew
    · exact hid.1 hold
    · rcases hks _ hnew with heq | ⟨hwatcher, -⟩
      · exact hne (by simpa using heq)
      · cases hwatcher

/-- With an unused identifier and a time that has come, a signature is processed. -/
theorem exists_processSignature (hnow : now ≤ s.now) (hid : s.tx.unseen engine (.id uuid)) :
    ∃ t, s.processSignature env signature commitment answer uuid now = some t := by
  cases hcheck : checkTransfer env.watcher signature commitment answer with
  | error msg => exact ⟨s, by simp [World.processSignature, hcheck, run, World.step]⟩
  | ok found =>
    cases found with
    | none => exact ⟨s, by simp [World.processSignature, hcheck, run, World.step]⟩
    | some found =>
      obtain ⟨deposit, message⟩ := found
      rw [processSignature_eq hcheck]
      split
      · rw [if_pos ⟨hnow, hid⟩]
        exact ⟨_, rfl⟩
      · exact ⟨s, rfl⟩

/-- On the database it is `ProcessSignature` with the references as they are. -/
theorem processSignature_db
    (h : s.processSignature env signature commitment answer uuid now = some t) :
    Chain.processSignature env.watcher s.refs s.db signature commitment answer uuid now =
        .ok t.db ∨
      t = s ∧ ∃ msg, Chain.processSignature env.watcher s.refs s.db signature commitment answer uuid
        now = .error msg := by
  cases hcheck : checkTransfer env.watcher signature commitment answer with
  | error msg =>
    rw [processSignature_other (by simp [hcheck]) h]
    exact .inr ⟨rfl, msg, by simp [Chain.processSignature, hcheck]⟩
  | ok found =>
    cases found with
    | none =>
      rw [processSignature_other (by simp [hcheck]) h]
      exact .inl (by simp [Chain.processSignature, hcheck])
    | some found =>
      obtain ⟨deposit, message⟩ := found
      rcases processSignature_deposit hcheck h with ⟨haccepted, rfl⟩ | ⟨hrefused, rfl⟩
      · exact .inl (by simp [Chain.processSignature, hcheck, haccepted])
      · exact .inr ⟨rfl, _, by simp [Chain.processSignature, hcheck, hrefused]; rfl⟩

end Process

section Sweep

variable {env : Env} {rpc : RpcClient} {s t : World} {signature other : String} {intentID : UUID}
  {uuid : UUID} {now : Time}

/-- The node has a deposit for the signature that the table admits and that mentions one known
reference, and it is that of the intent. -/
def DepositFor (env : Env) (rpc : RpcClient) (refs : References) (signature : String)
    (intentID : UUID) : Prop :=
  ∃ deposit message, checkTransfer env.watcher signature .confirmed (rpc.transaction signature) =
      .ok (some (deposit, message)) ∧ 0 < deposit.transfer.amount ∧ 0 ≤ deposit.slot ∧
    ∃ ref, referencesIn message (refs.map Prod.fst) = [ref] ∧
      intentIDPtr (refs.lookup ref) = some intentID

/-- A deposit is stored with the intent of the row, if it has one, and else with its own. -/
theorem storedWith_recordDeposit (db : Db) (new : OnchainPayment) (uuid : UUID) (now : Time) :
    StoredWith (recordDeposit db new uuid now) new.signature
      ((linkOf db new.signature).or new.intentID) := by
  have hrow := storedPayment_upsert_self db new
  refine ⟨((storedPayment db new.signature).map (mergePayment · new)).getD new, ?_, ?_⟩
  · rwa [storedPayment, recordDeposit_payments]
  · cases hstored : storedPayment db new.signature with
    | none => simp [linkOf, hstored]
    | some old => simp [linkOf, hstored, mergePayment]

/-- Processing the signature of such a deposit stores it. -/
theorem processSignature_self (hd : DepositFor env rpc s.refs signature intentID)
    (hintent : ∃ i ∈ s.db.intents, i.id = intentID)
    (h : s.processSignature env signature .confirmed (rpc.transaction signature) uuid now =
      some t) :
    StoredWith t.db signature ((linkOf s.db signature).or (some intentID)) := by
  obtain ⟨deposit, message, hcheck, hpos, hslot, ref, hrefs, hlookup⟩ := hd
  have hlinked : (linkedRow s.refs deposit message now).intentID = some intentID := by
    simp only [linkedRow, depositRow, hrefs]
    exact hlookup
  have haccepted : acceptable s.db (linkedRow s.refs deposit message now) := by
    refine ⟨Int.natCast_pos.mpr hpos, hslot, fun id hid => ?_⟩
    cases hlinked.symm.trans hid
    exact hintent
  obtain ⟨-, rfl⟩ := (processSignature_deposit hcheck h).resolve_right fun hrefused =>
    hrefused.1 haccepted
  have hstored := storedWith_recordDeposit s.db (linkedRow s.refs deposit message now) uuid now
  have hsig : (linkedRow s.refs deposit message now).signature = signature :=
    (checkTransfer_ok hcheck).1
  rwa [hsig, hlinked] at hstored

/-- Processing another signature leaves the row alone. -/
theorem processSignature_ne (hne : other ≠ signature)
    (h : s.processSignature env other .confirmed (rpc.transaction other) uuid now = some t) :
    storedPayment t.db signature = storedPayment s.db signature := by
  rcases processSignature_cases h with rfl | ⟨row, hrow, rfl⟩
  · rfl
  · rw [World.db, storedPayment, recordDeposit_payments]
    exact storedPayment_upsert_ne (hrow.trans_ne hne)

/-- With enough unused identifiers and times that have come, a sweep comes to its end. -/
theorem exists_processSignatures (env : Env) (rpc : RpcClient) (signatures : List String)
    {choices : List (UUID × Time)} (hlength : signatures.length ≤ choices.length)
    (hnodup : (choices.map Prod.fst).Nodup)
    (hfresh : ∀ c ∈ choices, c.2 ≤ s.now ∧ s.tx.unseen engine (.id c.1)) :
    ∃ t, World.processSignatures env rpc s signatures choices = some t := by
  induction signatures generalizing s choices with
  | nil => exact ⟨s, rfl⟩
  | cons signature rest ih =>
    cases choices with
    | nil => cases hlength
    | cons choice choices =>
      obtain ⟨uuid, now⟩ := choice
      obtain ⟨hchoice, hchoices⟩ := List.forall_mem_cons.mp hfresh
      obtain ⟨hnew, hnodup⟩ := List.nodup_cons.mp hnodup
      obtain ⟨u, hu⟩ : ∃ u, s.processSignature env signature .confirmed
          (rpc.transaction signature) uuid now = some u :=
        exists_processSignature hchoice.1 hchoice.2
      obtain ⟨-, hnow, -, hunseen⟩ := processSignature_keeps hu
      obtain ⟨t, ht⟩ := ih (s := u) (Nat.le_of_succ_le_succ hlength) hnodup fun c hc => by
        have hne : c.1 ≠ uuid := fun heq => hnew (List.mem_map.mpr ⟨c, hc, heq⟩)
        exact ⟨hnow ▸ (hchoices c hc).1, hunseen c.1 hne (hchoices c hc).2⟩
      exact ⟨t, by simp only [World.processSignatures, hu, ht]⟩

theorem processSignatures_path {signatures : List String} {choices : List (UUID × Time)}
    (h : World.processSignatures env rpc s signatures choices = some t) :
    ∃ es, Path (World.step env) anyStep s es t := by
  induction signatures generalizing s choices with
  | nil =>
    cases h
    exact ⟨[], .nil _⟩
  | cons signature rest ih =>
    cases choices with
    | nil => cases h
    | cons choice choices =>
      simp only [World.processSignatures] at h
      split at h
      · cases h
      · rename_i hfirst
        obtain ⟨es, hes⟩ := processSignature_path hfirst
        obtain ⟨es', hes'⟩ := ih h
        exact ⟨es ++ es', hes.append hes'⟩

/-- A sweep over signatures stores the deposit of each of them. The row is linked when its
signature is processed for the first time, and from then on it keeps the link. -/
theorem processSignatures_stores {signatures : List String} {choices : List (UUID × Time)}
    {link : Option UUID} (hd : DepositFor env rpc s.refs signature intentID)
    (hintent : ∃ i ∈ s.db.intents, i.id = intentID)
    (hlink : (linkOf s.db signature).or (some intentID) = link)
    (hdone : signature ∈ signatures ∨ StoredWith s.db signature link)
    (h : World.processSignatures env rpc s signatures choices = some t) :
    StoredWith t.db signature link := by
  induction signatures generalizing s choices with
  | nil =>
    cases h
    exact hdone.resolve_left List.not_mem_nil
  | cons first rest ih =>
    cases choices with
    | nil => cases h
    | cons choice choices =>
      simp only [World.processSignatures] at h
      split at h
      · cases h
      · rename_i u hfirst
        obtain ⟨hrefs, -, hintents, -⟩ := processSignature_keeps hfirst
        have hintent' : ∃ i ∈ u.db.intents, i.id = intentID := by rwa [hintents]
        by_cases heq : first = signature
        · rw [heq] at hfirst
          have hstored := processSignature_self hd hintent hfirst
          rw [hlink] at hstored
          refine ih (hrefs ▸ hd) hintent' ?_ (.inr hstored) h
          obtain ⟨row, hrow, hid⟩ := hstored
          rw [linkOf, hrow, Option.bind_some, hid, ← hlink, Option.or_assoc, Option.or_self]
        · have hframe := processSignature_ne heq hfirst
          refine ih (hrefs ▸ hd) hintent' (by rwa [linkOf, hframe]) ?_ h
          rw [StoredWith, hframe]
          exact hdone.imp_left fun hmem => (List.mem_cons.mp hmem).resolve_left (Ne.symm heq)

end Sweep

/-! ## The known references -/

/-- After a reload the map holds the intent of every active reference. -/
theorem lookup_refreshReferences {db : Db} (hdb : IntentsIssued db) {i : PaymentIntent}
    (hi : i ∈ db.intents) (hactive : i.state = .pending ∨ i.state = .funded) {ref : PublicKey}
    (href : i.referencePubkey = some ref) : (refreshReferences db).lookup ref = i.id := by
  have hmem : (ref, i.id) ∈ refreshReferences db := by
    simp only [refreshReferences, List.mem_filterMap, List.mem_filter]
    exact ⟨i, ⟨hi, by simpa using hactive⟩, by simp [href]⟩
  unfold References.lookup
  split
  · rename_i r hfind
    have hpub : r.1 = ref := by simpa using List.find?_some hfind
    obtain ⟨j, hj, hid, href'⟩ := referenceOf_refreshReferences
      (List.mem_reverse.mp (List.mem_of_find?_eq_some hfind))
    rw [hpub] at href'
    rw [← hid]
    exact hdb.references j hj i hi ref href' href
  · rename_i hnone
    exact absurd (List.mem_reverse.mpr hmem) fun hmem => by
      simpa using List.find?_eq_none.mp hnone _ hmem

/-- A sweep comes to its end if the database has an unused identifier and a time for each listed
signature. -/
theorem exists_pollReferences (env : Env) (rpc : RpcClient) (pollLimit : Nat) {s : World}
    {order : List PublicKey} {choices : List (UUID × Time)}
    (hlength : (order.flatMap (rpc.listed pollLimit)).length ≤ choices.length)
    (hnodup : (choices.map Prod.fst).Nodup)
    (hfresh : ∀ c ∈ choices, c.2 ≤ s.now ∧ s.tx.unseen engine (.id c.1)) :
    ∃ t, s.pollReferences env rpc pollLimit order choices = some t :=
  exists_processSignatures env rpc _ hlength hnodup hfresh

theorem mem_listed {rpc : RpcClient} {pollLimit : Nat} {ref : PublicKey} {l : TransactionSignature}
    (hlimit : (rpc.signaturesForAddress ref).length ≤ pollLimit)
    (hl : l ∈ rpc.signaturesForAddress ref) (hsuccess : l.failed = false) :
    l.signature ∈ rpc.listed pollLimit ref := by
  refine List.mem_map_of_mem (List.mem_filter.mpr ⟨?_, by simp [hsuccess]⟩)
  rwa [List.take_of_length_le hlimit]

/-- From every reachable state, a reload of the references and one sweep store and link every
successful deposit that the node lists for the reference of an active intent and that mentions no
other active reference, unless its row was linked to another intent before; and if the row is
finalized, the intent has a settlement run. -/
theorem poll_links_deposits {env : Env} {rpc : RpcClient} {pollLimit : Nat} {s s₁ t : World}
    {order : List PublicKey} {choices : List (UUID × Time)} (h : Reachable env anyStep s)
    (hrefresh : s.step env .refresh = some s₁)
    (horder : ∀ pub, pub ∈ order ↔ pub ∈ s₁.refs.map Prod.fst)
    (hpoll : s₁.pollReferences env rpc pollLimit order choices = some t)
    {i : PaymentIntent} (hi : i ∈ s.db.intents)
    (hactive : i.state = .pending ∨ i.state = .funded) {ref : PublicKey}
    (href : i.referencePubkey = some ref)
    (hlimit : (rpc.signaturesForAddress ref).length ≤ pollLimit) {l : TransactionSignature}
    (hlisted : l ∈ rpc.signaturesForAddress ref) (hsuccess : l.failed = false)
    {deposit : Deposit} {message : Message}
    (hdeposit : checkTransfer env.watcher l.signature .confirmed (rpc.transaction l.signature) =
      .ok (some (deposit, message)))
    (hpos : 0 < deposit.transfer.amount) (hslot : 0 ≤ deposit.slot)
    (honly : referencesIn message (s₁.refs.map Prod.fst) = [ref]) :
    ∃ p ∈ t.db.payments, p.signature = l.signature ∧
      (p.intentID = some i.id ∨ ∃ old ∈ s.db.payments, old.signature = l.signature ∧
        ∃ j, old.intentID = some j ∧ j ≠ i.id) ∧
      (p.intentID = some i.id → p.commitment = .finalized → settlementRuns t.db i.id ≠ []) := by
  have hreach₁ : Reachable env anyStep s₁ := h.append (.cons trivial hrefresh (.nil _))
  cases hrefresh
  have hissued := h.issued
  have hne : i.id ≠ 0 := (hissued.issued i hi).id_ne
  have hlookup := lookup_refreshReferences hissued hi hactive href
  have hptr : intentIDPtr ((refreshReferences s.db).lookup ref) = some i.id := by
    rw [hlookup, intentIDPtr, if_neg hne]
  have hknown : ref ∈ (refreshReferences s.db).map Prod.fst :=
    List.mem_map_of_mem (f := Prod.fst) (mem_of_lookup (hlookup ▸ hne))
  have hprocessed : l.signature ∈ order.flatMap (rpc.listed pollLimit) :=
    List.mem_flatMap.mpr ⟨ref, (horder ref).mpr hknown, mem_listed hlimit hlisted hsuccess⟩
  obtain ⟨p, hp, hlink⟩ := processSignatures_stores
    ⟨deposit, message, hdeposit, hpos, hslot, ref, honly, hptr⟩ ⟨i, hi, rfl⟩ rfl
    (.inl hprocessed) hpoll
  obtain ⟨hmem, hsig⟩ := Table.mem_of_find hp
  refine ⟨p, hmem, hsig, ?_, fun hid hfinal => ?_⟩
  · change p.intentID = (linkOf s.db l.signature).or (some i.id) at hlink
    rw [hlink]
    cases hbefore : linkOf s.db l.signature with
    | none => exact .inl rfl
    | some j =>
      obtain ⟨old, hold, hj⟩ := Option.bind_eq_some_iff.mp hbefore
      obtain ⟨hmem', hsig'⟩ := Table.mem_of_find hold
      by_cases heq : j = i.id
      · exact .inl (by rw [heq, Option.or_self])
      · exact .inr ⟨old, hmem', hsig', j, hj, heq⟩
  · obtain ⟨es, hes⟩ := processSignatures_path hpoll
    have hmatch := (hreach₁.append hes).deposits.2.1
    exact (settlementRuns_ne_nil hmatch i.id).mpr ⟨p, hmem, hid, hfinal⟩

/-- A node that lists a failed transaction and a deposit for the reference 99. -/
def smallRpc : RpcClient where
  signaturesForAddress ref := if ref = 99 then [⟨"sig-0", true⟩, ⟨"sig-1", false⟩] else []
  transaction _ := .found 5 none (transferMessage 61847)

/-- A deposit that was finalized before its reference was known gets its link and its run. -/
theorem poll_links_deposits_finalizedUnlinked : ∃ (s t : World) (p : OnchainPayment),
    Reachable smallEnv anyStep s ∧ settlementRuns s.db 3 = [] ∧
      World.pollReferences smallEnv smallRpc 20 { s with refs := refreshReferences s.db } [99]
        [(4, 0)] = some t ∧
      p ∈ t.db.payments ∧ Settled p 3 ∧ settlementRuns t.db 3 ≠ [] := by
  obtain ⟨s, hs, hunlinked, hruns, ⟨i, hi, hid, hactive, href⟩, hrefs, hpoll⟩ : ∃ s,
      runIf (World.step smallEnv) anyStep smallWorld (linkedLate.take 4) = some s ∧
      (∀ p ∈ s.db.payments, p.intentID = none) ∧ settlementRuns s.db 3 = [] ∧
      (∃ i ∈ s.db.intents, i.id = 3 ∧ i.state = .pending ∧ i.referencePubkey = some 99) ∧
      (refreshReferences s.db).map Prod.fst = [99] ∧
      (World.pollReferences smallEnv smallRpc 20 { s with refs := refreshReferences s.db } [99]
        [(4, 0)]).any (fun t => ∀ p ∈ t.db.payments, p.commitment = .finalized) = true :=
    exists_of_any (by decide +kernel)
  obtain ⟨t, ht, hfinal⟩ := exists_of_any hpoll
  have h := reachable_of_runIf hs
  obtain ⟨p, hp, -, hlinked, hrun⟩ := @poll_links_deposits smallEnv smallRpc 20 s _ t [99] _ h rfl
    (fun pub => by rw [hrefs]) ht i hi (.inl hactive) 99 href (by decide) ⟨"sig-1", false⟩
    (by decide) rfl _ (transferMessage 61847) rfl (by decide) (by decide) (by rw [hrefs]; decide)
  have hlink : p.intentID = some i.id := by
    refine hlinked.resolve_right ?_
    rintro ⟨old, hold, -, j, hj, -⟩
    rw [hunlinked old hold] at hj
    cases hj
  rw [hid] at hlink hrun
  exact ⟨s, t, p, h, hruns, ht, hp, ⟨hlink, hfinal p hp⟩, hrun hlink (hfinal p hp)⟩

end Selatpay.Settlement
