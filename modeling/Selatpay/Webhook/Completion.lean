import Selatpay.MockBank.Server
import Selatpay.Outbox.Dispatcher
import Selatpay.Settlement.Events
import Selatpay.Webhook.Sender

/-!
# The event of a settlement, from the step to the merchant

What `emit_completed` publishes goes through a row of the outbox and the sender to the
address of the merchant. At every attempt the request that is posted verifies there under
the secret of that merchant, and its idempotency key names the intent and no other.
-/

namespace Selatpay.Webhook

open Http Store Saga

open MockBank (jsonString)
open Settlement (EventOf)

/-- The header receivers find repeated events by. -/
def idempotencyHeader : Text := text "X-Selatpay-Idempotency-Key"

/-- The idempotency key of the event of an intent. -/
def idempotencyKey (intentID : UUID) : Text := text ("intent.completed:" ++ intentID.text)

/-- The entries of a map of headers. -/
def entriesOf (headers : List (String × String)) : List (Text × Text) :=
  headers.map fun e => (text e.1, text e.2)

/-- The row of the outbox at any attempt: what was published for the event, over the text that the
column of the payload gives back. -/
structure StoredAs (column : CompletedEvent → String) (o : OutboxRow) (row : Outbox.Row) :
    Prop where
  published : ∃ createdAt published,
    Outbox.publish o.topic o.aggregateID (column o.payload) o.headers o.id createdAt =
      .ok published ∧ row.payload = published.payload ∧ row.headers = published.headers

/-- The dispatcher hands the row to the sender, which walks the headers in some order. -/
structure HandedOver (row : Outbox.Row) (msg : Message) : Prop where
  message : ∃ m, Outbox.toMessage row = .ok m ∧ msg.payload = text m.payload ∧
    msg.headers.Perm (entriesOf m.headers)

/-- The merchant has an address and a secret, and the sender finds them. -/
structure Configured (s : Sender) (merchantID : UUID) (url secret : Text) : Prop where
  parse : s.parseUUID (text merchantID.text) = .ok merchantID
  config : s.getMerchantWebhookConfig merchantID = .ok ⟨some url, secret⟩
  url_ne : url ≠ []
  secret_ne : secret ≠ []
  accepted : s.refusal url = none

/-- What the merchant receives for an intent. -/
structure Received (s : Sender) (secret : Text) (intentID : UUID) (req : PostRequest) : Prop where
  verifies : ∃ signature, req.header signatureHeader = some signature ∧
    ∀ (now : Instant) (tolerance : Int), IsInt64 tolerance →
      |now.nanos - s.now.wholeSecond.nanos| ≤ tolerance →
      verify s.hmac secret req.body signature now tolerance = .ok ()
  key : req.header idempotencyHeader = some (idempotencyKey intentID)
  contentType : req.header contentType = some applicationJSON
  internal : ∀ name, canonicalHeaderKey name = merchantHeader → req.header name = none

section Headers

variable {updated : PaymentIntent} {order : List (Text × Text)} {signature : Text}

theorem entriesOf_completedHeaders (updated : PaymentIntent) :
    entriesOf (completedHeaders updated) =
      [(text "X-Selatpay-Topic", text "intent.completed"),
        (idempotencyHeader, idempotencyKey updated.id),
        (merchantHeader, text updated.merchantID.text)] := rfl

/-- The loop leaves the sender's own headers and sets the key, in whatever order it walks. -/
theorem requestHeader_completed (h : order.Perm (entriesOf (completedHeaders updated))) :
    requestHeader signature order merchantHeader = none ∧
    requestHeader signature order signatureHeader = some signature ∧
    requestHeader signature order contentType = some applicationJSON ∧
    requestHeader signature order idempotencyHeader = some (idempotencyKey updated.id) := by
  have hforeign : ∀ name ∈ [merchantHeader, signatureHeader, contentType],
      ∀ e ∈ entriesOf (completedHeaders updated), e.1 ≠ merchantHeader →
        canonicalHeaderKey e.1 ≠ name := by
    rw [entriesOf_completedHeaders]
    simp only [List.forall_mem_cons, List.not_mem_nil, IsEmpty.forall_iff, implies_true, and_true]
    refine ⟨⟨?_, ?_, ?_⟩, ⟨?_, ?_, ?_⟩, ?_, ?_, ?_⟩ <;> decide
  have hkept : ∀ name ∈ [merchantHeader, signatureHeader, contentType], ∀ x,
      requestHeader signature [] name = x → requestHeader signature order name = x := by
    intro name hname x hx
    refine (forwardHeaders_forall_perm hx).mpr (fun e he hne hcanonical => ?_) order h
    exact absurd hcanonical (hforeign name hname e he hne)
  obtain ⟨htype, hsig, hinternal⟩ := requestHeader_nil signature
  refine ⟨hkept _ (by simp) _ hinternal, hkept _ (by simp) _ hsig, hkept _ (by simp) _ htype, ?_⟩
  have hmem : (idempotencyHeader, idempotencyKey updated.id) ∈ forwarded order := by
    refine List.mem_filter.mpr ⟨h.mem_iff.mpr (by simp [entriesOf_completedHeaders]), ?_⟩
    exact decide_eq_true (show idempotencyHeader ≠ merchantHeader by decide)
  have hcanonical : canonicalHeaderKey idempotencyHeader = idempotencyHeader := by decide
  rw [requestHeader, forwardHeaders_eq, ← hcanonical]
  refine Header.setAll_apply_of_mem hmem fun e he hname => ?_
  have he' := h.mem_iff.mp (List.mem_filter.mp he).1
  rw [entriesOf_completedHeaders] at he'
  simp only [List.mem_cons, List.not_mem_nil, or_false] at he'
  have htopic : canonicalHeaderKey (text "X-Selatpay-Topic") ≠
      canonicalHeaderKey idempotencyHeader := by decide
  have hmerchant : canonicalHeaderKey merchantHeader ≠ canonicalHeaderKey idempotencyHeader := by
    decide
  rcases he' with rfl | rfl | rfl
  · exact absurd hname htopic
  · rfl
  · exact absurd hname hmerchant

/-- The merchant the message is for. -/
theorem get_merchantHeader (h : order.Perm (entriesOf (completedHeaders updated)))
    (hnodup : (Assoc.keys order).Nodup) :
    Assoc.get [] order merchantHeader = text updated.merchantID.text := by
  rw [Assoc.get_perm h hnodup, entriesOf_completedHeaders]
  have htopic : text "X-Selatpay-Topic" ≠ merchantHeader := by decide
  have hkey : idempotencyHeader ≠ merchantHeader := by decide
  simp [Assoc.get, htopic, hkey]

end Headers

/-- What is signed verifies within the tolerance. -/
theorem verify_of_sign {hmac : Text → Text → Hex.Digest} {secret body signature : Text}
    {ts now : Instant} {tolerance : Int} (h : sign hmac secret body ts = .ok signature)
    (hsecret : secret ≠ []) (htol : IsInt64 tolerance)
    (hclose : |now.nanos - ts.wholeSecond.nanos| ≤ tolerance) :
    verify hmac secret body signature now tolerance = .ok () := by
  rw [sign_eq_ok hmac hsecret body ts] at h
  obtain rfl := Except.ok.inj h
  have hpad : IsPad [] := fun c hc => absurd hc List.not_mem_nil
  have hparse := @parseSignatureHeader_surround [] [] [] [] [] [] [] ts.toUnix ts.isInt64_toUnix
    (hmac secret (signedPayload ts.toUnix body)) (by simp) hpad hpad hpad hpad
  refine verify_eq_ok.mpr ⟨hsecret, ts.toUnix, ?_, absDuration_sub_unix_le htol (.inr hclose)⟩
  simpa [surround] using hparse

/-- A published event keeps its headers. -/
theorem StoredAs.headers_eq {column : CompletedEvent → String} {o : OutboxRow} {row : Outbox.Row}
    (h : StoredAs column o row) : row.headers = .ok o.headers := by
  obtain ⟨createdAt, published, hpublish, -, hheaders⟩ := h.published
  rw [hheaders]
  unfold Outbox.publish at hpublish
  split at hpublish <;> cases hpublish
  rfl

/-- The sender posts the event of an intent to its merchant, who can verify it. -/
theorem prepare_completed {s : Sender} {o : OutboxRow} {i : PaymentIntent} {db : Db}
    (ho : EventOf db o i) {column : CompletedEvent → String} {row : Outbox.Row} {msg : Message}
    (hrow : StoredAs column o row) (hmsg : HandedOver row msg) {url secret : Text}
    (hcfg : Configured s i.merchantID url secret) : ∃ req, s.prepare msg = .ready req ∧
      req.url = url ∧ req.body = text row.payload ∧ Received s secret i.id req := by
  obtain ⟨-, -, -, updated, hterms, -, hheaders⟩ := ho
  simp only [Settlement.intentTerms, PaymentIntent.setState, PaymentIntent.mk.injEq] at hterms
  obtain ⟨hid, hmerchant, -⟩ := hterms
  obtain ⟨m, hm, hpayload, hperm⟩ := hmsg.message
  have hmessage : m.payload = row.payload ∧ m.headers = o.headers := by
    rw [Outbox.toMessage, hrow.headers_eq] at hm
    cases hm
    exact ⟨rfl, rfl⟩
  rw [hmessage.2, hheaders] at hperm
  have hget := get_merchantHeader hperm msg.nodup
  rw [hmerchant] at hget
  have hne : Assoc.get [] msg.headers merchantHeader ≠ [] := by
    rw [hget]
    intro hnil
    have hempty : i.merchantID.text = "" := text_injective hnil
    simp [UUID.text, uuidChars] at hempty
  have hsign := sign_eq_ok s.hmac hcfg.secret_ne msg.payload s.now
  have hready := prepare_reordered (List.Perm.refl msg.headers) hne (by rw [hget]; exact hcfg.parse)
    hcfg.config hcfg.url_ne hcfg.secret_ne hcfg.accepted hsign
  refine ⟨_, hready, rfl, by rw [← hmessage.1]; exact hpayload, ?_⟩
  obtain ⟨hinternal, hsignature, htype, hkey⟩ := requestHeader_completed hperm
  refine ⟨⟨_, hsignature, fun now tolerance htol hclose => ?_⟩, hid ▸ hkey, htype, fun name => ?_⟩
  · exact verify_of_sign hsign hcfg.secret_ne htol hclose
  · refine Header.IsCanonical.eq_none ?_ hinternal
    rw [requestHeader, forwardHeaders_eq]
    exact ((Header.isCanonical_empty.set _ _).set _ _).setAll _

/-- In every reachable state of the settlement, an event in the outbox speaks of an intent whose
payout has succeeded over its amount and whose entries are all posted. Whatever the attempt, the
order of the headers and the text of the payload, the sender posts it to the merchant of that
intent, where it verifies within the tolerance, under a key that no other intent has. -/
theorem completion_reaches_merchant {env : Settlement.Env} {s : Settlement.World}
    (h : Settlement.Reachable env anyStep s) {o : OutboxRow} (ho : o ∈ s.db.outbox) :
    ∃ i, EventOf s.db o i ∧
      (∃ p ∈ s.db.payouts, p.intentID = i.id ∧ p.state = .succeeded ∧ p.amountIDR = i.amountIDR) ∧
      (∀ step, ∀ ref ∈ Settlement.newRefs i.id step, Settlement.Recorded s.db ref) ∧
      (∀ (column : CompletedEvent → String) (row : Outbox.Row) (msg : Message),
        StoredAs column o row → HandedOver row msg →
        ∀ (sender : Sender) (url secret : Text), Configured sender i.merchantID url secret →
        ∃ req, sender.prepare msg = .ready req ∧ req.url = url ∧ req.body = text row.payload ∧
          Received sender secret i.id req) ∧
      ∀ id, idempotencyKey id = idempotencyKey i.id → id = i.id := by
  obtain ⟨i, hevent, hdone⟩ := h.allEvents o ho
  obtain ⟨p, hp, hid⟩ := (hdone .triggerPayout).payout rfl
  obtain ⟨j, hj, hjid, hamount⟩ := h.payoutsOwed p hp
  obtain rfl := Table.eq_of_mem (Db.intent_ids_nodup h.inv.sound.unique) hj hevent.1
    (hjid.trans hid)
  refine ⟨j, hevent, ⟨p, hp, hid, h.inv.consistent.paidOut p hp, hamount⟩,
    fun step => (hdone step).entries, ?_, fun id hkey => ?_⟩
  · intro column row msg hrow hmsg sender url secret hcfg
    exact prepare_completed hevent hrow hmsg hcfg
  · exact (append_text_inj _).mp (text_injective hkey)

/-- `json.Marshal` of an event, with the text of its time. -/
def marshal (formatTime : Time → String) (e : CompletedEvent) : String :=
  "\x7b\"schema\":" ++ jsonString e.schema ++ ",\"intent_id\":" ++ jsonString e.intentID ++
    ",\"merchant_id\":" ++ jsonString e.merchantID ++ ",\"external_ref\":" ++
    jsonString e.externalRef ++ ",\"state\":" ++ jsonString e.state ++ ",\"amount_idr\":" ++
    toString e.amountIDR ++ ",\"quoted_amount_usdc\":" ++ toString e.amountUSDC ++
    ",\"occurred_at\":" ++ jsonString (formatTime e.occurredAt) ++ "\x7d"

theorem completion_reaches_merchant_settled : ∃ (s : Settlement.World) (o : OutboxRow)
    (i : PaymentIntent) (msg : Message) (req : PostRequest),
    Settlement.Reachable Settlement.smallEnv anyStep s ∧ EventOf s.db o i ∧ i.amountIDR = 1000 ∧
      oneMerchant.prepare msg = .ready req ∧
      Received oneMerchant (text "merchant-secret") i.id req := by
  obtain ⟨s, hs, houtbox, hintents⟩ : ∃ s,
      runIf (Settlement.World.step Settlement.smallEnv) anyStep Settlement.smallWorld
        Settlement.settled = some s ∧ s.db.outbox ≠ [] ∧
        ∀ i ∈ s.db.intents, i.merchantID = 1 ∧ i.amountIDR = 1000 :=
    exists_of_any (by decide +kernel)
  have hreach := Settlement.reachable_of_runIf hs
  obtain ⟨o, ho⟩ := List.exists_mem_of_ne_nil _ houtbox
  obtain ⟨i, hevent, -, -, hsend, -⟩ := completion_reaches_merchant hreach ho
  obtain ⟨hmerchant, hamount⟩ := hintents i hevent.1
  obtain ⟨-, htopic, -, updated, -, -, hheaders⟩ := id hevent
  have hnodup : (Assoc.keys (entriesOf o.headers)).Nodup := by
    rw [hheaders, entriesOf_completedHeaders]
    exact (by decide : [text "X-Selatpay-Topic", idempotencyHeader, merchantHeader].Nodup)
  let column : CompletedEvent → String := marshal fun _ => "1970-01-01T00:00:00.000Z"
  obtain ⟨row, hrow⟩ : ∃ row,
      Outbox.publish o.topic o.aggregateID (column o.payload) o.headers o.id 0 = .ok row :=
    ⟨_, by rw [Outbox.publish, if_neg (by rw [htopic]; decide)]⟩
  have hstored : StoredAs column o row := ⟨0, row, hrow, rfl, rfl⟩
  have hmessage : Outbox.toMessage row = .ok ⟨row.id, row.topic, row.aggregateID, row.payload,
      o.headers, row.attempts, row.createdAt⟩ := by
    rw [Outbox.toMessage, hstored.headers_eq]
  obtain ⟨req, hready, -, -, hreceived⟩ := hsend _ row ⟨_, text row.payload, hnodup⟩ hstored
    ⟨_, hmessage, rfl, List.Perm.refl _⟩ oneMerchant (text "hook") (text "merchant-secret")
    ⟨by rw [hmerchant]; rfl, rfl, by decide, by decide, rfl⟩
  exact ⟨s, o, i, _, req, hreach, hevent, hamount, hready, hreceived⟩

end Selatpay.Webhook
