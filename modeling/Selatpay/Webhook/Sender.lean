import Selatpay.Core.Assoc
import Selatpay.Core.HttpHeader
import Selatpay.Data.Errors
import Selatpay.Data.Uuid
import Selatpay.Webhook.Sign

/-!
# The webhook sender

`send` looks up the merchant of an outbox message, signs the payload and posts it with
the headers of the message. The headers are copied after the sender's own are set, by
canonical name, while the header for routing is left out by exact spelling. The parsing
of identifiers and addresses, the lookup and the post itself are parameters.
-/

namespace Selatpay.Webhook

open Http

/-- `MerchantHeader`. -/
def merchantHeader : Text := text "X-Selatpay-Merchant"

/-- `SignatureHeader`. -/
def signatureHeader : Text := text "Selatpay-Signature"

/-- The name of the header for the type of the payload. -/
def contentType : Text := text "Content-Type"

/-- The type of every payload. -/
def applicationJSON : Text := text "application/json"

/-- What `Send` reads of a message: the entries of its headers, in the order in which the map
is walked, and the payload. -/
structure Message where
  headers : List (Text × Text)
  payload : Text
  nodup : (Assoc.keys headers).Nodup

/-- What `GetMerchantWebhookConfig` returns. -/
structure MerchantConfig where
  webhookURL : Option Text
  webhookSecret : Text
  deriving DecidableEq, Repr

/-- A request that is ready to be posted. -/
structure PostRequest where
  url : Text
  header : Header
  body : Text

/-- What `Send` uses of its surroundings. -/
structure Sender where
  hmac : Text → Text → Hex.Digest
  /-- `uuid.Parse`. -/
  parseUUID : Text → Except String UUID
  getMerchantWebhookConfig : UUID → Except DbError MerchantConfig
  /-- `http.NewRequestWithContext`: why an address is refused. -/
  refusal : Text → Option String
  /-- `clock`. -/
  now : Instant

/-- The errors of `Send`. -/
inductive SendError
  | loadConfig (err : DbError)
  | sign (err : SignatureError)
  | buildRequest (err : String)
  | post (err : String)
  | responded (status : Nat)

/-- The text of each error, over the quoting, the durations and the errors of `encoding/hex` in
those of signing. -/
def SendError.message (quote : Text → Text) (duration : Int → Text)
    (hex : Hex.DecodeError → Text) : SendError → Text
  | .loadConfig err => text "webhook: load config: " ++ text err.text
  | .sign err => text "webhook: sign: " ++ err.message quote duration hex
  | .buildRequest err => text "webhook: build request: " ++ text err
  | .post err => text "webhook: post: " ++ text err
  | .responded status => text "webhook: receiver responded " ++ Decimal.formatUint status

/-- How far `Send` comes without the network. -/
inductive Prepared
  /-- Nothing to deliver; the message counts as delivered. -/
  | skipped
  | failed (err : SendError)
  | ready (req : PostRequest)

/-- The loop over the headers of a message. -/
def forwardHeaders : Header → List (Text × Text) → Header
  | h, [] => h
  | h, (k, v) :: es =>
    if k = merchantHeader then forwardHeaders h es else forwardHeaders (h.set k v) es

/-- The headers of a request. -/
def requestHeader (signature : Text) (headers : List (Text × Text)) : Header :=
  forwardHeaders ((Header.empty.set contentType applicationJSON).set signatureHeader signature)
    headers

namespace Sender

/-- `Send` after the configuration is loaded. -/
def sign (s : Sender) (msg : Message) (cfg : MerchantConfig) : Prepared :=
  match cfg.webhookURL with
  | none => .skipped
  | some url =>
    if url = [] ∨ cfg.webhookSecret = [] then .skipped
    else match Webhook.sign s.hmac cfg.webhookSecret msg.payload s.now with
      | .error err => .failed (.sign err)
      | .ok signature => match s.refusal url with
        | some err => .failed (.buildRequest err)
        | none => .ready ⟨url, requestHeader signature msg.headers, msg.payload⟩

/-- `Send` up to the post. -/
def prepare (s : Sender) (msg : Message) : Prepared :=
  let merchantIDStr := Assoc.get [] msg.headers merchantHeader
  if merchantIDStr = [] then .skipped
  else match s.parseUUID merchantIDStr with
    | .error _ => .skipped
    | .ok merchantID => match s.getMerchantWebhookConfig merchantID with
      | .error .noRows => .skipped
      | .error err => .failed (.loadConfig err)
      | .ok cfg => s.sign msg cfg

/-- `Send`: no error, or what the dispatcher retries after. The post answers with a status. -/
def send (s : Sender) (post : PostRequest → Except String Nat) (msg : Message) :
    Option SendError :=
  match s.prepare msg with
  | .skipped => none
  | .failed err => some err
  | .ready req => match post req with
    | .error err => some (.post err)
    | .ok status =>
      if 200 ≤ status ∧ status < 300 then none
      else some (.responded status)

end Sender

/-! ## The headers of a request -/

/-- The entries that the loop copies. -/
def forwarded (headers : List (Text × Text)) : List (Text × Text) :=
  headers.filter fun e => e.1 ≠ merchantHeader

/-- The loop sets the entries that it copies. -/
theorem forwardHeaders_eq (h : Header) (headers : List (Text × Text)) :
    forwardHeaders h headers = h.setAll (forwarded headers) := by
  induction headers generalizing h with
  | nil => rfl
  | cons e es ih =>
    obtain ⟨k, v⟩ := e
    rw [forwardHeaders]
    split
    · next hk => simp [ih, forwarded, hk]
    · next hk => simp [ih, forwarded, hk, Header.setAll]

/-- In every order in which a map is walked a header keeps its value precisely if every copied entry
for it has that value. -/
theorem forwardHeaders_forall_perm {h : Header} {headers : List (Text × Text)} {name : Text}
    {x : Option Text} (hname : h name = x) :
    (∀ order, order.Perm headers → forwardHeaders h order name = x) ↔
      ∀ e ∈ headers, e.1 ≠ merchantHeader → canonicalHeaderKey e.1 = name → some e.2 = x := by
  constructor
  · rintro hall e he hne rfl
    have hperm : (headers.erase e ++ [e]).Perm headers :=
      List.perm_append_comm.trans (List.perm_cons_erase he).symm
    have hlast : forwarded (headers.erase e ++ [e]) = forwarded (headers.erase e) ++ [e] := by
      simp [forwarded, hne]
    rw [← hall _ hperm, forwardHeaders_eq, hlast, Header.setAll_concat]
  · intro hes order hperm
    rw [forwardHeaders_eq]
    refine Header.setAll_apply_of_forall hname fun e he => ?_
    obtain ⟨hmem, hne⟩ := List.mem_filter.mp he
    exact hes e (hperm.mem_iff.mp hmem) (by simpa using hne)

/-! ## What a request carries -/

/-- The payload is unchanged, the signature is the sender's, the type is JSON, and no header is
the one for routing. -/
structure PostRequest.Intact (s : Sender) (secret payload : Text) (req : PostRequest) : Prop where
  body : req.body = payload
  signature : ∃ signature, Webhook.sign s.hmac secret payload s.now = .ok signature ∧
    req.header signatureHeader = some signature
  contentType : req.header contentType = some applicationJSON
  internal : ∀ name, canonicalHeaderKey name = merchantHeader → req.header name = none

/-- No header of a message, other than the one for routing, is that one in another spelling, or
replaces the signature or the type of the payload by another value. -/
def Message.Harmless (s : Sender) (secret : Text) (msg : Message) : Prop :=
  ∀ e ∈ msg.headers, e.1 ≠ merchantHeader →
    canonicalHeaderKey e.1 ≠ merchantHeader ∧
    (canonicalHeaderKey e.1 = signatureHeader →
      Webhook.sign s.hmac secret msg.payload s.now = .ok e.2) ∧
    (canonicalHeaderKey e.1 = contentType → e.2 = applicationJSON)

/-- The message with its headers walked in another order. -/
def Message.reordered (msg : Message) {order : List (Text × Text)}
    (h : order.Perm msg.headers) : Message :=
  ⟨order, msg.payload, (h.map Prod.fst).nodup_iff.mpr msg.nodup⟩

/-- The sender's own headers are in place before the loop. -/
theorem requestHeader_nil (signature : Text) :
    requestHeader signature [] contentType = some applicationJSON ∧
    requestHeader signature [] signatureHeader = some signature ∧
    requestHeader signature [] merchantHeader = none := by
  have htype : canonicalHeaderKey contentType = contentType := by decide
  have hsig : canonicalHeaderKey signatureHeader = signatureHeader := by decide
  have h₁ : contentType ≠ signatureHeader := by decide
  have h₂ : merchantHeader ≠ signatureHeader := by decide
  have h₃ : merchantHeader ≠ contentType := by decide
  simp [requestHeader, forwardHeaders, Header.set_apply, htype, hsig, h₁, h₂, h₃, Header.empty]

/-- A configured merchant gets a request, in whatever order the headers are walked. -/
theorem prepare_reordered {s : Sender} {msg : Message} {order : List (Text × Text)}
    {merchantID : UUID} {url secret signature : Text} (h : order.Perm msg.headers)
    (hmerchant : Assoc.get [] msg.headers merchantHeader ≠ [])
    (hid : s.parseUUID (Assoc.get [] msg.headers merchantHeader) = .ok merchantID)
    (hcfg : s.getMerchantWebhookConfig merchantID = .ok ⟨some url, secret⟩)
    (hurl : url ≠ []) (hsecret : secret ≠ []) (haccept : s.refusal url = none)
    (hsign : Webhook.sign s.hmac secret msg.payload s.now = .ok signature) :
    s.prepare (msg.reordered h) = .ready ⟨url, requestHeader signature order, msg.payload⟩ := by
  have hget : Assoc.get [] order merchantHeader = Assoc.get [] msg.headers merchantHeader :=
    (Assoc.get_perm h.symm msg.nodup merchantHeader).symm
  simp only [Sender.prepare, Message.reordered, hget, if_neg hmerchant, hid, hcfg, Sender.sign,
    hurl, hsecret, or_self, if_false, hsign, haccept]

/-- The three headers that make a request intact. -/
theorem intact_iff {s : Sender} {url secret payload signature : Text}
    {headers : List (Text × Text)}
    (hsign : Webhook.sign s.hmac secret payload s.now = .ok signature) :
    (PostRequest.mk url (requestHeader signature headers) payload).Intact s secret payload ↔
      requestHeader signature headers merchantHeader = none ∧
      requestHeader signature headers signatureHeader = some signature ∧
      requestHeader signature headers contentType = some applicationJSON := by
  have hcanonical : (requestHeader signature headers).IsCanonical := by
    rw [requestHeader, forwardHeaders_eq]
    exact ((Header.isCanonical_empty.set _ _).set _ _).setAll _
  constructor
  · rintro ⟨-, ⟨signature', hsign', hvalue⟩, hjson, hnone⟩
    obtain rfl := Except.ok.inj (hsign.symm.trans hsign')
    exact ⟨hnone merchantHeader (by decide), hvalue, hjson⟩
  · rintro ⟨hnone, hvalue, hjson⟩
    exact ⟨rfl, ⟨signature, hsign, hvalue⟩, hjson, fun name => hcanonical.eq_none hnone⟩

/-- Harmless headers leave the three headers of the sender as they are, in whatever order they
are walked, and no others do. -/
theorem harmless_iff {s : Sender} {msg : Message} {secret signature : Text}
    (hsign : Webhook.sign s.hmac secret msg.payload s.now = .ok signature) :
    msg.Harmless s secret ↔ ∀ order, order.Perm msg.headers →
      requestHeader signature order merchantHeader = none ∧
      requestHeader signature order signatureHeader = some signature ∧
      requestHeader signature order contentType = some applicationJSON := by
  have hkept : ∀ (name : Text) (x : Option Text), requestHeader signature [] name = x →
      ((∀ order, order.Perm msg.headers → requestHeader signature order name = x) ↔
        ∀ e ∈ msg.headers, e.1 ≠ merchantHeader → canonicalHeaderKey e.1 = name → some e.2 = x) :=
    fun name x hname => forwardHeaders_forall_perm hname
  obtain ⟨htype, hsig, hinternal⟩ := requestHeader_nil signature
  simp only [forall_and]
  rw [hkept _ _ hinternal, hkept _ _ hsig, hkept _ _ htype, Message.Harmless, hsign]
  simp only [Option.some.injEq, reduceCtorEq, Except.ok.injEq, imp_false, ← forall_and, ne_eq,
    @eq_comm Text signature]

/-- For a merchant with an address and a secret, the request is intact in every order in which the
headers are walked precisely if the headers of the message are harmless. -/
theorem prepare_intact_iff (s : Sender) (msg : Message) (merchantID : UUID) (url secret : Text)
    (hmerchant : Assoc.get [] msg.headers merchantHeader ≠ [])
    (hid : s.parseUUID (Assoc.get [] msg.headers merchantHeader) = .ok merchantID)
    (hcfg : s.getMerchantWebhookConfig merchantID = .ok ⟨some url, secret⟩)
    (hurl : url ≠ []) (hsecret : secret ≠ []) (haccept : s.refusal url = none) :
    (∀ (order : List (Text × Text)) (h : order.Perm msg.headers),
      ∃ req, s.prepare (msg.reordered h) = .ready req ∧ req.Intact s secret msg.payload) ↔
    msg.Harmless s secret := by
  have hsign := sign_eq_ok s.hmac hsecret msg.payload s.now
  rw [harmless_iff hsign]
  refine forall_congr' fun order => forall_congr' fun h => ?_
  rw [prepare_reordered h hmerchant hid hcfg hurl hsecret haccept hsign, ← intact_iff hsign]
  constructor
  · rintro ⟨req, hready, hintact⟩
    cases hready
    exact hintact
  · intro hintact
    exact ⟨_, rfl, hintact⟩

/-- A sender for which every merchant has an address and a secret. -/
def oneMerchant : Sender where
  hmac := firstByteHmac
  parseUUID := fun _ => .ok 1
  getMerchantWebhookConfig := fun _ => .ok ⟨some (text "hook"), text "merchant-secret"⟩
  refusal := fun _ => none
  now := .unix 1700000100

/-- A message with the header for routing and one for the receiver. -/
def topicMessage : Message where
  headers := [(merchantHeader, text "1"), (text "X-Selatpay-Topic", text "intent.completed")]
  payload := text "null"
  nodup := by decide

/-- The request for that message is intact. -/
theorem prepare_intact_iff_topicMessage :
    ∃ req, oneMerchant.prepare topicMessage = .ready req ∧
      req.Intact oneMerchant (text "merchant-secret") topicMessage.payload := by
  have hharmless : topicMessage.Harmless oneMerchant (text "merchant-secret") := by
    intro e he hne
    have hcases : e = (merchantHeader, text "1") ∨
        e = (text "X-Selatpay-Topic", text "intent.completed") := by
      simpa [topicMessage] using he
    rcases hcases with rfl | rfl
    · exact absurd rfl hne
    · exact ⟨by decide, fun h => absurd h (by decide), fun h => absurd h (by decide)⟩
  exact (prepare_intact_iff oneMerchant topicMessage 1 (text "hook") (text "merchant-secret")
    (by decide) rfl rfl (by decide) (by decide) rfl).mpr hharmless _ (List.Perm.refl _)

/-- A message whose producer has set a signature and the header for routing in lower case. -/
def lowerCaseMessage : Message where
  headers := [(merchantHeader, text "1"), (text "selatpay-signature", text "t=0,v1=00"),
    (text "x-selatpay-merchant", text "1")]
  payload := text "null"
  nodup := by decide

/-- The request for that message carries the producer's signature instead of the sender's, and the
merchant. -/
theorem prepare_lowerCaseMessage :
    ∃ req signature, oneMerchant.prepare lowerCaseMessage = .ready req ∧
      sign oneMerchant.hmac (text "merchant-secret") lowerCaseMessage.payload oneMerchant.now =
        .ok signature ∧
      signature ≠ text "t=0,v1=00" ∧
      req.header signatureHeader = some (text "t=0,v1=00") ∧
      req.header merchantHeader = some (text "1") ∧
      ¬ lowerCaseMessage.Harmless oneMerchant (text "merchant-secret") := by
  have hsecret : text "merchant-secret" ≠ [] := by decide
  have hsign := sign_eq_ok oneMerchant.hmac hsecret lowerCaseMessage.payload oneMerchant.now
  have hready := prepare_reordered (List.Perm.refl lowerCaseMessage.headers) (s := oneMerchant)
    (by decide) rfl rfl (by decide) hsecret rfl hsign
  refine ⟨_, _, hready, hsign, ?_, rfl, rfl, fun hharmless => ?_⟩
  · intro heq
    have hparts := Text.append_cons_inj (comma_notMem_timestampEntry _)
      (show 44 ∉ text "t=0" by decide) heq
    exact absurd hparts.2 (by decide)
  · exact (hharmless (text "x-selatpay-merchant", text "1") (by simp [lowerCaseMessage])
      (by decide)).1 (by decide)

end Selatpay.Webhook
