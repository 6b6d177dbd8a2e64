import Selatpay.Core.Text
import Selatpay.MockBank.Sources
import Selatpay.Saga.Types

/-!
# The rail of the mock bank

`MockIDRBank.Submit` posts a payout to the bank and maps what comes back to an outcome:
the status code decides, and the body only adds the reference and a message. The JSON
library is taken by what it is relied on for, that it reads back what it has written.
-/

namespace Selatpay.Payout

open Saga MockBank

/-! ## The request -/

/-- `submitBody`. -/
structure SubmitBody where
  intentID : String
  payoutID : String
  amountIDR : Int
  bankCode : String
  accountNumber : String
  accountName : String
  memo : String
  deriving DecidableEq, Repr

/-- `json.Marshal` of a `submitBody`, with an empty memo left out. -/
def SubmitBody.marshal (b : SubmitBody) : String :=
  "\x7b\"intent_id\":" ++ jsonString b.intentID ++ ",\"payout_id\":" ++ jsonString b.payoutID ++
    ",\"amount_idr\":" ++ toString b.amountIDR ++ ",\"bank_code\":" ++ jsonString b.bankCode ++
    ",\"account_number\":" ++ jsonString b.accountNumber ++
    ",\"account_name\":" ++ jsonString b.accountName ++
    (if b.memo = "" then "" else ",\"memo\":" ++ jsonString b.memo) ++ "\x7d"

/-- The body of a request. -/
def submitBody (req : Saga.SubmitRequest) : SubmitBody where
  intentID := req.intentID.text
  payoutID := req.payoutID.text
  amountIDR := req.amountIDR
  bankCode := req.recipient.bankCode
  accountNumber := req.recipient.accountNumber
  accountName := req.recipient.accountName
  memo := req.memo

/-- The bytes of the body of a request. -/
def requestBytes (req : Saga.SubmitRequest) : Text := text (submitBody req).marshal

/-- The HTTP request of `Submit`, at a base URL with this `fail` parameter. -/
def httpRequest (fail : String) (req : Saga.SubmitRequest) : Request where
  method := "POST"
  idempotencyKey := req.idempotency
  fail := fail
  body := .ok (requestBytes req)

/-! ## The answer -/

/-- `encoding/json` as both ends use it. -/
structure Json where
  /-- `json.Unmarshal` into the request of the bank. -/
  decodeRequest : Text → Except String MockBank.SubmitRequest
  /-- What `json.Unmarshal` leaves in an empty `submitResponse`; its error is dropped. -/
  decodeResponse : Text → SubmitResponse
  /-- A byte string as a text. -/
  fromBytes : Text → String
  decodeRequest_marshal : ∀ b : SubmitBody, IsInt64 b.amountIDR →
    decodeRequest (text b.marshal) = .ok ⟨b.amountIDR, b.accountNumber⟩
  decodeResponse_marshal : ∀ r : SubmitResponse, decodeResponse (text r.marshal) = r

/-- `pickMessage`. -/
def pickMessage (json : Json) (parsed : String) (raw : Text) (status : Nat) : String :=
  if parsed ≠ "" then parsed
  else if raw.length > 0 then toString status ++ ": " ++ json.fromBytes raw
  else "status " ++ toString status

/-- Both ends read at most a mebibyte of a body. -/
def bodyLimit : Nat := 2 ^ 20

/-- What `Submit` makes of a response. -/
def interpret (json : Json) (statusCode : Nat) (body : Text) : SubmitResult :=
  let raw := body.take bodyLimit
  let parsed := if raw.length > 0 then json.decodeResponse raw else ⟨"", "", ""⟩
  if 200 ≤ statusCode ∧ statusCode < 300 then ⟨.success, parsed.reference, parsed.message⟩
  else if statusCode = 422 ∨ statusCode = 400 then
    ⟨.permanent, "", pickMessage json parsed.message raw statusCode⟩
  else if statusCode ≥ 500 then ⟨.retry, "", pickMessage json parsed.message raw statusCode⟩
  else ⟨.permanent, "", pickMessage json parsed.message raw statusCode⟩

/-- The other ways a call can end. -/
inductive Failure
  | build (err : String)
  | send (err : String)
  | read (err : String)
  deriving DecidableEq, Repr

/-- What `Submit` returns for them: the request may have reached the bank in the last two. -/
def Failure.answer : Failure → RailAnswer
  | .build err => .error ("mock_idr_bank: build request: " ++ err)
  | .send err => .ok ⟨.retry, "", err⟩
  | .read err => .ok ⟨.retry, "", "read body: " ++ err⟩

/-! ## Both ends together -/

/-- The body of a request is short enough to be read whole. -/
def Fits (req : Saga.SubmitRequest) : Prop := (requestBytes req).length ≤ bodyLimit

instance (req : Saga.SubmitRequest) : Decidable (Fits req) := inferInstanceAs (Decidable (_ ≤ _))

theorem text_append_ne_nil {s t : String} (h : text s ≠ []) : text (s ++ t) ≠ [] := by
  rw [text_append]
  exact List.append_ne_nil_of_left_ne_nil h _

theorem text_marshal_ne_nil (b : SubmitBody) : text b.marshal ≠ [] := by
  unfold SubmitBody.marshal
  iterate 13 refine text_append_ne_nil ?_
  decide

/-- The bank decodes the amount and the account of a request. -/
theorem parse_httpRequest (json : Json) (fail : String) {req : Saga.SubmitRequest}
    (hfits : Fits req) (hamount : IsInt64 req.amountIDR) :
    (httpRequest fail req).parse json.decodeRequest =
      .ok ⟨req.amountIDR, req.recipient.accountNumber⟩ := by
  have hpos : 0 < (requestBytes req).length :=
    List.length_pos_of_ne_nil (text_marshal_ne_nil (submitBody req))
  have htake : (requestBytes req).take (2 ^ 20) = requestBytes req := List.take_of_length_le hfits
  have hdecode := json.decodeRequest_marshal (submitBody req) hamount
  simp only [Request.parse, httpRequest, htake, gt_iff_lt, hpos, if_true]
  rw [requestBytes, hdecode]
  rfl

/-- A confirmation of the bank that fits is a success with the reference of the bank. -/
theorem interpret_paid (json : Json) (newString : UUID) (req : MockBank.SubmitRequest)
    (hfits : (text (paid newString req).marshal).length ≤ bodyLimit) :
    interpret json 200 (text (paid newString req).marshal) =
      ⟨.success, "MIDR-" ++ newString.text, (paid newString req).message⟩ := by
  have hpos : 0 < (text (paid newString req).marshal).length := by
    refine List.length_pos_of_ne_nil ?_
    unfold SubmitResponse.marshal
    iterate 5 refine text_append_ne_nil ?_
    decide
  have hreference : (paid newString req).reference = "MIDR-" ++ newString.text := rfl
  simp [interpret, List.take_of_length_le hfits, hpos, json.decodeResponse_marshal, hreference]

/-- Only a response in the two hundreds is a success. -/
theorem statusCode_of_success {json : Json} {statusCode : Nat} {body : Text}
    (h : (interpret json statusCode body).outcome = .success) : statusCode < 300 := by
  unfold interpret at h
  dsimp only at h
  split at h
  · next hcode => exact hcode.2
  · split at h
    · cases h
    · split at h <;> cases h

theorem Failure.answer_ne_success (f : Failure) (result : SubmitResult) :
    f.answer = .ok result → result.outcome ≠ .success := by
  intro h
  cases f with
  | build err => cases h
  | send err =>
    cases h
    exact nofun
  | read err =>
    cases h
    exact nofun

end Selatpay.Payout
