import Mathlib.Data.Set.Function
import Selatpay.Core.Clock
import Selatpay.Core.Decimal
import Selatpay.Data.Uuid
import Selatpay.Quoter.Amount

/-!
# Signed quotes

`signQuote` signs the terms of a quote on lines of their own, the pair first. The pair is
any text, so the lines are told apart from the last one on: below the pair there are only
decimal numbers. The keyed hash is a parameter.
-/

namespace Selatpay.Quoter

open Decimal

/-- `Quote`. -/
structure Quote where
  id : UUID
  pair : Text
  rate : Rate
  spreadBps : Int
  expiresAt : Instant
  signature : Text
  amountIDR : Int
  amountUSDC : Int
  createdAt : Instant

/-- The ways in which a quote is refused. -/
inductive VerifyError
  | badSignature
  | quoteExpired
  deriving DecidableEq, Repr

/-- The text of each refusal. -/
def VerifyError.text : VerifyError → String
  | .badSignature => "quoter: quote signature does not verify"
  | .quoteExpired => "quoter: quote is expired"

/-- A number on a line of its own, after what is written already. -/
def line (written : Text) (x : Int) : Text := written ++ 10 :: formatInt x

/-- The bytes that are signed. -/
def signedTerms (q : Quote) : Text :=
  let head := text "v1" ++ 10 :: q.pair
  let rate := line (line head q.rate.num) q.rate.scale
  line (line (line (line rate q.spreadBps) q.amountIDR) q.amountUSDC) q.expiresAt.toUnix

section Keyed

variable (hmac : Text → Text → Text)

/-- `signQuote`. -/
def signQuote (key : Text) (q : Quote) : Text := hmac key (signedTerms q)

/-- What `Issue` returns for the quote it has put together: signed, and with the id and the
time of its row if it is stored. -/
def issued (signingKey : Text) (q : Quote) (row : Option (UUID × Instant)) : Quote :=
  let qt := { q with signature := signQuote hmac signingKey q }
  match row with
  | none => qt
  | some (id, createdAt) => { qt with id := id, createdAt := createdAt }

/-- `Verify`. -/
def verify (signingKey : Text) (now : Instant) (qt : Quote) : Except VerifyError Unit :=
  let expected := signQuote hmac signingKey qt
  if expected ≠ qt.signature then .error .badSignature
  else if ¬ now.nanos < qt.expiresAt.nanos then .error .quoteExpired
  else .ok ()

end Keyed

/-- The commercial terms of two quotes agree. -/
def SameTerms (q q' : Quote) : Prop :=
  q.pair = q'.pair ∧ q.rate.num = q'.rate.num ∧ q.rate.scale = q'.rate.scale ∧
    q.spreadBps = q'.spreadBps ∧ q.amountIDR = q'.amountIDR ∧ q.amountUSDC = q'.amountUSDC ∧
    q.expiresAt.toUnix = q'.expiresAt.toUnix

/-- The last line and what is before it are determined, whatever is before it. -/
theorem line_inj {s s' : Text} {x x' : Int} : line s x = line s' x' ↔ s = s' ∧ x = x' := by
  have hnewline : ∀ y : Int, 10 ∉ formatInt y := notMem_formatInt rfl (by decide)
  constructor
  · intro h
    obtain ⟨hs, hx⟩ := Text.append_cons_inj_right (hnewline x) (hnewline x') h
    exact ⟨hs, formatInt_injective hx⟩
  · rintro ⟨rfl, rfl⟩
    rfl

/-- The signed bytes are the terms, also when the pair has lines of its own. -/
theorem signedTerms_inj {q q' : Quote} : signedTerms q = signedTerms q' ↔ SameTerms q q' := by
  simp only [signedTerms, line_inj, List.append_cancel_left_eq, List.cons.injEq, true_and,
    SameTerms, and_assoc]

section Verify

variable {hmac : Text → Text → Text} {key : Text} {now : Instant} {q : Quote}

/-- Accepted are the quotes that carry the hash of their terms and are not expired. -/
theorem verify_eq_ok : verify hmac key now q = .ok () ↔
    q.signature = signQuote hmac key q ∧ now.nanos < q.expiresAt.nanos := by
  unfold verify
  by_cases hsig : signQuote hmac key q = q.signature
  · by_cases hexp : now.nanos < q.expiresAt.nanos
    · simp [hsig, hexp]
    · simp [hsig, hexp]
  · simp [hsig, Ne.symm hsig]

/-- An issued quote has the terms it was put together with. -/
theorem signedTerms_issued (row : Option (UUID × Instant)) :
    signedTerms (issued hmac key q row) = signedTerms q := by
  cases row <;> rfl

theorem signature_issued (row : Option (UUID × Instant)) :
    (issued hmac key q row).signature = signQuote hmac key q := by
  cases row <;> rfl

end Verify

/-- Two quotes are signed over the same bytes precisely when their terms agree, and a copy of
an issued quote that keeps its signature is accepted only with the terms of that quote, unless the
keyed hash collides on the two. -/
theorem signature_binds_terms :
    (∀ q q' : Quote, signedTerms q = signedTerms q' ↔ SameTerms q q') ∧
    ∀ (hmac : Text → Text → Text) (key : Text) (q : Quote) (row : Option (UUID × Instant))
      (copy : Quote) (now : Instant),
      Set.InjOn (hmac key) {signedTerms q, signedTerms copy} →
      copy.signature = (issued hmac key q row).signature →
      verify hmac key now copy = .ok () → SameTerms copy (issued hmac key q row) := by
  refine ⟨fun q q' => signedTerms_inj, ?_⟩
  intro hmac key q row copy now hfree hkept haccept
  obtain ⟨hsig, -⟩ := verify_eq_ok.mp haccept
  rw [hkept, signature_issued] at hsig
  have hbytes : signedTerms q = signedTerms copy := hfree (by simp) (by simp) hsig
  rw [← signedTerms_inj, signedTerms_issued, hbytes]

/-- A quote whose pair looks as if a rate followed it. -/
def twoLinePair : Quote where
  id := 1
  pair := text "USDC/IDR\n16250"
  rate := ⟨16300, 2⟩
  spreadBps := 50
  expiresAt := .unix 1780000060
  signature := []
  amountIDR := 1000000
  amountUSDC := 61847700
  createdAt := .unix 1780000000

/-- A copy with another id and another time is accepted, with the terms unchanged. -/
theorem signature_binds_terms_twoLinePair :
    verify (fun _ m => m) [] (.unix 1780000000)
      (issued (fun _ m => m) [] twoLinePair (some (2, .unix 1780000001))) = .ok () ∧
    SameTerms (issued (fun _ m => m) [] twoLinePair (some (2, .unix 1780000001)))
      (issued (fun _ m => m) [] twoLinePair none) := by
  have haccept : verify (fun _ m => m) [] (.unix 1780000000)
      (issued (fun _ m => m) [] twoLinePair (some (2, .unix 1780000001))) = .ok () :=
    verify_eq_ok.mpr ⟨rfl, by decide⟩
  have hfree : Set.InjOn (fun m : Text => m) {signedTerms twoLinePair,
      signedTerms (issued (fun _ m => m) [] twoLinePair (some (2, .unix 1780000001)))} :=
    fun _ _ _ _ h => h
  exact ⟨haccept, signature_binds_terms.2 (fun _ m => m) [] twoLinePair none _ _ hfree rfl haccept⟩

end Selatpay.Quoter
