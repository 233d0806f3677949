import SweGateway.Api.Types
import SweGateway.Lib.F64Arith
import SweGateway.Lib.Serde.Back

/-!
# Payment types (`api/payment.rs`)

The requests keep the fields that the mock gateway reads; the stored results keep all of theirs,
since the gateway hands them out whole.  Amounts are integers in the smallest currency unit: the
source's `i64` amounts are only ever compared, never added.  A timestamp is the reading of the
clock that the call made.
-/

namespace SweGateway

open Serde

/-- Payment provider type. -/
inductive PaymentProvider where
  | mock
  | stripe
  | payPal
  | square
  | braintree
  deriving DecidableEq, Repr

namespace PaymentProvider

def name : PaymentProvider → String
  | mock => "mock"
  | stripe => "stripe"
  | payPal => "paypal"
  | square => "square"
  | braintree => "braintree"

def codec : Codec PaymentProvider := .enumeration name [mock, stripe, payPal, square, braintree]

@[simp] theorem lossless_codec : codec.Lossless :=
  Codec.lossless_enumeration fun p => by cases p <;> rfl

end PaymentProvider

/-- Currency code (ISO 4217). -/
inductive Currency where
  | usd | eur | gbp | cad | aud | jpy | cny | inr | brl | mxn
  deriving DecidableEq, Repr

namespace Currency

def name : Currency → String
  | usd => "USD"
  | eur => "EUR"
  | gbp => "GBP"
  | cad => "CAD"
  | aud => "AUD"
  | jpy => "JPY"
  | cny => "CNY"
  | inr => "INR"
  | brl => "BRL"
  | mxn => "MXN"

def codec : Codec Currency := .enumeration name [usd, eur, gbp, cad, aud, jpy, cny, inr, brl, mxn]

@[simp] theorem lossless_codec : codec.Lossless :=
  Codec.lossless_enumeration fun c => by cases c <;> rfl

end Currency

/-- Configuration for payment processing. -/
structure PaymentConfig where
  /-- Payment provider. -/
  provider : PaymentProvider := .mock
  /-- API key or public key. -/
  apiKey : Option String := none
  secretKey : Option String := none
  /-- Webhook secret for signature verification. -/
  webhookSecret : Option String := none
  /-- Sandbox/test mode. -/
  sandbox : Bool := true
  defaultCurrency : Currency := .usd
  /-- Additional options. -/
  options : HashMap String String := ∅

namespace PaymentConfig

instance : Inhabited PaymentConfig := ⟨{}⟩

/-- How the configuration is serialized; missing fields have their defaults. -/
def struct : Struct PaymentConfig :=
  let d : PaymentConfig := default
  Struct.iso
    (.and "provider" (PaymentProvider.codec.field (.ok d.provider)) <|
      .and "api_key" (Codec.string.optional (.ok d.apiKey)).skipSerializing <|
      .and "secret_key" (Codec.string.optional (.ok d.secretKey)).skipSerializing <|
      .and "webhook_secret" (Codec.string.optional (.ok d.webhookSecret)).skipSerializing <|
      .and "sandbox" (Codec.boolean.field (.ok d.sandbox)) <|
      .and "default_currency" (Currency.codec.field (.ok d.defaultCurrency)) <|
      .field "options" (Codec.map.field (.ok ∅)))
    { toFun := fun (provider, apiKey, secretKey, webhookSecret, sandbox, defaultCurrency, options) =>
        { provider, apiKey, secretKey, webhookSecret, sandbox, defaultCurrency, options }
      invFun := fun c => (c.provider, c.apiKey, c.secretKey, c.webhookSecret, c.sandbox,
        c.defaultCurrency, c.options)
      left_inv := fun _ => rfl
      right_inv := fun _ => rfl }

end PaymentConfig

/-- A monetary amount with currency. -/
structure Money where
  /-- Amount in the smallest currency unit. -/
  amount : ℤ
  currency : Currency
  deriving DecidableEq, Repr

/-- A USD amount. -/
def Money.usd (cents : ℤ) : Money := ⟨cents, .usd⟩

/-- The literal `100.0`. -/
def Money.hundred : F64 := F64.ofUInt64 100

/-- The money of a decimal amount: `(amount * 100.0).round() as i64`.  Where the product is not
finite, the cast goes to the bound on its side. -/
def Money.fromDecimal (amount : F64) (currency : Currency) : Money where
  amount :=
    match F64.mul amount hundred with
    | some product => F64.saturate product.round
    | none => if amount.negative then -2 ^ 63 else 2 ^ 63 - 1
  currency := currency

/-- The decimal representation: `self.amount as f64 / 100.0`. -/
def Money.toDecimal (m : Money) : Option F64 :=
  F64.div (F64.ofInt64 (Int64.ofInt m.amount)) hundred

/-- Payment status. -/
inductive PaymentStatus where
  | pending
  | requiresAction
  | processing
  | succeeded
  | failed
  | canceled
  | refunded
  | partiallyRefunded
  deriving DecidableEq, Repr

/-- A payment request. -/
structure Payment where
  id : String
  amount : Money
  customerId : Option String := none
  deriving DecidableEq, Repr

/-- Result of a payment operation. -/
structure PaymentResult where
  paymentId : String
  providerId : Option String
  status : PaymentStatus
  amount : Money
  fee : Option Money
  netAmount : Option Money
  errorMessage : Option String
  errorCode : Option String
  createdAt : DateTime
  metadata : HashMap String String
  deriving DecidableEq

namespace PaymentResult

/-- A successful payment result. -/
def success (paymentId providerId : String) (amount : Money) (now : DateTime) : PaymentResult where
  paymentId := paymentId
  providerId := some providerId
  status := .succeeded
  amount := amount
  fee := none
  netAmount := none
  errorMessage := none
  errorCode := none
  createdAt := now
  metadata := ∅

/-- A failed payment result. -/
def failed (paymentId errorMessage : String) (now : DateTime) : PaymentResult where
  paymentId := paymentId
  providerId := none
  status := .failed
  amount := Money.usd 0
  fee := none
  netAmount := none
  errorMessage := some errorMessage
  errorCode := none
  createdAt := now
  metadata := ∅

end PaymentResult

/-- A refund request; an absent amount asks for a full refund. -/
structure Refund where
  id : String
  paymentId : String
  amount : Option Money := none
  deriving DecidableEq, Repr

/-- Refund status. -/
inductive RefundStatus where
  | pending
  | succeeded
  | failed
  | canceled
  deriving DecidableEq, Repr

/-- Result of a refund operation. -/
structure RefundResult where
  refundId : String
  providerId : Option String
  paymentId : String
  status : RefundStatus
  amount : Money
  errorMessage : Option String
  createdAt : DateTime
  deriving DecidableEq, Repr

/-- A successful refund result. -/
def RefundResult.success (refundId paymentId : String) (amount : Money) (now : DateTime) :
    RefundResult where
  refundId := refundId
  providerId := none
  paymentId := paymentId
  status := .succeeded
  amount := amount
  errorMessage := none
  createdAt := now

/-- Customer information. -/
structure Customer where
  id : String
  email : Option String := none
  name : Option String := none
  phone : Option String := none
  metadata : HashMap String String := ∅
  createdAt : DateTime := 0
  deriving DecidableEq

/-- Payment method type. -/
inductive PaymentMethodType where
  | card
  | bankAccount
  | wallet
  deriving DecidableEq, Repr

/-- Card details (sanitized). -/
structure CardDetails where
  brand : String
  lastFour : String
  expMonth : ℕ
  expYear : ℕ
  country : Option String
  deriving DecidableEq, Repr

/-- Payment method information. -/
structure PaymentMethod where
  id : String
  methodType : PaymentMethodType
  customerId : Option String
  card : Option CardDetails
  isDefault : Bool
  createdAt : DateTime
  deriving DecidableEq, Repr

/-- Modes for simulating payment failures in tests. -/
inductive MockFailureMode where
  | failAllPayments (message : String)
  | failOverAmount (max : ℤ)
  | failPaymentIds (ids : List String)
  deriving DecidableEq, Repr

end SweGateway
