import SweGateway.Api.Payment
import SweGateway.Lib.Runs

/-!
# The mock payment gateway, one operation at a time (`core/payment/mock.rs`)

Each operation of `MockPaymentGateway` is a function from the gateway's state to its result and the
state it leaves.  What an operation reads from outside is a parameter of the call: the clock
(`now`), the fresh uuid (`uuid`) and the order in which an iteration visits a hash map (`it`).

`PaymentOp` collects the four operations that write payments and refunds, and `step` is the state
after one of them; a run is a list of them.  The same operations as concurrent programs over the
gateway's locks are in `Core/Payment/Concurrent.lean`.
-/

namespace SweGateway

/-- Mock payment gateway for testing and development.  Each field is behind a lock of its own. -/
structure MockPaymentGateway where
  /-- Stored payments. -/
  payments : HashMap String PaymentResult := ∅
  /-- Stored customers. -/
  customers : HashMap String Customer := ∅
  /-- Stored payment methods. -/
  paymentMethods : HashMap String (List PaymentMethod) := ∅
  /-- Stored refunds. -/
  refunds : HashMap String RefundResult := ∅
  /-- Failure mode for testing error handling. -/
  failureMode : Option MockFailureMode := none
  deriving DecidableEq

namespace MockPaymentGateway

/-! ### Construction -/

/-- A new mock payment gateway. -/
def new : MockPaymentGateway := {}

/-- Sets the failure mode for testing. -/
def withFailureMode (g : MockPaymentGateway) (mode : MockFailureMode) : MockPaymentGateway :=
  { g with failureMode := some mode }

/-- Clears the failure mode. -/
def clearFailureMode (g : MockPaymentGateway) : MockPaymentGateway :=
  { g with failureMode := none }

/-- Pre-seeds the gateway with a customer. -/
def addCustomer (customer : Customer) (g : MockPaymentGateway) : MockPaymentGateway :=
  { g with customers := g.customers.insert customer.id customer }

/-- Pre-seeds the gateway with a payment. -/
def addPayment (result : PaymentResult) (g : MockPaymentGateway) : MockPaymentGateway :=
  { g with payments := g.payments.insert result.paymentId result }

/-- The message of the failure that the failure mode simulates for `payment`, if it does. -/
def shouldFail (mode : Option MockFailureMode) (payment : Payment) : Option String :=
  match mode with
  | some (.failAllPayments msg) => some msg
  | some (.failOverAmount max) =>
    if max < payment.amount.amount then
      some ("Payment amount " ++ toString payment.amount.amount ++ " exceeds maximum "
        ++ toString max)
    else none
  | some (.failPaymentIds ids) =>
    if payment.id ∈ ids then some "Payment ID is in fail list" else none
  | none => none

/-! ### `PaymentInbound` -/

def paymentNotFound (id : String) : GatewayError := .notFound ("Payment not found: " ++ id)

def customerNotFound (id : String) : GatewayError := .notFound ("Customer not found: " ++ id)

def refundNotFound (id : String) : GatewayError := .notFound ("Refund not found: " ++ id)

def getPayment (id : String) (g : MockPaymentGateway) : GatewayResult PaymentResult :=
  match g.payments[id]? with
  | some payment => .ok payment
  | none => .error (paymentNotFound id)

/-- The stored payments whose metadata name the customer, in the order the iteration visits them,
less the first `offset`, at most `limit`. -/
def listPayments (it : IterOrder String PaymentResult) (customerId : String) (limit offset : ℕ)
    (g : MockPaymentGateway) : GatewayResult (List PaymentResult) :=
  .ok ((((HashMap.values it g.payments).filter fun p =>
    p.metadata["customer_id"]? == some customerId).drop offset).take limit)

def getCustomer (id : String) (g : MockPaymentGateway) : GatewayResult Customer :=
  match g.customers[id]? with
  | some customer => .ok customer
  | none => .error (customerNotFound id)

def listPaymentMethods (id : String) (g : MockPaymentGateway) :
    GatewayResult (List PaymentMethod) :=
  .ok (g.paymentMethods[id]?.getD [])

def getRefund (id : String) (g : MockPaymentGateway) : GatewayResult RefundResult :=
  match g.refunds[id]? with
  | some refund => .ok refund
  | none => .error (refundNotFound id)

/-! ### `PaymentOutbound` -/

/-- The result that `createPayment` stores: a failed one if the failure mode says so, else a
successful one that carries the customer in its metadata. -/
def paymentOutcome (mode : Option MockFailureMode) (now : DateTime) (uuid : String)
    (payment : Payment) : PaymentResult :=
  match shouldFail mode payment with
  | some errorMsg => PaymentResult.failed payment.id errorMsg now
  | none =>
    let result := PaymentResult.success payment.id ("mock_pi_" ++ uuid) payment.amount now
    match payment.customerId with
    | some customerId =>
      { result with metadata := result.metadata.insert "customer_id" customerId }
    | none => result

def createPayment (now : DateTime) (uuid : String) (payment : Payment) (g : MockPaymentGateway) :
    GatewayResult PaymentResult × MockPaymentGateway :=
  let result := paymentOutcome g.failureMode now uuid payment
  (.ok result, { g with payments := g.payments.insert payment.id result })

/-- The captured payment: succeeded, and of the given amount if there is one. -/
def captured (amount : Option Money) (payment : PaymentResult) : PaymentResult :=
  { payment with status := .succeeded, amount := amount.getD payment.amount }

def capturePayment (id : String) (amount : Option Money) (g : MockPaymentGateway) :
    GatewayResult PaymentResult × MockPaymentGateway :=
  match g.payments[id]? with
  | none => (.error (paymentNotFound id), g)
  | some payment =>
    (.ok (captured amount payment),
      { g with payments := g.payments.insert id (captured amount payment) })

def cancelPayment (id : String) (g : MockPaymentGateway) :
    GatewayResult PaymentResult × MockPaymentGateway :=
  match g.payments[id]? with
  | none => (.error (paymentNotFound id), g)
  | some payment =>
    let canceled := { payment with status := .canceled }
    (.ok canceled, { g with payments := g.payments.insert id canceled })

/-- The status that `createRefund` leaves on a payment: partially refunded if the refund names an
amount below the payment's. -/
def refundedStatus (refund : Refund) (payment : PaymentResult) : PaymentStatus :=
  match refund.amount with
  | some amount =>
    if amount.amount < payment.amount.amount then .partiallyRefunded else .refunded
  | none => .refunded

/-- The update of the payments that `createRefund` makes in its second critical section. -/
def updateRefunded (refund : Refund) (payments : HashMap String PaymentResult) :
    HashMap String PaymentResult :=
  match payments[refund.paymentId]? with
  | some p => payments.insert refund.paymentId { p with status := refundedStatus refund p }
  | none => payments

/-- The refund that `createRefund` stores for a payment it has found. -/
def refundOutcome (now : DateTime) (refund : Refund) (payment : PaymentResult) : RefundResult :=
  RefundResult.success refund.id refund.paymentId (refund.amount.getD payment.amount) now

def createRefund (now : DateTime) (refund : Refund) (g : MockPaymentGateway) :
    GatewayResult RefundResult × MockPaymentGateway :=
  match g.payments[refund.paymentId]? with
  | none => (.error (paymentNotFound refund.paymentId), g)
  | some payment =>
    let result := refundOutcome now refund payment
    (.ok result,
      { g with
        refunds := g.refunds.insert refund.id result
        payments := updateRefunded refund g.payments })

def createCustomer (customer : Customer) (g : MockPaymentGateway) :
    GatewayResult Customer × MockPaymentGateway :=
  (.ok customer, { g with customers := g.customers.insert customer.id customer })

def updateCustomer (customer : Customer) (g : MockPaymentGateway) :
    GatewayResult Customer × MockPaymentGateway :=
  if customer.id ∈ g.customers then
    (.ok customer, { g with customers := g.customers.insert customer.id customer })
  else (.error (customerNotFound customer.id), g)

def deleteCustomer (id : String) (g : MockPaymentGateway) :
    GatewayResult Unit × MockPaymentGateway :=
  (.ok (), { g with
    customers := g.customers.erase id
    paymentMethods := g.paymentMethods.erase id })

/-! ### Runs of the payment operations -/

/-- One call of an operation that writes payments or refunds. -/
inductive PaymentOp where
  | createPayment (now : DateTime) (uuid : String) (payment : Payment)
  | capturePayment (id : String) (amount : Option Money)
  | cancelPayment (id : String)
  | createRefund (now : DateTime) (refund : Refund)
  deriving DecidableEq, Repr

/-- What an operation of the gateway returns. -/
inductive Reply where
  | payment (result : GatewayResult PaymentResult)
  | payments (result : GatewayResult (List PaymentResult))
  | refund (result : GatewayResult RefundResult)
  | customer (result : GatewayResult Customer)
  | paymentMethods (result : GatewayResult (List PaymentMethod))
  | unit (result : GatewayResult Unit)
  deriving DecidableEq

namespace PaymentOp

/-- The payment that the call is about. -/
def paymentId : PaymentOp → String
  | .createPayment _ _ payment => payment.id
  | .capturePayment id _ => id
  | .cancelPayment id => id
  | .createRefund _ refund => refund.paymentId

/-- The call as a whole: its reply and the state it leaves. -/
def run (op : PaymentOp) (g : MockPaymentGateway) : Reply × MockPaymentGateway :=
  match op with
  | .createPayment now uuid payment => (g.createPayment now uuid payment).map .payment id
  | .capturePayment i amount => (g.capturePayment i amount).map .payment id
  | .cancelPayment i => (g.cancelPayment i).map .payment id
  | .createRefund now refund => (g.createRefund now refund).map .refund id

end PaymentOp

/-- The state after a payment operation. -/
def step (g : MockPaymentGateway) (op : PaymentOp) : MockPaymentGateway := (op.run g).2

/-- The state that a run of payment operations leads to. -/
def after (g : MockPaymentGateway) (ops : List PaymentOp) : MockPaymentGateway :=
  Runs.exec step g ops

/-- The stored status of a payment. -/
def status (g : MockPaymentGateway) (id : String) : Option PaymentStatus :=
  g.payments[id]?.map PaymentResult.status

end MockPaymentGateway

end SweGateway
