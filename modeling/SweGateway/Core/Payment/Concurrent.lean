import SweGateway.Core.Payment.Mock
import SweGateway.Lib.RwLock

/-!
# The mock payment gateway as concurrent operations (`core/payment/mock.rs`)

The fields of `MockPaymentGateway` are behind one `RwLock` each, and the operations run in
parallel.  `Call` lists them, and `Call.prog` is the body of each: which lock it takes in which
mode, what it reads or writes under it, and where its guards are dropped.  Most operations have a
single critical section.  Three have more: `createPayment` reads the failure mode before it writes
the payments, `deleteCustomer` takes the payment methods while it holds the customers, and
`createRefund` takes the refunds while it reads the payments and the payments again while it holds
the refunds.

Run alone, each body does what the sequential operation does (`Call.exec_prog`).
-/

namespace SweGateway

open Concurrent

/-- The locks of the gateway, named after the fields they guard. -/
inductive PaymentLock where
  | payments
  | customers
  | paymentMethods
  | refunds
  | failureMode
  deriving DecidableEq, Repr

namespace MockPaymentGateway

/-- The body of an operation of the gateway. -/
abbrev Body := Prog PaymentLock MockPaymentGateway Reply

/-- The operations still running on a gateway, the gateway, and the locks they hold. -/
abbrev Running (ι : Type) := Config ι PaymentLock MockPaymentGateway Reply

/-! ### The bodies of the payment operations -/

/-- What `create_payment` does with the payments it has locked for writing. -/
def storePayment (id : String) (result : PaymentResult) (g : MockPaymentGateway) :
    Reply × MockPaymentGateway :=
  (.payment (.ok result), { g with payments := g.payments.insert id result })

/-- `create_payment`: the failure mode is read (`should_fail`) and unlocked before the payments are
locked. -/
def createPaymentBody (now : DateTime) (uuid : String) (payment : Payment) : Body :=
  .acquire .read .failureMode <| .access id fun g =>
  .release .read .failureMode <|
  .writeSection .payments (storePayment payment.id (paymentOutcome g.failureMode now uuid payment))

/-- `create_refund` from its second critical section on the payments, which it takes while it holds
the refunds; both guards are dropped at the end, the payments' first. -/
def updateRefundedBody (refund : Refund) (result : RefundResult) : Body :=
  .acquire .write .payments <|
  .access (fun g => { g with payments := updateRefunded refund g.payments }) fun _ =>
  .release .write .payments <|
  .release .write .refunds <|
  .done (.refund (.ok result))

/-- `create_refund` once it has found the payment: the refund is stored while the payments are still
locked for reading, and then the payments are unlocked. -/
def storeRefundBody (refund : Refund) (result : RefundResult) : Body :=
  .acquire .write .refunds <|
  .access (fun g => { g with refunds := g.refunds.insert refund.id result }) fun _ =>
  .release .read .payments <|
  updateRefundedBody refund result

/-- What `create_refund` does with the payments it has locked for reading. -/
def lookupRefundBody (now : DateTime) (refund : Refund) (g : MockPaymentGateway) : Body :=
  match g.payments[refund.paymentId]? with
  | none => .release .read .payments <| .done (.refund (.error (paymentNotFound refund.paymentId)))
  | some payment => storeRefundBody refund (refundOutcome now refund payment)

theorem lookupRefundBody_of_none {g : MockPaymentGateway} {refund : Refund}
    (h : g.payments[refund.paymentId]? = none) (now : DateTime) :
    lookupRefundBody now refund g =
      .release .read .payments (.done (.refund (.error (paymentNotFound refund.paymentId)))) := by
  simp only [lookupRefundBody, h]

theorem lookupRefundBody_of_some {g : MockPaymentGateway} {refund : Refund}
    {payment : PaymentResult} (h : g.payments[refund.paymentId]? = some payment) (now : DateTime) :
    lookupRefundBody now refund g = storeRefundBody refund (refundOutcome now refund payment) := by
  simp only [lookupRefundBody, h]

/-- `create_refund`. -/
def createRefundBody (now : DateTime) (refund : Refund) : Body :=
  .acquire .read .payments <| .access id (lookupRefundBody now refund)

/-- `delete_customer`: the payment methods are locked while the customers are. -/
def deleteCustomerBody (customerId : String) : Body :=
  .acquire .write .customers <|
  .access (fun g => { g with customers := g.customers.erase customerId }) fun _ =>
  .acquire .write .paymentMethods <|
  .access (fun g => { g with paymentMethods := g.paymentMethods.erase customerId }) fun _ =>
  .release .write .paymentMethods <|
  .release .write .customers <|
  .done (.unit (.ok ()))

/-- The bodies of the operations that write payments or refunds. -/
def PaymentOp.prog : PaymentOp → Body
  | .createPayment now uuid payment => createPaymentBody now uuid payment
  | .capturePayment i amount =>
    .writeSection .payments fun g => (g.capturePayment i amount).map .payment id
  | .cancelPayment i => .writeSection .payments fun g => (g.cancelPayment i).map .payment id
  | .createRefund now refund => createRefundBody now refund

/-! ### All operations -/

/-- One call of an operation of the gateway that takes a lock. -/
inductive Call where
  | getPayment (id : String)
  | listPayments (it : IterOrder String PaymentResult) (customerId : String) (limit offset : ℕ)
  | getCustomer (id : String)
  | listPaymentMethods (id : String)
  | getRefund (id : String)
  | op (op : PaymentOp)
  | createCustomer (customer : Customer)
  | updateCustomer (customer : Customer)
  | deleteCustomer (id : String)
  | addCustomer (customer : Customer)
  | addPayment (result : PaymentResult)
  | clearFailureMode

namespace Call

/-- The call as a whole: its reply and the state it leaves. -/
def run (call : Call) (g : MockPaymentGateway) : Reply × MockPaymentGateway :=
  match call with
  | .getPayment i => (.payment (g.getPayment i), g)
  | .listPayments it customerId limit offset =>
    (.payments (g.listPayments it customerId limit offset), g)
  | .getCustomer i => (.customer (g.getCustomer i), g)
  | .listPaymentMethods i => (.paymentMethods (g.listPaymentMethods i), g)
  | .getRefund i => (.refund (g.getRefund i), g)
  | .op o => o.run g
  | .createCustomer customer => (g.createCustomer customer).map .customer id
  | .updateCustomer customer => (g.updateCustomer customer).map .customer id
  | .deleteCustomer i => (g.deleteCustomer i).map .unit id
  | .addCustomer customer => (.unit (.ok ()), g.addCustomer customer)
  | .addPayment result => (.unit (.ok ()), g.addPayment result)
  | .clearFailureMode => (.unit (.ok ()), g.clearFailureMode)

/-- The body of the call. -/
def prog : Call → Body
  | .getPayment i => .readSection .payments fun g => .payment (g.getPayment i)
  | .listPayments it customerId limit offset =>
    .readSection .payments fun g => .payments (g.listPayments it customerId limit offset)
  | .getCustomer i => .readSection .customers fun g => .customer (g.getCustomer i)
  | .listPaymentMethods i =>
    .readSection .paymentMethods fun g => .paymentMethods (g.listPaymentMethods i)
  | .getRefund i => .readSection .refunds fun g => .refund (g.getRefund i)
  | .op o => o.prog
  | .createCustomer customer =>
    .writeSection .customers fun g => (g.createCustomer customer).map .customer id
  | .updateCustomer customer =>
    .writeSection .customers fun g => (g.updateCustomer customer).map .customer id
  | .deleteCustomer i => deleteCustomerBody i
  | .addCustomer customer =>
    .writeSection .customers fun g => (.unit (.ok ()), g.addCustomer customer)
  | .addPayment result => .writeSection .payments fun g => (.unit (.ok ()), g.addPayment result)
  | .clearFailureMode => .writeSection .failureMode fun g => (.unit (.ok ()), g.clearFailureMode)

end Call

/-- The body of a payment operation, run alone, is the operation. -/
theorem PaymentOp.exec_prog (op : PaymentOp) (g : MockPaymentGateway) :
    op.prog.exec g = op.run g := by
  cases op with
  | createPayment now uuid payment => rfl
  | capturePayment i amount => rfl
  | cancelPayment i => rfl
  | createRefund now refund =>
    show (lookupRefundBody now refund g).exec g = _
    cases hp : g.payments[refund.paymentId]? with
    | none =>
      rw [lookupRefundBody_of_none hp]
      simp [Prog.exec, PaymentOp.run, MockPaymentGateway.createRefund, hp]
    | some payment =>
      rw [lookupRefundBody_of_some hp]
      simp [storeRefundBody, updateRefundedBody, Prog.exec, PaymentOp.run,
        MockPaymentGateway.createRefund, hp]

/-- **Run alone**, the body of a call has the result and the effect of the sequential operation. -/
theorem Call.exec_prog (call : Call) (g : MockPaymentGateway) : call.prog.exec g = call.run g := by
  cases call with
  | op o => exact o.exec_prog g
  | _ => rfl

/-- The calls before their first steps, on the gateway `g`. -/
def launch {ι : Type} (g : MockPaymentGateway) (calls : ι → Call) : Running ι :=
  Config.start g fun i => (calls i).prog

end MockPaymentGateway

end SweGateway
