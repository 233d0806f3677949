import SweGateway.Api.Notification
import SweGateway.Lib.Eff
import SweGateway.Lib.TextLines
import SweGateway.Lib.Utf8

/-!
# The console notifier (`core/notification/console.rs`)

`ConsoleNotifier.send` prints a notification in a box and stores a receipt for it.  Formatting the
box slices texts at byte offsets, which panics inside of a character: `formatNotification` returns
`none` then, and `send` fails with `panicked` before it has stored anything.

The world of the operations is `ConsoleWorld`: the notifier and what has been printed.  The fresh
uuid and the clock are parameters.
-/

namespace SweGateway

open Utf8

/-! ### Layout -/

/-- A text to the left of spaces, as `{:<width}` prints it. -/
def padRight (width : ℕ) (text : List Char) : List Char :=
  text ++ List.replicate (width - text.length) ' '

/-- A text between spaces, as `{:^width}` prints it. -/
def center (width : ℕ) (text : List Char) : List Char :=
  let padding := width - text.length
  List.replicate (padding / 2) ' ' ++ text ++ List.replicate (padding - padding / 2) ' '

/-- Truncates a text to a number of bytes, with an ellipsis.  There is no result where the length
underflows or the slice panics. -/
def truncate (s : List Char) (maxLen : ℕ) : Option (List Char) :=
  if byteLength s ≤ maxLen then some s
  else if maxLen < 3 then none
  else (sliceTo (maxLen - 3) s).map (· ++ "...".toList)

/-- The words of a text, as `split_whitespace` finds them. -/
def splitWhitespace (text : List Char) : List (List Char) :=
  (text.splitOnP TextLines.isWhitespace).filter (· ≠ [])

/-- Word wraps a text to fit within a width. -/
def wordWrap (text : List Char) (maxWidth : ℕ) : List (List Char) := Id.run do
  let mut lines : List (List Char) := []
  let mut currentLine : List Char := []
  for word in splitWhitespace text do
    if currentLine = [] then
      currentLine := word
    else if byteLength currentLine + 1 + byteLength word ≤ maxWidth then
      currentLine := currentLine ++ [' ']
      currentLine := currentLine ++ word
    else
      lines := lines ++ [currentLine]
      currentLine := word
  if currentLine ≠ [] then
    lines := lines ++ [currentLine]
  if lines = [] then
    lines := lines ++ [[]]
  return lines

/-- A line across the box. -/
def rule (left right : Char) : List Char := left :: (List.replicate 61 '─' ++ [right, '\n'])

/-- A line of the box. -/
def boxed (label content : List Char) : List Char :=
  "│ ".toList ++ label ++ content ++ " │\n".toList

/-! ### The notifier -/

/-- Console notification gateway that prints notifications to stdout. -/
structure ConsoleNotifier where
  /-- Sent notifications, for status tracking. -/
  sent : HashMap String NotificationReceipt := ∅
  /-- Whether to print notifications to the console. -/
  verbose : Bool

/-- A notifier and what has been printed. -/
structure ConsoleWorld where
  notifier : ConsoleNotifier
  stdout : List (List Char) := []

/-- How a call does not return. -/
inductive ConsoleFailure where
  | error (e : GatewayError)
  | panicked
  deriving DecidableEq, Repr

namespace ConsoleNotifier

/-- A new console notifier. -/
def new : ConsoleNotifier := { verbose := true }

/-- A silent notifier that doesn't print to the console. -/
def silent : ConsoleNotifier := { verbose := false }

/-- Formats a notification for console output. -/
def formatNotification (n : Notification) : Option (List Char) := do
  let mut output : List Char := []
  output := output ++ '\n' :: rule '┌' '┐'
  output := output ++ boxed [] (center 59 (n.channel.debug ++ " Notification").toList)
  output := output ++ rule '├' '┤'
  output := output ++ boxed "ID:        ".toList (padRight 48 n.id.toList)
  output := output ++ boxed "To:        ".toList (padRight 48 (← truncate n.recipient.toList 48))
  if let some subject := n.subject then
    output := output ++ boxed "Subject:   ".toList (padRight 48 (← truncate subject.toList 48))
  output := output ++ rule '├' '┤'
  for line in wordWrap n.body.toList 59 do
    output := output ++ boxed [] (padRight 59 line)
  output := output ++ rule '└' '┘'
  return output

/-- Whether the notifier prints. -/
def isVerbose : Eff ConsoleWorld ConsoleFailure Bool := Eff.call fun w => (w.notifier.verbose, w)

/-- Prints a line. -/
def println (text : List Char) : Eff ConsoleWorld ConsoleFailure Unit :=
  Eff.modify fun w => { w with stdout := w.stdout ++ [text ++ ['\n']] }

/-- Stores a receipt. -/
def store (id : String) (receipt : NotificationReceipt) : Eff ConsoleWorld ConsoleFailure Unit :=
  Eff.modify fun w => { w with notifier.sent := w.notifier.sent.insert id receipt }

/-- The receipt of a notification that is sent now. -/
def deliveredReceipt (uuid : String) (now : DateTime) (n : Notification) : NotificationReceipt :=
  { notificationId := n.id
    providerId := some ("console-" ++ uuid)
    status := .delivered
    message := none
    timestamp := now }

def send (uuid : String) (now : DateTime) (n : Notification) :
    Eff ConsoleWorld ConsoleFailure NotificationReceipt := do
  let verbose ← isVerbose
  if verbose then
    match formatNotification n with
    | some formatted => println formatted
    | none => Eff.fail .panicked
  let receipt := deliveredReceipt uuid now n
  store n.id receipt
  return receipt

/-- Sends the notifications one by one; `fresh` has the uuids and clock readings of the calls. -/
def sendBatch (fresh : ℕ → String × DateTime) (ns : List Notification) :
    Eff ConsoleWorld ConsoleFailure (List NotificationReceipt) := do
  let mut receipts : List NotificationReceipt := []
  for (n, i) in ns.zipIdx do
    let receipt ← send (fresh i).1 (fresh i).2 n
    receipts := receipts ++ [receipt]
  return receipts

def getStatus (now : DateTime) (id : String) :
    Eff ConsoleWorld ConsoleFailure NotificationReceipt :=
  Eff.call fun w =>
    match w.notifier.sent[id]? with
    | some receipt => (receipt, w)
    | none =>
      ({ notificationId := id
         providerId := none
         status := .pending
         message := some "Notification not found"
         timestamp := now }, w)

/-- The receipts, in the order the iteration visits them, less the first `offset`, at most
`limit`. -/
def listSent (it : IterOrder String NotificationReceipt) (limit offset : ℕ) :
    Eff ConsoleWorld ConsoleFailure (List NotificationReceipt) :=
  Eff.call fun w => (((HashMap.values it w.notifier.sent).drop offset).take limit, w)

/-- Whether there was a pending notification to cancel. -/
def cancel (id : String) : Eff ConsoleWorld ConsoleFailure Bool :=
  Eff.call fun w =>
    match w.notifier.sent[id]? with
    | some receipt =>
      if receipt.status = .pending then
        let cancelled := { receipt with status := .failed, message := some "Cancelled" }
        (true, { w with notifier.sent := w.notifier.sent.insert id cancelled })
      else (false, w)
    | none => (false, w)

/-! ### Calls -/

/-- One call of an operation of the notifier. -/
inductive NotifierCall where
  | getStatus (now : DateTime) (id : String)
  | listSent (it : IterOrder String NotificationReceipt) (limit offset : ℕ)
  | send (uuid : String) (now : DateTime) (n : Notification)
  | sendBatch (fresh : ℕ → String × DateTime) (ns : List Notification)
  | cancel (id : String)

/-- What a call returns. -/
inductive NotifierReply where
  | receipt (receipt : NotificationReceipt)
  | receipts (receipts : List NotificationReceipt)
  | cancelled (found : Bool)

/-- Runs a call. -/
def NotifierCall.run : NotifierCall → Eff ConsoleWorld ConsoleFailure NotifierReply
  | .getStatus now id => do return .receipt (← ConsoleNotifier.getStatus now id)
  | .listSent it limit offset => do return .receipts (← ConsoleNotifier.listSent it limit offset)
  | .send uuid now n => do return .receipt (← ConsoleNotifier.send uuid now n)
  | .sendBatch fresh ns => do return .receipts (← ConsoleNotifier.sendBatch fresh ns)
  | .cancel id => do return .cancelled (← ConsoleNotifier.cancel id)

/-- Runs the calls one after another, whatever they return: their replies, and the world that they
leave. -/
def runAll : List NotifierCall → ConsoleWorld →
    List (Except ConsoleFailure NotifierReply) × ConsoleWorld
  | [], w => ([], w)
  | call :: calls, w =>
    let (reply, w) := call.run w
    let (replies, w) := runAll calls w
    (reply :: replies, w)

end ConsoleNotifier

end SweGateway
