import SweGateway.Api.Json
import SweGateway.Api.Types
import SweGateway.Lib.Serde.Back

/-!
# Notification types (`api/notification.rs`)

Only the section as a whole has defaults.  In the configuration of a channel every field has to be
there that is not optional.
-/

namespace SweGateway

open Serde

/-- Notification channel type. -/
inductive NotificationChannel where
  | email
  | sms
  | push
  | inApp
  | webhook
  | console
  deriving DecidableEq, Repr

namespace NotificationChannel

def name : NotificationChannel → String
  | email => "email"
  | sms => "sms"
  | push => "push"
  | inApp => "inapp"
  | webhook => "webhook"
  | console => "console"

def codec : Codec NotificationChannel :=
  .enumeration name [email, sms, push, inApp, webhook, console]

@[simp] theorem lossless_codec : codec.Lossless :=
  Codec.lossless_enumeration fun c => by cases c <;> rfl

/-- The name of the variant, as `{:?}` prints it. -/
def debug : NotificationChannel → String
  | email => "Email"
  | sms => "Sms"
  | push => "Push"
  | inApp => "InApp"
  | webhook => "Webhook"
  | console => "Console"

end NotificationChannel

/-- Email-specific configuration. -/
structure EmailConfig where
  smtpHost : String
  smtpPort : UInt16
  /-- Username for SMTP auth. -/
  username : Option String
  /-- Password for SMTP auth. -/
  password : Option String
  /-- Default sender email. -/
  fromEmail : String
  /-- Default sender name. -/
  fromName : Option String
  useTls : Bool

/-- How the configuration is serialized. -/
def EmailConfig.struct : Struct EmailConfig :=
  Struct.iso
    (.and "smtp_host" (Codec.string.field (.error (.missingField "smtp_host"))) <|
      .and "smtp_port" (Codec.u16.field (.error (.missingField "smtp_port"))) <|
      .and "username" (Codec.string.optional (.ok none)) <|
      .and "password" (Codec.string.optional (.ok none)).skipSerializing <|
      .and "from_email" (Codec.string.field (.error (.missingField "from_email"))) <|
      .and "from_name" (Codec.string.optional (.ok none)) <|
      .field "use_tls" (Codec.boolean.field (.error (.missingField "use_tls"))))
    { toFun := fun (smtpHost, smtpPort, username, password, fromEmail, fromName, useTls) =>
        { smtpHost, smtpPort, username, password, fromEmail, fromName, useTls }
      invFun := fun c => (c.smtpHost, c.smtpPort, c.username, c.password, c.fromEmail, c.fromName,
        c.useTls)
      left_inv := fun _ => rfl
      right_inv := fun _ => rfl }

/-- SMS-specific configuration. -/
structure SmsConfig where
  /-- Provider (e.g., "twilio", "nexmo"). -/
  provider : String
  /-- Account SID or API key. -/
  accountId : String
  /-- Auth token or API secret. -/
  authToken : String
  /-- Default sender phone number. -/
  fromNumber : String

/-- How the configuration is serialized. -/
def SmsConfig.struct : Struct SmsConfig :=
  Struct.iso
    (.and "provider" (Codec.string.field (.error (.missingField "provider"))) <|
      .and "account_id" (Codec.string.field (.error (.missingField "account_id"))).skipSerializing <|
      .and "auth_token" (Codec.string.field (.error (.missingField "auth_token"))).skipSerializing <|
      .field "from_number" (Codec.string.field (.error (.missingField "from_number"))))
    { toFun := fun (provider, accountId, authToken, fromNumber) =>
        { provider, accountId, authToken, fromNumber }
      invFun := fun c => (c.provider, c.accountId, c.authToken, c.fromNumber)
      left_inv := fun _ => rfl
      right_inv := fun _ => rfl }

/-- Push notification configuration. -/
structure PushConfig where
  /-- Provider (e.g., "firebase", "apns"). -/
  provider : String
  /-- API key or credentials. -/
  apiKey : String
  /-- Additional options. -/
  options : HashMap String String

/-- How the configuration is serialized. -/
def PushConfig.struct : Struct PushConfig :=
  Struct.iso
    (.and "provider" (Codec.string.field (.error (.missingField "provider"))) <|
      .and "api_key" (Codec.string.field (.error (.missingField "api_key"))).skipSerializing <|
      .field "options" (Codec.map.field (.ok ∅)))
    { toFun := fun (provider, apiKey, options) => { provider, apiKey, options }
      invFun := fun c => (c.provider, c.apiKey, c.options)
      left_inv := fun _ => rfl
      right_inv := fun _ => rfl }

/-- Webhook configuration. -/
structure WebhookConfig where
  /-- Default webhook URL. -/
  url : String
  /-- Authentication header. -/
  authHeader : Option String
  /-- Authentication value. -/
  authValue : Option String

/-- How the configuration is serialized. -/
def WebhookConfig.struct : Struct WebhookConfig :=
  Struct.iso
    (.and "url" (Codec.string.field (.error (.missingField "url"))) <|
      .and "auth_header" (Codec.string.optional (.ok none)) <|
      .field "auth_value" (Codec.string.optional (.ok none)).skipSerializing)
    { toFun := fun (url, authHeader, authValue) => { url, authHeader, authValue }
      invFun := fun c => (c.url, c.authHeader, c.authValue)
      left_inv := fun _ => rfl
      right_inv := fun _ => rfl }

/-- Configuration for notifications. -/
structure NotificationConfig where
  defaultChannel : NotificationChannel := .console
  email : Option EmailConfig := none
  sms : Option SmsConfig := none
  push : Option PushConfig := none
  webhook : Option WebhookConfig := none

namespace NotificationConfig

instance : Inhabited NotificationConfig := ⟨{}⟩

/-- How the configuration is serialized; missing fields have their defaults. -/
def struct : Struct NotificationConfig :=
  let d : NotificationConfig := default
  Struct.iso
    (.and "default_channel" (NotificationChannel.codec.field (.ok d.defaultChannel)) <|
      .and "email" (EmailConfig.struct.codec.optional (.ok d.email)) <|
      .and "sms" (SmsConfig.struct.codec.optional (.ok d.sms)) <|
      .and "push" (PushConfig.struct.codec.optional (.ok d.push)) <|
      .field "webhook" (WebhookConfig.struct.codec.optional (.ok d.webhook)))
    { toFun := fun (defaultChannel, email, sms, push, webhook) =>
        { defaultChannel, email, sms, push, webhook }
      invFun := fun c => (c.defaultChannel, c.email, c.sms, c.push, c.webhook)
      left_inv := fun _ => rfl
      right_inv := fun _ => rfl }

end NotificationConfig

/-! ### Notifications and receipts -/

/-- Notification priority level. -/
inductive NotificationPriority where
  | low
  | normal
  | high
  | critical
  deriving DecidableEq, Repr

/-- A notification to be sent. -/
structure Notification where
  id : String
  channel : NotificationChannel
  /-- Recipient address (email, phone, device token, etc.). -/
  recipient : String
  /-- Notification subject (for email) or title (for push). -/
  subject : Option String := none
  /-- Notification body/message. -/
  body : String
  /-- HTML body (for email). -/
  htmlBody : Option String := none
  templateId : Option String := none
  templateVars : HashMap String Value := ∅
  metadata : HashMap String String := ∅
  priority : NotificationPriority := .normal
  /-- Scheduled send time. -/
  scheduledAt : Option DateTime := none

namespace Notification

/-- A new notification; `id` is a fresh uuid. -/
def new (id : String) (channel : NotificationChannel) (recipient body : String) : Notification :=
  { id := id, channel := channel, recipient := recipient, body := body }

/-- Sets the subject/title. -/
def withSubject (n : Notification) (subject : String) : Notification :=
  { n with subject := some subject }

end Notification

/-- Notification delivery status. -/
inductive NotificationStatus where
  | pending
  | sent
  | delivered
  | opened
  | failed
  | bounced
  | complained
  deriving DecidableEq, Repr

/-- Receipt/acknowledgment of a sent notification. -/
structure NotificationReceipt where
  notificationId : String
  /-- Provider message ID (if available). -/
  providerId : Option String
  status : NotificationStatus
  message : Option String
  /-- Timestamp of the status update. -/
  timestamp : DateTime
  /-- Additional metadata from the provider. -/
  metadata : HashMap String String := ∅

end SweGateway
