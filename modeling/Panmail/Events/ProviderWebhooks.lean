import Panmail.Lib.Bytes
import Panmail.Delivery.Settle

/-!
# The webhooks of the mail providers

A provider reports deliveries, bounces and complaints to `/webhooks/{tenant}/{provider}/{type}`, and
the handler records an event for each. The check is chosen by the type in the URL; what the stored
secret means is decided by the provider. For SendGrid it is a public key and for SES a list of
topics: those two schemes rest on a signature made elsewhere. Posted to the URL of another scheme,
the same value is used as if it were a shared secret.
-/
namespace Panmail.ProviderWebhooks

open ByteStrings Text Delivery List

inductive WebhookError where
  | noWebhookSecret | badWebhookSig | staleWebhook | malformedWebhook

/-! ### What is posted -/

structure Header where
  /-- `X-Twilio-Email-Event-Webhook-Signature`. -/
  twilioSignature : String
  /-- `X-Twilio-Email-Event-Webhook-Timestamp`. -/
  twilioTimestamp : String
  /-- `X-Panmail-Signature`. -/
  panmailSignature : String
  authorization : String

structure Request where
  method : String
  path : String
  header : Header
  /-- The body, where it can be read. -/
  body : Option Bytes

/-- The signature block of a Mailgun payload. -/
structure MailgunSignature where
  timestamp : String
  token : String
  signature : String

structure SendGridEvent where
  email : String
  event : String
  messageID : String
  reason : String
  response : String

/-- The `event-data` of a Mailgun payload. -/
structure MailgunEvent where
  event : String
  recipient : String
  messageID : String
  message : String
  description : String

structure PostmarkRecord where
  recordType : String
  messageID : String
  email : String
  recipient : String
  type : String
  description : String
  details : String
  suppressSending : Bool

structure GenericEvent where
  event : String
  recipient : String
  messageID : String
  error : String

/-- The fields of `gsmail.SNSMessage` that are read. -/
structure SNSMessage where
  type : String
  message : String
  subscribeURL : String

structure BouncedRecipient where
  emailAddress : String
  diagnosticCode : String
  status : String

structure SESNotification where
  notificationType : String
  eventType : String
  messageID : String
  destination : List String
  /-- The bounce's type and recipients. -/
  bounce : Option (String × List BouncedRecipient)
  /-- The recipients that complained, and the feedback type. -/
  complaint : Option (List String × String)
  delivery : Option (List String)
  reject : Option String
  deliveryDelay : Option String

/-- The libraries: cryptography, JSON, the Unicode tables and the network. -/
structure Libraries where
  unicode : CaseMapping
  toUpper : String → String
  hmac : Bytes → Bytes → Bytes
  PublicKey : Type
  /-- `parseECDSAPublicKey`: base64 or PEM, of a PKIX key that is an ECDSA one. -/
  parseECDSAPublicKey : String → Option PublicKey
  /-- The base64 of an ASN.1 pair. -/
  decodeSignature : String → Option (Int × Int)
  /-- `ecdsa.Verify` of the SHA-256 digest of data. -/
  ecdsaVerify : PublicKey → Bytes → Int × Int → Bool
  /-- `gsmail.PostmarkVerifier`, with a user and a password, of an `Authorization` header. -/
  postmarkVerify : String → String → String → Bool
  snsVerify : Bytes → Bool
  /-- `json.Unmarshal`, into the type that each caller reads. -/
  topicArn : Bytes → Option String
  mailgunSignature : Bytes → Option MailgunSignature
  sendGridEvents : Bytes → Option (List SendGridEvent)
  mailgunEvent : Bytes → Option MailgunEvent
  postmarkRecord : Bytes → Option PostmarkRecord
  genericEvent : Bytes → Option GenericEvent
  snsMessage : Bytes → Option SNSMessage
  sesNotification : Bytes → Option SESNotification
  /-- `url.Parse`: the scheme and the host name. -/
  parseURL : String → Option (String × String)
  /-- The GET that confirms a subscription. -/
  confirm : String → Bool

/-- The fields of a provider that matter here. The handler reads only the secret. -/
structure Provider where
  type : ProviderType
  webhookSecret : String

/-! ### The stored secret -/

/-- The blanks of `\s`. -/
def reSpace (c : Char) : Bool :=
  c.toNat = 9 || c.toNat = 10 || c.toNat = 12 || c.toNat = 13 || c = ' '

def inboundToken : List Char := "inbound=".toList

/-- The first match of `sendGridInboundToken` behind a blank: the text before, the credential and
the text after it. -/
def findInboundToken (before : List Char) : List Char → Option (List Char × List Char × List Char)
  | [] => none
  | c :: rest =>
    if reSpace c && inboundToken.isPrefixOf rest then
      let token := rest.drop inboundToken.length
      some (before, token.takeWhile (!reSpace ·), token.dropWhile (!reSpace ·))
    else findInboundToken (before ++ [c]) rest

/-- `SplitSendGridWebhookSecret`: the public key and the inbound credential. -/
def splitSendGridWebhookSecret (secret : String) : String × String :=
  let s := secret.toList
  -- a match at the start of the text needs no blank
  let found := if inboundToken.isPrefixOf s then
      let token := s.drop inboundToken.length
      some ([], token.takeWhile (!reSpace ·), token.dropWhile (!reSpace ·))
    else findInboundToken [] s
  match found with
  | none => (trimSpace secret, "")
  | some (before, credential, after) =>
    (String.ofList (trim (before ++ ' ' :: after)), String.ofList credential)

def topics (configured : String) : List String :=
  ((configured.toList.splitOn ',').map fun want => String.ofList (trim want)).filter (· ≠ "")

def topicAllowed (configured arn : String) : Bool := arn ≠ "" && (topics configured).contains arn

/-- `strings.Cut` at a colon; without one, the whole text is the password. -/
def cutSecret (secret : String) : String × String :=
  match secret.toList.dropWhile (· ≠ ':') with
  | [] => ("", secret)
  | _ :: pass => (String.ofList (secret.toList.takeWhile (· ≠ ':')), String.ofList pass)

/-! ### The schemes -/

def hexDigit (n : Nat) : Char := Char.ofNat (if n < 10 then 48 + n else 87 + n)

def hexEncode (s : Bytes) : String :=
  String.ofList (s.flatMap fun b => [hexDigit (b.val / 16), hexDigit (b.val % 16)])

/-- `webhookTolerance`, in seconds. -/
def webhookTolerance : Int := 300

/-- `strconv.ParseInt` in base ten, for 64 bits. -/
def parseInt (raw : Bytes) : Option Int :=
  let unsigned (rest : Bytes) : Option Nat :=
    if rest ≠ [] ∧ rest.all isDigit then some (value rest) else none
  match raw with
  | [] => none
  | b :: rest =>
    if b = minus then
      match unsigned rest with
      | some n => if n ≤ 2 ^ 63 then some (-n) else none
      | none => none
    else
      match unsigned (if b = plus then rest else raw) with
      | some n => if n < 2 ^ 63 then some n else none
      | none => none

def checkTimestamp (now : Nat) (raw : String) : Except WebhookError Unit :=
  match parseInt (utf8 raw) with
  | none => .error .malformedWebhook
  | some seconds =>
    if seconds > now + webhookTolerance ∨ seconds < now - webhookTolerance then
      .error .staleWebhook
    else .ok ()

section
variable (L : Libraries) (now : Nat)

def verifySendGrid (publicKeyBase64 signature timestamp : String) (body : Bytes) :
    Except WebhookError Unit :=
  if publicKeyBase64 = "" then .error .noWebhookSecret
  else if signature = "" ∨ timestamp = "" then .error .malformedWebhook
  else
    match checkTimestamp now timestamp with
    | .error err => .error err
    | .ok () =>
      match L.parseECDSAPublicKey publicKeyBase64 with
      | none => .error .malformedWebhook
      | some key =>
        match L.decodeSignature signature with
        | none => .error .malformedWebhook
        | some sig =>
          if L.ecdsaVerify key (utf8 timestamp ++ body) sig then .ok () else .error .badWebhookSig

def verifyMailgun (signingKey : String) (s : MailgunSignature) : Except WebhookError Unit :=
  if signingKey = "" then .error .noWebhookSecret
  else if s.timestamp = "" ∨ s.token = "" ∨ s.signature = "" then .error .malformedWebhook
  else
    match checkTimestamp now s.timestamp with
    | .error err => .error err
    | .ok () =>
      if s.signature = hexEncode (L.hmac (utf8 signingKey) (utf8 (s.timestamp ++ s.token))) then
        .ok ()
      else .error .badWebhookSig

def verifyMailgunPayload (signingKey : String) (body : Bytes) : Except WebhookError Unit :=
  match L.mailgunSignature body with
  | none => .error .malformedWebhook
  | some s => verifyMailgun L now signingKey s

def verifyPostmark (secret : String) (header : Header) : Except WebhookError Unit :=
  if L.postmarkVerify (cutSecret secret).1 (cutSecret secret).2 header.authorization then .ok ()
  else .error .badWebhookSig

def verifySNS (topicARNs : String) (body : Bytes) : Except WebhookError Unit :=
  match L.topicArn body with
  | none => .error .malformedWebhook
  | some arn =>
    if !topicAllowed topicARNs arn then .error .badWebhookSig
    else if L.snsVerify body then .ok ()
    else .error .badWebhookSig

/-- A signature without the `sha256=` that may stand before it. -/
def bareSignature (signature : String) : String :=
  if 7 < signature.toList.length ∧ "sha256=".toList.isPrefixOf signature.toList then
    String.ofList (signature.toList.drop 7)
  else signature

def verifyGeneric (secret signature : String) (body : Bytes) : Except WebhookError Unit :=
  if secret = "" then .error .noWebhookSecret
  else if signature = "" then .error .malformedWebhook
  else if bareSignature signature = hexEncode (L.hmac (utf8 secret) body) then .ok ()
  else .error .badWebhookSig

/-- `verify`, once the provider is read. -/
def verify (provider : Option Provider) (webhookType : String) (header : Header) (body : Bytes) :
    Except WebhookError Unit :=
  match provider with
  | none => .error .noWebhookSecret
  | some p =>
    if p.webhookSecret = "" then .error .noWebhookSecret
    else if webhookType = "sendgrid" then
      verifySendGrid L now (splitSendGridWebhookSecret p.webhookSecret).1 header.twilioSignature
        header.twilioTimestamp body
    else if webhookType = "mailgun" then verifyMailgunPayload L now p.webhookSecret body
    else if webhookType = "postmark" then verifyPostmark L p.webhookSecret header
    else if webhookType = "ses" then verifySNS L p.webhookSecret body
    else verifyGeneric L p.webhookSecret header.panmailSignature body

end

/-! ### What is recorded -/

structure Recorded where
  tenantID : String
  providerID : String
  messageID : String
  type : EventType
  recipient : String
  errMsg : String
  deriving DecidableEq

def orElse (first second : String) : String := if first = "" then second else first

def sendGridEventType (event : String) : EventType :=
  if event = "delivered" then .delivered
  else if event = "open" then .opened
  else if event = "click" then .clicked
  else if event = "bounce" then .bounced
  else if event = "spamreport" then .spamReport
  else if event = "unsubscribe" then .unsubscribed
  else .unspecified

def mailgunEventType (event : String) : EventType :=
  if event = "delivered" then .delivered
  else if event = "opened" then .opened
  else if event = "clicked" then .clicked
  else if event = "failed" then .bounced
  else if event = "complained" then .spamReport
  else if event = "unsubscribed" then .unsubscribed
  else .unspecified

/-- `postmarkEvent`: the type and the error text. -/
def postmarkEvent (p : PostmarkRecord) : EventType × String :=
  if p.recordType = "Bounce" then
    (if p.type = "HardBounce" then .hardBounce else .softBounce, orElse p.details p.description)
  else if p.recordType = "SpamComplaint" then (.spamReport, p.description)
  else if p.recordType = "Delivery" then (.delivered, "")
  else if p.recordType = "Open" then (.opened, "")
  else if p.recordType = "Click" then (.clicked, "")
  else if p.recordType = "SubscriptionChange" then
    (if p.suppressSending then .unsubscribed else .unspecified, "")
  else (.unspecified, "")

def eventTypes : List EventType :=
  [.unspecified, .sent, .delivered, .opened, .clicked, .bounced, .hardBounce, .softBounce,
    .spamReport, .unsubscribed, .dropped, .rejected, .pending, .deferred, .complained]

/-- `EmailEventType_value`, of the name of a type. -/
def eventTypeValue (name : String) : Option EventType := eventTypes.find? fun t => t.string = name

/-- `snsEndpointHost`: `sns.`, a region, and one of the two domains. -/
def snsEndpointHost (host : String) : Bool :=
  let region (domain : String) : Bool :=
    "sns.".toList.isPrefixOf host.toList && domain.toList.isSuffixOf host.toList &&
      let middle := (host.toList.drop 4).take (host.toList.length - 4 - domain.toList.length)
      middle ≠ [] && middle.all fun c => c.isLower || c.isDigit || c = '-'
  region ".amazonaws.com" || region ".amazonaws.com.cn"

section
variable (L : Libraries) (tenantID providerID : String)

/-- `record`, where the type is known. -/
def recordTyped (messageID : String) (type : EventType) (recipient errMsg : String) :
    List Recorded :=
  if type = .unspecified then []
  else [⟨tenantID, providerID, messageID, type, recipient, errMsg⟩]

def recordEach (messageID : String) (type : EventType) (recipients : List String)
    (errMsg : String) : List Recorded :=
  recipients.map fun r => ⟨tenantID, providerID, messageID, type, r, errMsg⟩

def snsSubscribeURLAllowed (raw : String) : Bool :=
  match L.parseURL raw with
  | none => false
  | some (scheme, hostname) => scheme = "https" && snsEndpointHost hostname

def recordSESNotification (payload : Bytes) : List Recorded :=
  match L.sesNotification payload with
  | none => []
  | some n =>
    let kind := orElse n.notificationType n.eventType
    let each := recordEach tenantID providerID n.messageID
    if kind = "Bounce" then
      match n.bounce with
      | none => []
      | some (bounceType, recipients) =>
        recipients.map fun r => ⟨tenantID, providerID, n.messageID,
          if bounceType = "Permanent" then .hardBounce else .softBounce, r.emailAddress,
          orElse r.diagnosticCode r.status⟩
    else if kind = "Complaint" then
      match n.complaint with
      | none => []
      | some (recipients, feedbackType) => each .spamReport recipients feedbackType
    else if kind = "Delivery" then
      let named := n.delivery.getD []
      each .delivered (if named = [] then n.destination else named) ""
    else if kind = "Send" then each .sent n.destination ""
    else if kind = "Reject" then each .rejected n.destination (n.reject.getD "")
    else if kind = "DeliveryDelay" then each .deferred n.destination (n.deliveryDelay.getD "")
    else if kind = "Open" then each .opened n.destination ""
    else if kind = "Click" then each .clicked n.destination ""
    else []

structure Answer where
  status : Nat
  recorded : List Recorded

def handleSendGrid (body : Bytes) : Answer :=
  match L.sendGridEvents body with
  | none => ⟨400, []⟩
  | some events => ⟨200, events.flatMap fun e => recordTyped tenantID providerID e.messageID
      (sendGridEventType e.event) e.email (orElse e.reason e.response)⟩

def handleMailgun (body : Bytes) : Answer :=
  match L.mailgunEvent body with
  | none => ⟨400, []⟩
  | some e => ⟨200, recordTyped tenantID providerID e.messageID (mailgunEventType e.event)
      e.recipient (orElse e.description e.message)⟩

def handlePostmark (body : Bytes) : Answer :=
  match L.postmarkRecord body with
  | none => ⟨400, []⟩
  | some p => ⟨200, recordTyped tenantID providerID p.messageID (postmarkEvent p).1
      (orElse p.email p.recipient) (postmarkEvent p).2⟩

def handleSES (body : Bytes) : Answer :=
  match L.snsMessage body with
  | none => ⟨400, []⟩
  | some msg =>
    if msg.type = "SubscriptionConfirmation" then
      if !snsSubscribeURLAllowed L msg.subscribeURL then ⟨400, []⟩
      else if L.confirm msg.subscribeURL then ⟨200, []⟩
      else ⟨502, []⟩
    else if msg.type = "UnsubscribeConfirmation" then ⟨200, []⟩
    else ⟨200, recordSESNotification L tenantID providerID (utf8 msg.message)⟩

def handleGeneric (body : Bytes) : Answer :=
  match L.genericEvent body with
  | none => ⟨400, []⟩
  | some e =>
    match eventTypeValue ("EMAIL_EVENT_TYPE_" ++ L.toUpper e.event) with
    | none => ⟨200, []⟩
    | some type => ⟨200, recordTyped tenantID providerID e.messageID type e.recipient e.error⟩

end

def maxWebhookBody : Nat := 2 ^ 20

/-- The tenant, the provider and the type that a path names. -/
def route (m : CaseMapping) (path : String) : Option (String × String × String) :=
  match ((path.toList.dropWhile (· = '/')).rdropWhile (· = '/')).splitOn '/' with
  | _ :: tenantID :: providerID :: webhookType :: _ =>
    some (String.ofList tenantID, String.ofList providerID, m.toLower (String.ofList webhookType))
  | _ => none

/-- The body of a request, unless it is too large or cannot be read. -/
def Request.readBody (r : Request) : Option Bytes :=
  r.body.filter fun b => b.length ≤ maxWebhookBody

section
variable (L : Libraries) (getByID : String → String → Option Provider) (now : Nat)

def serveHTTP (r : Request) : Answer :=
  if r.method ≠ "POST" then ⟨405, []⟩
  else
    match route L.unicode r.path with
    | none => ⟨400, []⟩
    | some (tenantID, providerID, webhookType) =>
      match r.readBody with
      | none => ⟨413, []⟩
      | some body =>
        match verify L now (getByID tenantID providerID) webhookType r.header body with
        | .error _ => ⟨401, []⟩
        | .ok () =>
          if webhookType = "sendgrid" then handleSendGrid L tenantID providerID body
          else if webhookType = "mailgun" then handleMailgun L tenantID providerID body
          else if webhookType = "postmark" then handlePostmark L tenantID providerID body
          else if webhookType = "ses" then handleSES L tenantID providerID body
          else handleGeneric L tenantID providerID body

def Accepted (r : Request) : Prop :=
  r.method = "POST" ∧ ∃ tenantID providerID webhookType body,
    route L.unicode r.path = some (tenantID, providerID, webhookType) ∧ r.readBody = some body ∧
      verify L now (getByID tenantID providerID) webhookType r.header body = .ok ()

theorem accepted_of_recorded {r : Request} (recorded : (serveHTTP L getByID now r).recorded ≠ []) :
    Accepted L getByID now r := by
  unfold serveHTTP at recorded
  split at recorded
  · exact absurd rfl recorded
  next post =>
    split at recorded
    · exact absurd rfl recorded
    next tenantID providerID webhookType routed =>
      split at recorded
      · exact absurd rfl recorded
      next body read =>
        split at recorded
        · exact absurd rfl recorded
        next verified =>
          exact ⟨not_not.mp post, tenantID, providerID, webhookType, body, routed, read, verified⟩

end

/-! ### Signatures that the stored value does not make -/

section
variable (L : Libraries)

/-- A body signed by SendGrid, with the key stored for the provider. -/
def SignedBySendGrid (p : Provider) (header : Header) (body : Bytes) : Prop :=
  ∃ key sig, L.parseECDSAPublicKey (splitSendGridWebhookSecret p.webhookSecret).1 = some key ∧
    L.decodeSignature header.twilioSignature = some sig ∧
    L.ecdsaVerify key (utf8 header.twilioTimestamp ++ body) sig = true

/-- A body signed by SNS, for one of the topics stored for the provider. -/
def SignedBySNS (p : Provider) (body : Bytes) : Prop :=
  ∃ arn ∈ topics p.webhookSecret, L.topicArn body = some arn ∧ L.snsVerify body = true

/-- The request carries a signature of the provider's own scheme. -/
def Provider.Signed (p : Provider) (r : Request) : Prop :=
  ∃ body, r.readBody = some body ∧
    match p.type with
    | .sendgrid => SignedBySendGrid L p r.header body
    | .ses => SignedBySNS L p body
    | _ => False

/-- A provider whose stored value is no secret: SendGrid's public key without an inbound credential,
or the topics of SES. -/
structure Provider.Public (p : Provider) : Prop where
  stored : p.webhookSecret ≠ ""
  /-- Something stands on one side of a colon. -/
  named : p.webhookSecret ≠ ":"
  kind : p.type = .sendgrid ∧ (splitSendGridWebhookSecret p.webhookSecret).2 = "" ∧
      (∀ body, ¬ SignedBySNS L p body) ∨
    p.type = .ses ∧ L.parseECDSAPublicKey (splitSendGridWebhookSecret p.webhookSecret).1 = none

/-- What anybody can make: JSON with a signature block of one's own, and Basic credentials. -/
structure Craft where
  mailgunPayload : MailgunSignature → Bytes
  reads : ∀ s, L.mailgunSignature (mailgunPayload s) = some s
  /-- It names no topic. -/
  plain : ∀ s, L.topicArn (mailgunPayload s) = some ""
  small : ∀ s, s.timestamp.length + s.token.length + s.signature.length ≤ 1000 →
    (mailgunPayload s).length ≤ maxWebhookBody
  basic : String → String → String
  accepted : ∀ user pass, ':' ∉ user.toList → user ≠ "" ∨ pass ≠ "" →
    L.postmarkVerify user pass (basic user pass) = true
  /-- An HMAC-SHA256 has 32 bytes. -/
  sum_length : ∀ key data, (L.hmac key data).length = 32
  unsigned : L.decodeSignature "" = none

end

section
variable {L : Libraries} {now : Nat} {p : Provider} {header : Header} {body : Bytes}

theorem signedBySendGrid_of_verify
    (passed : verifySendGrid L now (splitSendGridWebhookSecret p.webhookSecret).1
      header.twilioSignature header.twilioTimestamp body = .ok ()) :
    SignedBySendGrid L p header body := by
  unfold verifySendGrid at passed
  split at passed
  · cases passed
  split at passed
  · cases passed
  split at passed
  · cases passed
  split at passed
  · cases passed
  next key parsed =>
    split at passed
    · cases passed
    next sig decoded =>
      split at passed
      next verified => exact ⟨key, sig, parsed, decoded, verified⟩
      · cases passed

theorem signedBySNS_of_verify (passed : verifySNS L p.webhookSecret body = .ok ()) :
    SignedBySNS L p body := by
  unfold verifySNS at passed
  split at passed
  · cases passed
  next arn read =>
    split at passed
    · cases passed
    next allowed =>
      split at passed
      next verified =>
        simp only [topicAllowed, Bool.not_eq_true', Bool.not_eq_false, Bool.and_eq_true,
          contains_iff_mem] at allowed
        exact ⟨arn, allowed.2, read, verified⟩
      · cases passed

/-- On the URLs of the signature schemes, what passes carries the provider's signature: a key is no
topic, and topics are no key. -/
theorem Provider.Public.signed_of_verify (public_ : p.Public L) {webhookType : String} {r : Request}
    (scheme : webhookType = "sendgrid" ∨ webhookType = "ses") (read : r.readBody = some body)
    (passed : verify L now (some p) webhookType r.header body = .ok ()) : p.Signed L r := by
  refine ⟨body, read, ?_⟩
  simp only [verify, public_.stored, if_false] at passed
  rcases scheme with rfl | rfl
  · have signed := signedBySendGrid_of_verify (by simpa using passed)
    rcases public_.kind with ⟨type, _⟩ | ⟨_, noKey⟩
    · simpa [type] using signed
    · obtain ⟨key, _, parsed, _⟩ := signed
      rw [noKey] at parsed
      cases parsed
  · have signed := signedBySNS_of_verify (by simpa using passed)
    rcases public_.kind with ⟨_, _, noTopic⟩ | ⟨type, _⟩
    · exact absurd signed (noTopic body)
    · simpa [type] using signed

end

/-! ### Posts that the stored value does make -/

@[simp] theorem length_hexEncode (s : Bytes) : (hexEncode s).length = 2 * s.length := by
  rw [hexEncode, String.length_ofList]
  induction s with
  | nil => rfl
  | cons _ _ ih =>
    rw [flatMap_cons, length_append, ih]
    simp only [length_cons, length_nil]
    omega

theorem parseInt_digits {s : Bytes} (present : s ≠ []) (digits : s.all isDigit = true)
    (bits : value s < 2 ^ 63) : parseInt s = some (value s : Int) := by
  cases s with
  | nil => exact absurd rfl present
  | cons b =>
    have first : isDigit b = true := all_eq_true.mp digits b mem_cons_self
    have unsigned : b ≠ minus ∧ b ≠ plus := by
      constructor <;> (rintro rfl; exact absurd first (by decide))
    simp only [parseInt, unsigned.1, unsigned.2, if_false, digits, ne_eq, reduceCtorEq,
      not_false_eq_true, and_self, if_true, bits]

def clockText (now : Nat) : String := ofAscii (fixed 19 now)

theorem utf8_clockText (now : Nat) : utf8 (clockText now) = fixed 19 now := by
  apply utf8_ofAscii
  intro b mem
  have digit := isDigit_fixed mem
  simp only [isDigit, Bool.and_eq_true, decide_eq_true_eq] at digit
  omega

theorem checkTimestamp_clockText {now : Nat} (bits : now < 2 ^ 63) :
    checkTimestamp now (clockText now) = .ok () := by
  have read : value (fixed 19 now) = now := value_fixed (by omega)
  have digits : (fixed 19 now).all isDigit = true :=
    all_eq_true.mpr fun b mem => isDigit_fixed mem
  have present : fixed 19 now ≠ [] := ne_nil_of_length_pos (by simp)
  rw [checkTimestamp, utf8_clockText, parseInt_digits present digits (by omega), read]
  simp [webhookTolerance]

theorem bareSignature_of_start {s : String} (present : s ≠ "") :
    bareSignature ("sha256=" ++ s) = s := by
  have chars : s.toList ≠ [] := by simpa using present
  have long : 0 < s.toList.length := length_pos_of_ne_nil chars
  simp [bareSignature, long]

theorem cutSecret_fst (secret : String) : ':' ∉ (cutSecret secret).1.toList := by
  unfold cutSecret
  split
  · simp
  · intro mem
    rw [String.toList_ofList] at mem
    simpa using mem_takeWhile_imp mem

theorem cutSecret_present {secret : String} (stored : secret ≠ "") (named : secret ≠ ":") :
    (cutSecret secret).1 ≠ "" ∨ (cutSecret secret).2 ≠ "" := by
  unfold cutSecret
  split
  · exact .inr stored
  next c pass rest =>
    by_contra both
    simp only [not_or, not_not] at both
    -- a colon between two empty halves is all there is
    have whole : secret.toList.takeWhile (· ≠ ':') ++ secret.toList.dropWhile (· ≠ ':') =
        secret.toList := takeWhile_append_dropWhile
    have colon : c = ':' := by
      have head := head?_dropWhile_not (· ≠ ':') secret.toList
      rw [rest] at head
      simpa using head
    rw [rest, colon] at whole
    have left : secret.toList.takeWhile (· ≠ ':') = [] := by simpa using both.1
    have right : pass = [] := by simpa using both.2
    rw [left, right] at whole
    exact named (String.ext_iff.mpr whole.symm)

section
variable {L : Libraries} {now : Nat} {p : Provider}

/-- On any other URL, whoever knows the stored value makes a post that passes without such a
signature. -/
theorem exists_forged (craft : Craft L) (public_ : p.Public L) (bits : now < 2 ^ 63)
    {webhookType : String} (other : webhookType ≠ "sendgrid" ∧ webhookType ≠ "ses") :
    ∃ header body, header.twilioSignature = "" ∧ L.topicArn body = some "" ∧
      body.length ≤ maxWebhookBody ∧ verify L now (some p) webhookType header body = .ok () := by
  have sums (data : Bytes) : (hexEncode (L.hmac (utf8 p.webhookSecret) data)).length = 64 := by
    rw [length_hexEncode, craft.sum_length]
  have present (data : Bytes) : hexEncode (L.hmac (utf8 p.webhookSecret) data) ≠ "" := by
    intro empty
    have long := sums data
    rw [empty] at long
    cases long
  simp only [verify, public_.stored, other, if_false]
  by_cases mailgun : webhookType = "mailgun"
  · -- the signature block of the posted JSON, keyed with the stored value
    have timed : (clockText now).length = 19 := by simp [clockText, ofAscii]
    refine ⟨⟨"", "", "", ""⟩, craft.mailgunPayload ⟨clockText now, "t", hexEncode
      (L.hmac (utf8 p.webhookSecret) (utf8 (clockText now ++ "t")))⟩, rfl, craft.plain _, ?_, ?_⟩
    · apply craft.small
      simp only [timed, sums]
      decide
    · have clock : clockText now ≠ "" := by
        intro empty
        rw [empty] at timed
        cases timed
      simp [mailgun, verifyMailgunPayload, craft.reads, verifyMailgun, public_.stored, clock,
        present, checkTimestamp_clockText bits]
  · by_cases postmark : webhookType = "postmark"
    · -- the two halves of the stored value, as Basic credentials
      refine ⟨⟨"", "", "", craft.basic (cutSecret p.webhookSecret).1 (cutSecret p.webhookSecret).2⟩,
        craft.mailgunPayload ⟨"", "", ""⟩, rfl, craft.plain _, craft.small _ (by decide), ?_⟩
      simp [postmark, verifyPostmark, craft.accepted _ _ (cutSecret_fst _)
        (cutSecret_present public_.stored public_.named)]
    · -- the HMAC of the body
      refine ⟨⟨"", "", "sha256=" ++ hexEncode (L.hmac (utf8 p.webhookSecret)
        (craft.mailgunPayload ⟨"", "", ""⟩)), ""⟩,
        craft.mailgunPayload ⟨"", "", ""⟩, rfl, craft.plain _, craft.small _ (by decide), ?_⟩
      simp [mailgun, postmark, verifyGeneric, public_.stored, bareSignature_of_start (present _)]

theorem not_signed (craft : Craft L) {r : Request} {body : Bytes} (read : r.readBody = some body)
    (unsigned : r.header.twilioSignature = "") (plain : L.topicArn body = some "") :
    ¬ p.Signed L r := by
  rintro ⟨other, readOther, signed⟩
  cases read.symm.trans readOther
  split at signed
  · obtain ⟨_, sig, _, decoded, _⟩ := signed
    rw [unsigned, craft.unsigned] at decoded
    cases decoded
  · obtain ⟨arn, mem, named, _⟩ := signed
    cases plain.symm.trans named
    simp [topics] at mem
  · exact signed

end

/-- For a provider whose stored value is public, the handler accepts and records only what carries a
signature of the provider's own scheme exactly on the URLs of the two signature schemes. -/
theorem signed_only_iff {L : Libraries} (craft : Craft L)
    (getByID : String → String → Option Provider) {now : Nat} (bits : now < 2 ^ 63)
    {path tenantID providerID webhookType : String} {p : Provider}
    (routed : route L.unicode path = some (tenantID, providerID, webhookType))
    (found : getByID tenantID providerID = some p) (public_ : p.Public L) :
    (∀ r : Request, r.path = path → ((serveHTTP L getByID now r).recorded ≠ [] → p.Signed L r) ∧
      (¬ p.Signed L r → ¬ Accepted L getByID now r)) ↔
    webhookType = "sendgrid" ∨ webhookType = "ses" := by
  constructor
  · intro safe
    by_contra scheme
    rw [not_or] at scheme
    obtain ⟨header, body, unsigned, plain, small, passed⟩ :=
      exists_forged craft public_ bits scheme
    have read : (⟨"POST", path, header, some body⟩ : Request).readBody = some body := by
      simpa [Request.readBody] using small
    exact (safe ⟨"POST", path, header, some body⟩ rfl).2 (not_signed craft read unsigned plain)
      ⟨rfl, tenantID, providerID, webhookType, body, routed, read, found ▸ passed⟩
  · intro scheme
    have signed : ∀ r : Request, r.path = path → Accepted L getByID now r → p.Signed L r := by
      rintro r rfl ⟨_, tenant, provider, type, body, same, read, passed⟩
      cases routed.symm.trans same
      rw [found] at passed
      exact public_.signed_of_verify scheme read passed
    intro r at_
    exact ⟨fun recorded => signed r at_ (accepted_of_recorded L getByID now recorded),
      mt (signed r at_)⟩

/-! ### A post keyed with the public key -/

theorem length_utf8_le (s : String) : (utf8 s).length ≤ 4 * s.length := by
  rw [utf8, length_map, ← String.length_toList]
  induction s.toList with
  | nil => exact le_rfl
  | cons c =>
    have char := Char.utf8Size_le_four c
    rw [flatMap_cons, length_append, String.length_utf8EncodeChar, length_cons]
    omega

namespace Sample

/-- The three texts, apart by a byte that no text has. -/
def payload (s : MailgunSignature) : Bytes :=
  utf8 s.timestamp ++ 255 :: (utf8 s.token ++ 255 :: utf8 s.signature)

theorem payload_injective : Function.Injective payload := by
  rintro ⟨timestamp, token, signature⟩ ⟨timestamp', token', signature'⟩ same
  obtain ⟨first, rest⟩ := append_separator_inj (top_notMem_utf8 _) (top_notMem_utf8 _) same
  obtain ⟨second, third⟩ := append_separator_inj (top_notMem_utf8 _) (top_notMem_utf8 _) rest
  cases utf8_injective first
  cases utf8_injective second
  cases utf8_injective third
  rfl

def publicKey : String := "MFkwEwYHKoZI"

def body : Bytes := utf8 "bounce of ana@y"

/-- One key, one genuine signature of one body at the time 1000, and one body that is an event. -/
noncomputable def libraries : Libraries where
  unicode := .ascii
  toUpper s := String.ofList (s.toList.map Char.toUpper)
  hmac key data := (key ++ data ++ List.replicate 32 0).take 32
  PublicKey := Unit
  parseECDSAPublicKey s := if s = publicKey then some () else none
  decodeSignature s := if s = "MEUC" then some (1, 1) else none
  ecdsaVerify _ data _ := data = utf8 "1000" ++ body
  postmarkVerify user pass authorization := authorization = user ++ ":" ++ pass
  snsVerify _ := false
  topicArn _ := some ""
  mailgunSignature := Function.partialInv payload
  sendGridEvents b := if b = body then some [⟨"ana@y", "bounce", "m1", "gone", ""⟩] else none
  mailgunEvent _ := none
  postmarkRecord _ := none
  genericEvent b := if b = body then some ⟨"bounced", "ana@y", "m1", "gone"⟩ else none
  snsMessage _ := none
  sesNotification _ := none
  parseURL _ := none
  confirm _ := false

noncomputable def craft : Craft libraries where
  mailgunPayload := payload
  reads := Function.partialInv_left payload_injective
  plain _ := rfl
  small s short := by
    have first := length_utf8_le s.timestamp
    have second := length_utf8_le s.token
    have third := length_utf8_le s.signature
    simp only [payload, length_append, length_cons, maxWebhookBody]
    omega
  basic user pass := user ++ ":" ++ pass
  accepted _ _ _ _ := decide_eq_true rfl
  sum_length key data := by
    change ((key ++ data ++ List.replicate 32 0).take 32).length = 32
    simp only [length_take, length_append, length_replicate]
    omega
  unsigned := rfl

def provider : Provider := ⟨.sendgrid, publicKey⟩

def getByID (tenantID providerID : String) : Option Provider :=
  if tenantID = "t" ∧ providerID = "p" then some provider else none

theorem public_ : provider.Public libraries where
  stored := by decide
  named := by decide
  kind := .inl ⟨rfl, by decide, fun _ ⟨_, _, _, verified⟩ => by cases verified⟩

def genuine : Request := ⟨"POST", "/webhooks/t/p/sendgrid", ⟨"MEUC", "1000", "", ""⟩, some body⟩

noncomputable def forged : Request :=
  ⟨"POST", "/webhooks/t/p/generic",
    ⟨"", "", hexEncode (libraries.hmac (utf8 publicKey) body), ""⟩, some body⟩

end Sample

/-- SendGrid's own post is recorded, and carries its signature. -/
theorem signed_only_genuine :
    (serveHTTP Sample.libraries Sample.getByID 1000 Sample.genuine).recorded ≠ [] ∧
    Sample.provider.Signed Sample.libraries Sample.genuine := by
  have recorded : (serveHTTP Sample.libraries Sample.getByID 1000 Sample.genuine).recorded ≠ [] := by
    decide
  have routed : route Sample.libraries.unicode "/webhooks/t/p/sendgrid" =
      some ("t", "p", "sendgrid") := by decide
  have safe := (signed_only_iff Sample.craft Sample.getByID (by decide : 1000 < 2 ^ 63) routed rfl
    Sample.public_).mpr (.inl rfl)
  exact ⟨recorded, (safe Sample.genuine rfl).1 recorded⟩

/-- Posted to another type with an HMAC keyed with the public key, a made-up bounce is recorded
unsigned. -/
theorem forged_recorded : Sample.provider.Public Sample.libraries ∧
    (serveHTTP Sample.libraries Sample.getByID 1000 Sample.forged).recorded =
      [⟨"t", "p", "m1", .bounced, "ana@y", "gone"⟩] ∧
    ¬ Sample.provider.Signed Sample.libraries Sample.forged := by
  have read : Sample.forged.readBody = some Sample.body := by decide
  exact ⟨Sample.public_, by decide, not_signed Sample.craft read rfl rfl⟩

end Panmail.ProviderWebhooks
