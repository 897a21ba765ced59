import Panmail.Delivery.Attempts

/-!
# Settling a pass: what the worker makes of a send

`processEmail` of the queue worker, from the claimed row to the one statement that
settles it, with the verdicts it records on the way. The statement is a `RowWrite` of
the outbox model, so a settled pass here is a pass that can settle there.
-/
namespace Panmail.Delivery

open Text Outbox

variable (P : Platform)

structure SettleInput where
  /-- `lease.lost` when the send returned. -/
  lost : Bool
  /-- The clock, when the failure is stamped and when the retry is scheduled. -/
  failedAt : Time
  retryFrom : Time
  /-- The worker's own read of the message's history. -/
  finished : Except String (List EmailEvent)
  /-- `getRetryPattern`. -/
  pattern : List String
  /-- The answers for a recipient's verdict and for the worker's suppression of it. -/
  record : String → RecordAnswer
  creates : String → Bool

/-- What a pass does to its row: nothing, the statement that settles it, or nothing because
it panicked. -/
inductive Settlement where
  | untouched
  | write (w : RowWrite)
  | panicked

/-! ### The retry schedule -/

/-- What `nextRetryDelay` yields; `outOfRange` is the panic of its index expression. -/
inductive RetryDecision where
  | retry (delay : Int)
  | stop
  | outOfRange
  deriving DecidableEq

/-- `nextRetryDelay`. An entry that is no duration falls back to a quadratic backoff. -/
def nextRetryDelay (c : Classification) (retryCount : Nat) (pattern : List String) : RetryDecision :=
  if c.retryable = false ∨ pattern.length < retryCount then .stop
  else
    match retryCount with
    | 0 => .outOfRange
    | n + 1 =>
      match pattern[n]? with
      | none => .outOfRange
      | some entry => .retry ((P.parseDuration entry).getD ((n + 1) * (n + 1) * 60000000000))

/-- `now.Add(delay)`. -/
def addDuration (now : Time) (delay : Int) : Time := (Int.ofNat now + delay).toNat

/-! ### Verdicts -/

def EventType.string (t : EventType) : String :=
  "EMAIL_EVENT_TYPE_" ++ match t with
    | .unspecified => "UNSPECIFIED" | .sent => "SENT" | .delivered => "DELIVERED"
    | .opened => "OPENED" | .clicked => "CLICKED" | .bounced => "BOUNCED"
    | .hardBounce => "HARD_BOUNCE" | .softBounce => "SOFT_BOUNCE" | .spamReport => "SPAM_REPORT"
    | .unsubscribed => "UNSUBSCRIBED" | .dropped => "DROPPED" | .rejected => "REJECTED"
    | .pending => "PENDING" | .deferred => "DEFERRED" | .complained => "COMPLAINED"

section
variable (e : OutboxEmail) (req : SendEmailRequest) (s : SettleInput)

/-- The worker's `Add` for a recipient that unsubscribed in an SMTP reply. -/
def suppressUnsubscribed (type : EventType) (r err : String) : List Effect :=
  if type = .unsubscribed then
    addSuppression P e.tenantID r ("Automatic suppression due to " ++ type.string ++ ": " ++ err)
      (s.creates r)
  else []

/-- `recordRecipientFailure`: the verdict, with this recipient's own error. -/
def recordRecipientFailure (f : RecipientFailure) : List Effect :=
  recordEvent P e.tenantID req.providerID e.id f.verdict.type f.recipient req.subject f.err
    (s.record f.recipient)

def settlePermanent (f : RecipientFailure) : List Effect :=
  recordRecipientFailure P e req s f ++ suppressUnsubscribed P e s f.verdict.type f.recipient f.err

def rowUpdate (status : OutboxStatus) (retryCount : Nat) (nextRetryAt : Time) (lastError : String) :
    OutboxUpdate :=
  ⟨status, retryCount, nextRetryAt, lastError, s.failedAt⟩

/-- `Permanent` and `Retryable` of `RecipientFailuresError`. -/
def failuresBy (retryable : Bool) (failures : List RecipientFailure) : List RecipientFailure :=
  failures.filter fun f => f.verdict.retryable = retryable

/-- The retry count after a pass that failed for some recipients: a pass that delivered to
anyone is not spent from the schedule. -/
def countAfter (delivered : Nat) : Nat :=
  if delivered = 0 then e.retryCount + 1 else e.retryCount

/-- What the schedule says after such a pass, from the first failure worth another attempt. -/
def recipientRetry (f : RecipientFailure) (delivered : Nat) : RetryDecision :=
  nextRetryDelay P f.verdict (max (countAfter e delivered) 1) s.pattern

def handleRecipientFailures (failures : List RecipientFailure) (delivered : Nat) :
    List Effect × Settlement :=
  let lastError := (SendError.recipients failures delivered).text
  let settled := (failuresBy false failures).flatMap (settlePermanent P e req s)
  match failuresBy true failures with
  | [] =>
    -- everyone is finished; a pass that delivered to no one failed
    if 0 < delivered then (settled, .write .delete)
    else (settled, .write (.update (rowUpdate s .failed e.retryCount e.nextRetryAt lastError)
      (.inr rfl)))
  | f :: rest =>
    match recipientRetry P e s f delivered with
    | .retry delay =>
      (settled, .write (.update (rowUpdate s .deferred (countAfter e delivered)
        (addDuration s.retryFrom delay) lastError) (.inl rfl)))
    | .stop =>
      -- out of attempts: those still failing get their final verdict
      (settled ++ (f :: rest).flatMap (recordRecipientFailure P e req s),
        .write (.update (rowUpdate s .failed (countAfter e delivered) e.nextRetryAt lastError)
          (.inr rfl)))
    | .outOfRange => (settled, .panicked)

/-- `unfinishedRecipients`: if the history cannot be read, every recipient is kept. -/
def unfinishedRecipients : List String :=
  let recipients := uniqueRecipients P req.audience
  match s.finished with
  | .error _ => recipients
  | .ok events => recipients.filter fun r => !finishedIn events r

/-- A message-level failure's verdict: a refusal that says it is permanent is taken at its
word. -/
def messageVerdict (err : SendError) : Classification :=
  if err.permanent then ⟨.rejected, false, false⟩ else classifyError P.unicode err.text

def recordForEach (type : EventType) (lastError : String) (recipients : List String) : List Effect :=
  recipients.flatMap fun r =>
    recordEvent P e.tenantID req.providerID e.id type r req.subject lastError (s.record r)

/-- `handleFailure` of an error that is about the whole message. -/
def handleMessageFailure (err : SendError) : List Effect × Settlement :=
  let lastError := err.text
  let verdict := messageVerdict P err
  let recipients := unfinishedRecipients P req s
  match nextRetryDelay P verdict (e.retryCount + 1) s.pattern with
  | .retry delay =>
    (recordForEach P e req s .deferred lastError recipients,
      .write (.update (rowUpdate s .deferred (e.retryCount + 1) (addDuration s.retryFrom delay)
        lastError) (.inl rfl)))
  | .stop =>
    (recordForEach P e req s verdict.type lastError recipients ++
        recipients.flatMap fun r => suppressUnsubscribed P e s verdict.type r lastError,
      .write (.update (rowUpdate s .failed (e.retryCount + 1) e.nextRetryAt lastError) (.inr rfl)))
  | .outOfRange => ([], .panicked)

/-- `handleFailure`. A paced message keeps its retry count and its last error. -/
def handleFailure (err : SendError) : List Effect × Settlement :=
  match err with
  | .paced wait =>
    ([], .write (.update (rowUpdate s .deferred e.retryCount (s.failedAt + wait) e.lastError)
      (.inl rfl)))
  | .recipients failures delivered => handleRecipientFailures P e req s failures delivered
  | err => handleMessageFailure P e req s err

end

/-- `processEmail`, once the lease is held. A worker whose claim was lost writes nothing. -/
def processEmail (e : OutboxEmail) (input : SendInput) (s : SettleInput) :
    List Effect × Settlement :=
  match P.unmarshalRequest e.request with
  | none => ([], .write .delete)
  | some req =>
    let sent := sendEmail P e.tenantID e.id req input
    if s.lost then (sent.1, .untouched)
    else
      match sent.2 with
      | .ok _ => (sent.1, .write .delete)
      | .error err =>
        let settled := handleFailure P e req s err
        (sent.1 ++ settled.1, settled.2)

end Panmail.Delivery
