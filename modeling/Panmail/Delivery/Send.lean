import Panmail.Delivery.Events
import Panmail.Delivery.Pacing
import Panmail.Delivery.Render

/-!
# A delivery pass: `SendEmail` in worker mode

`doSend` as the source runs it: the provider, the content, the history, the suppressions made since
admission, the pace, and then one recipient after another, each tried with every provider until one
takes it. Everything the pass is told on the way is its input; what it does is a list of effects.
The loop is the sum of its iterations, `sendLoop_eq`.
-/
namespace Panmail.Delivery

open Text Outbox List

variable (P : Platform) {err : SendError} {req : SendEmailRequest} {tenantID messageID : String}

/-- How the attempt at one provider goes: no sender could be made, or `Send` answered; with the
answers to the events that follow. -/
inductive Attempt where
  | noSender (err : String)
  | accepted (sent delivered : RecordAnswer)
  | refused (err : String) (deferred : RecordAnswer)

structure SendInput where
  /-- A refusal by the checks of `SendEmail` that read other stores. -/
  refusal : Option String
  /-- The two calls of `getProviders`, and `GetByID`, an error of which is ignored. -/
  cached : Except String (List EmailProvider)
  byID : Option EmailProvider
  listed : Except String (List EmailProvider)
  template : Except String (Option Template)
  render : Renderer
  /-- `ListByMessageID`. -/
  history : Except String (List EmailEvent)
  /-- The suppression lookup, statement by statement, where there is a repository. -/
  suppressions : Option (Nat → Except String (List Suppression))
  dropRecord : String → RecordAnswer
  pace : PaceInput
  /-- `ctx.Err()` when the loop comes to a recipient. -/
  ctxErr : String → Option String
  /-- The attempt for a recipient at the provider in a position. -/
  attempt : String → Nat → Attempt

structure SendEmailResponse where
  messageID : String
  status : EventType
  deriving DecidableEq

/-! ### Before anything is sent -/

/-- The senders that admit the address most specifically: by name, by domain, or with no
restriction. -/
def admittingProviders (all : List EmailProvider) (fromAddress : String) : List EmailProvider :=
  let by_ (m : SenderMatch) := all.filter fun p =>
    !p.receiver && matchAddress P p.allowedSenders fromAddress = m
  if by_ .byAddress ≠ [] then by_ .byAddress
  else if by_ .byDomain ≠ [] then by_ .byDomain
  else by_ .unrestricted

/-- The provider the request names, or those of the tenant that admit the sender. -/
def resolveProviders (tenantID fromAddress : String) (req : SendEmailRequest) (input : SendInput) :
    Except SendError (List EmailProvider) :=
  let named := if req.providerID = "" then none
    else ((input.cached.toOption.getD []).find? fun p => p.id = req.providerID).orElse
      fun _ => input.byID
  match named with
  | some p =>
    if (matchAddress P p.allowedSenders fromAddress).allowed then .ok [p]
    else .error (.senderRefused p.name fromAddress)
  | none =>
    match input.listed with
    | .error err => .error (.failed ("failed to list providers: " ++ err))
    | .ok all =>
      if admittingProviders P all fromAddress = [] then
        .error (.failed ("no email providers available for tenant " ++ tenantID))
      else .ok (admittingProviders P all fromAddress)

/-- `dropSuppressedAtDelivery`: the recipients dropped, and the events that say so. -/
def dropSuppressedAtDelivery (tenantID messageID subject : String) (recipients : List String)
    (finished : String → Bool) (input : SendInput) : Except SendError (List String × List Effect) :=
  match input.suppressions with
  | none => .ok ([], [])
  | some query =>
    let unfinished := recipients.filter fun r => !finished r
    match suppressionsFor P tenantID (unfinished.map (suppressionKeyOf P)) query with
    | .error err => .error (.failed err)
    | .ok reasons =>
      let hits := unfinished.filterMap fun r =>
        (reasonFor reasons (suppressionKeyOf P r)).map fun reason => (r, reason)
      .ok (hits.map Prod.fst, hits.flatMap fun hit =>
        recordEvent P tenantID "" messageID .dropped hit.1 subject hit.2 (input.dropRecord hit.1))

structure Prepared where
  providers : List EmailProvider
  content : Content
  history : List EmailEvent
  recipients : List String
  dropped : List String
  drops : List Effect

/-- `doSend` up to the pace. -/
def prepareSend (tenantID messageID : String) (req : SendEmailRequest) (input : SendInput) :
    Except SendError Prepared :=
  match senderAddress P req.from_ with
  | .error err => .error (.failed err)
  | .ok fromAddress =>
    match resolveProviders P tenantID fromAddress req input with
    | .error err => .error err
    | .ok providers =>
      match renderTemplate req input.template input.render with
      | .error err => .error err
      | .ok content =>
        match input.history with
        | .error err => .error (.failed ("failed to read delivery history: " ++ err))
        | .ok history =>
          let recipients := uniqueRecipients P req.audience
          match dropSuppressedAtDelivery P tenantID messageID content.subject recipients
            (finishedIn history) input with
          | .error err => .error err
          | .ok (dropped, drops) => .ok ⟨providers, content, history, recipients, dropped, drops⟩

/-- The recipients still to go, which is what the pace charges for. -/
def Prepared.pending (p : Prepared) : Nat :=
  (p.recipients.filter fun r => !finishedIn p.history r && !p.dropped.contains r).length

/-! ### The loop over the recipients -/

structure Outcome where
  effects : List Effect
  sent : Bool
  err : Option String

/-- What calling a provider's sender does: the copy it is handed, and the events that follow. `SENT`
is recorded once the provider has taken it. -/
def attemptEffects (tenantID messageID : String) (req : SendEmailRequest) (content : Content)
    (r : String) (p : EmailProvider) (attempt : Attempt) : List Effect :=
  let copy : Copy := ⟨p.id, req.from_, req.to_, req.cc, r, content.subject, content.text,
    content.html⟩
  let record (type : EventType) (text : String) :=
    recordEvent P tenantID p.id messageID type r content.subject text
  match attempt with
  | .noSender _ => []
  | .accepted sent delivered =>
    .send copy none :: (record .sent "" sent ++ record .delivered "" delivered)
  | .refused err deferred => .send copy (some err) :: record .deferred err deferred

/-- The providers in turn, from position `i` on; `err` is the last one's error. -/
def tryProviders (tenantID messageID : String) (req : SendEmailRequest) (content : Content)
    (input : SendInput) (r : String) (i : Nat) (err : Option String) : List EmailProvider → Outcome
  | [] => ⟨[], false, err⟩
  | p :: rest =>
    let effects := attemptEffects P tenantID messageID req content r p (input.attempt r i)
    if p.receiver then tryProviders tenantID messageID req content input r (i + 1) err rest
    else
      match input.attempt r i with
      | .noSender e => tryProviders tenantID messageID req content input r (i + 1) (some e) rest
      | .accepted _ _ => ⟨effects, true, err⟩
      | .refused e _ =>
        let later := tryProviders tenantID messageID req content input r (i + 1) (some e) rest
        ⟨effects ++ later.effects, later.sent, later.err⟩

def Outcome.failure (d : Outcome) (r : String) : Option RecipientFailure :=
  if d.sent then none else d.err.map fun err => ⟨r, err, classifyError P.unicode err⟩

def deliverTo (tenantID messageID : String) (req : SendEmailRequest) (prep : Prepared)
    (input : SendInput) (r : String) : Outcome :=
  if deliveredIn prep.history r then ⟨[], false, none⟩
  else if prep.dropped.contains r || settledIn prep.history r then ⟨[], false, none⟩
  else
    match input.ctxErr r with
    -- shutdown or a lost claim: unattempted, and failed for this pass
    | some err => ⟨[], false, some err⟩
    | none => tryProviders P tenantID messageID req prep.content input r 0 none prep.providers

structure SendLoop where
  effects : List Effect
  failures : List RecipientFailure
  delivered : Nat

def sendLoop (each : String → Outcome) (acc : SendLoop) : List String → SendLoop
  | [] => acc
  | r :: rest =>
    let d := each r
    sendLoop each ⟨acc.effects ++ d.effects, acc.failures ++ (d.failure P r).toList,
      if d.sent then acc.delivered + 1 else acc.delivered⟩ rest

def doSend (tenantID messageID : String) (req : SendEmailRequest) (input : SendInput) :
    List Effect × Except SendError SendEmailResponse :=
  match prepareSend P tenantID messageID req input with
  | .error err => ([], .error err)
  | .ok prep =>
    match paceDelivery tenantID (firstSender prep.providers) prep.pending input.pace with
    | some wait => (prep.drops, .error (.paced wait))
    | none =>
      let loop := sendLoop P (deliverTo P tenantID messageID req prep input) ⟨prep.drops, [], 0⟩
        prep.recipients
      (loop.effects, if loop.failures = [] then .ok ⟨messageID, .delivered⟩
        else .error (.recipients loop.failures loop.delivered))

/-- The checks `SendEmail` makes in either mode: the first refusal. -/
def sendChecks (tenantID : String) (req : SendEmailRequest) (input : SendInput) : Option String :=
  match Idempotency.validateSend tenantID req.toSendRequest with
  | some err => some err
  | none =>
    match P.parseEmailAddress req.from_ with
    | .error err => some ("invalid from address \"" ++ req.from_ ++ "\": " ++ err)
    | .ok _ =>
      match resolveRecipients P [] req.audience with
      | .error err => some err
      | .ok _ => input.refusal

/-- `SendEmail` in worker mode. -/
def sendEmail (tenantID messageID : String) (req : SendEmailRequest) (input : SendInput) :
    List Effect × Except SendError SendEmailResponse :=
  match sendChecks P tenantID req input with
  | some err => ([], .error (.failed err))
  | none => doSend P tenantID messageID req input

/-! ### What a pass does -/

theorem sendLoop_eq (each : String → Outcome) (recipients : List String) (acc : SendLoop) :
    sendLoop P each acc recipients = ⟨acc.effects ++ recipients.flatMap fun r => (each r).effects,
        acc.failures ++ recipients.filterMap fun r => (each r).failure P r,
        acc.delivered + recipients.countP fun r => (each r).sent⟩ := by
  induction recipients generalizing acc with
  | nil => simp [sendLoop]
  | cons r _ ih =>
    rw [sendLoop, ih]
    cases failed : (each r).failure P r with
    | none =>
      cases sent : (each r).sent with
      | true =>
        simp only [failed, sent, if_true, flatMap_cons, filterMap_cons, countP_cons,
          append_assoc, Option.toList_none, append_nil, SendLoop.mk.injEq, true_and]
        omega
      | false => simp [failed, sent]
    | some =>
      cases sent : (each r).sent with
      | true => simp [Outcome.failure, sent] at failed
      | false => simp [failed, sent]

/-- The errors that are about the message and not about its turn or its recipients. -/
def SendError.messageLevel : SendError → Bool
  | .paced _ | .recipients _ _ => false
  | _ => true

/-- What preparing a send found. -/
structure Prepared.Found (tenantID messageID : String) (req : SendEmailRequest)
    (input : SendInput) (prep : Prepared) : Prop where
  content : renderTemplate req input.template input.render = .ok prep.content
  history : input.history = .ok prep.history
  recipients : prep.recipients = uniqueRecipients P req.audience
  dropped : dropSuppressedAtDelivery P tenantID messageID prep.content.subject prep.recipients
    (finishedIn prep.history) input = .ok (prep.dropped, prep.drops)
  providers : ∃ fromAddress, senderAddress P req.from_ = .ok fromAddress ∧
    resolveProviders P tenantID fromAddress req input = .ok prep.providers

variable {input : SendInput}

theorem resolveProviders_error {fromAddress : String}
    (refused : resolveProviders P tenantID fromAddress req input = .error err) :
    err.messageLevel = true := by
  simp only [resolveProviders] at refused
  split at refused
  · split at refused
    · cases refused
    cases refused
    rfl
  · split at refused
    · cases refused
      rfl
    · split at refused
      · cases refused
        rfl
      · cases refused

theorem renderTemplate_error {template : Except String (Option Template)} {render : Renderer}
    (refused : renderTemplate req template render = .error err) : err.messageLevel = true := by
  simp only [renderTemplate] at refused
  split at refused
  · cases refused
  split at refused
  · cases refused
    rfl
  · cases refused
    rfl
  · simp only [renderParts] at refused
    split at refused <;> cases refused <;> rfl

theorem dropSuppressed_error {subject : String} {recipients : List String}
    {finished : String → Bool}
    (refused : dropSuppressedAtDelivery P tenantID messageID subject recipients finished input =
      .error err) : err.messageLevel = true := by
  simp only [dropSuppressedAtDelivery] at refused
  split at refused
  · cases refused
  split at refused
  · cases refused
    rfl
  · cases refused

theorem prepareSend_cases (tenantID messageID : String) (req : SendEmailRequest)
    (input : SendInput) :
    (∃ err, prepareSend P tenantID messageID req input = .error err ∧ err.messageLevel = true) ∨
      ∃ prep, prepareSend P tenantID messageID req input = .ok prep ∧
        prep.Found P tenantID messageID req input := by
  cases sender : senderAddress P req.from_ with
  | error err => exact .inl ⟨.failed err, by simp only [prepareSend, sender], rfl⟩
  | ok fromAddress =>
    cases providers : resolveProviders P tenantID fromAddress req input with
    | error err =>
      exact .inl ⟨err, by simp only [prepareSend, sender, providers], resolveProviders_error P providers⟩
    | ok found =>
      cases content : renderTemplate req input.template input.render with
      | error err =>
        exact .inl ⟨err, by simp only [prepareSend, sender, providers, content],
          renderTemplate_error content⟩
      | ok rendered =>
        cases history : input.history with
        | error err =>
          exact .inl ⟨.failed ("failed to read delivery history: " ++ err),
            by simp only [prepareSend, sender, providers, content, history], rfl⟩
        | ok events =>
          cases drops : dropSuppressedAtDelivery P tenantID messageID rendered.subject
              (uniqueRecipients P req.audience) (finishedIn events) input with
          | error err =>
            exact .inl ⟨err, by simp only [prepareSend, sender, providers, content, history, drops],
              dropSuppressed_error P drops⟩
          | ok dropped =>
            exact .inr ⟨⟨found, rendered, events, uniqueRecipients P req.audience, dropped.1,
              dropped.2⟩, by simp only [prepareSend, sender, providers, content, history, drops],
              content, history, rfl, drops, fromAddress, sender, providers⟩

theorem Prepared.Found.prepared {prep : Prepared}
    (found : prep.Found P tenantID messageID req input) :
    prepareSend P tenantID messageID req input = .ok prep := by
  obtain ⟨content, history, recipients, dropped, fromAddress, sender, providers⟩ := found
  simp only [prepareSend, sender, providers, content, history, ← recipients, dropped]

section
variable (tenantID messageID : String) (req : SendEmailRequest) (input : SendInput)

def passFailures (prep : Prepared) : List RecipientFailure :=
  prep.recipients.filterMap fun r => (deliverTo P tenantID messageID req prep input r).failure P r

def passDelivered (prep : Prepared) : Nat :=
  prep.recipients.countP fun r => (deliverTo P tenantID messageID req prep input r).sent

/-- How a pass ends: refused as a message, told to come back for its turn, or run through
its recipients. -/
inductive SendCase : List Effect × Except SendError SendEmailResponse → Prop where
  | refused (err : SendError) (level : err.messageLevel = true) : SendCase ([], .error err)
  | paced (prep : Prepared) (wait : Nat) (found : prep.Found P tenantID messageID req input)
      (turn : paceDelivery tenantID (firstSender prep.providers) prep.pending input.pace =
        some wait) : SendCase (prep.drops, .error (.paced wait))
  | looped (prep : Prepared) (checks : sendChecks P tenantID req input = none)
      (found : prep.Found P tenantID messageID req input)
      (turn : paceDelivery tenantID (firstSender prep.providers) prep.pending input.pace = none) :
      SendCase (prep.drops ++ prep.recipients.flatMap fun r =>
          (deliverTo P tenantID messageID req prep input r).effects,
        if passFailures P tenantID messageID req input prep = [] then
          .ok ⟨messageID, .delivered⟩
        else .error (.recipients (passFailures P tenantID messageID req input prep)
          (passDelivered P tenantID messageID req input prep)))

theorem sendEmail_case :
    SendCase P tenantID messageID req input (sendEmail P tenantID messageID req input) := by
  rw [sendEmail]
  cases checks : sendChecks P tenantID req input with
  | some err => exact .refused (.failed err) rfl
  | none =>
    simp only [doSend]
    rcases prepareSend_cases P tenantID messageID req input with ⟨err, failed, level⟩ | ⟨prep, ok, found⟩
    · rw [failed]
      exact .refused err level
    · rw [ok]
      cases turn : paceDelivery tenantID (firstSender prep.providers) prep.pending input.pace with
      | some wait =>
        simp only [turn]
        exact .paced prep wait found turn
      | none =>
        simp only [turn, sendLoop_eq, nil_append, Nat.zero_add]
        exact .looped prep checks found turn

end
end Panmail.Delivery
