import Panmail.Delivery.Settle
import Panmail.Outbox.RowChange

/-!
# Passes over one message

A message from its admission to its end, one delivery pass after another, each with any
answers from the providers, the stores and the clock. The state is the outbox row and
the events known to be recorded: those the passes recorded, and those they read that
others did. A step is a whole pass.
-/
namespace Panmail.Delivery

open Text Runs Outbox List

variable (P : Platform)

/-! ### What settling adds to a pass -/

def SettleEffect (e : OutboxEmail) (req : SendEmailRequest) (s : SettleInput) (r : String)
    (x : Effect) : Prop :=
  (∃ type text, type ≠ .delivered ∧ x ∈ recordEvent P e.tenantID req.providerID e.id type r
    req.subject text (s.record r)) ∨
  ∃ reason, x ∈ addSuppression P e.tenantID r reason (s.creates r)

variable {x : Effect} {copy : Copy}

section
variable {P} {e : OutboxEmail} {req : SendEmailRequest} {s : SettleInput} {input : SendInput}
  {r : String} {type : EventType} {f : RecipientFailure}

theorem mem_suppressUnsubscribed {err : String} (mem : x ∈ suppressUnsubscribed P e s type r err) :
    SettleEffect P e req s r x := by
  rw [suppressUnsubscribed] at mem
  split at mem
  · exact .inr ⟨_, mem⟩
  · cases mem

theorem mem_recordRecipientFailure (other : f.verdict.type ≠ .delivered)
    (mem : x ∈ recordRecipientFailure P e req s f) : SettleEffect P e req s f.recipient x :=
  .inl ⟨f.verdict.type, f.err, other, mem⟩

variable {failures : List RecipientFailure} {delivered : Nat} {err : SendError}

theorem mem_handleRecipientFailures (other : ∀ f ∈ failures, f.verdict.type ≠ .delivered)
    (mem : x ∈ (handleRecipientFailures P e req s failures delivered).1) :
    ∃ f ∈ failures, SettleEffect P e req s f.recipient x := by
  have permanent (settled : x ∈ (failuresBy false failures).flatMap (settlePermanent P e req s)) :
      ∃ f ∈ failures, SettleEffect P e req s f.recipient x := by
    obtain ⟨f, listed, effect⟩ := mem_flatMap.mp settled
    have present : f ∈ failures := (mem_filter.mp listed).1
    refine ⟨f, present, ?_⟩
    rcases mem_append.mp effect with recorded | suppressed
    · exact mem_recordRecipientFailure (other f present) recorded
    · exact mem_suppressUnsubscribed suppressed
  simp only [handleRecipientFailures] at mem
  split at mem
  · split at mem <;> exact permanent mem
  next f rest retry =>
    split at mem
    · exact permanent mem
    · rcases mem_append.mp mem with settled | final
      · exact permanent settled
      · obtain ⟨g, listed, effect⟩ := mem_flatMap.mp final
        rw [← retry] at listed
        have present : g ∈ failures := (mem_filter.mp listed).1
        exact ⟨g, present, mem_recordRecipientFailure (other g present) effect⟩
    · exact permanent mem

theorem messageVerdict_not_delivered (err : SendError) :
    (messageVerdict P err).type ≠ .delivered := by
  rw [messageVerdict]
  split
  · exact EventType.noConfusion
  · exact classifyError_not_delivered _ _

theorem mem_recordForEach (other : type ≠ .delivered) {text : String} {recipients : List String}
    (mem : x ∈ recordForEach P e req s type text recipients) :
    ∃ r ∈ recipients, SettleEffect P e req s r x := by
  obtain ⟨r, listed, recorded⟩ := mem_flatMap.mp mem
  exact ⟨r, listed, .inl ⟨type, text, other, recorded⟩⟩

theorem mem_handleMessageFailure (mem : x ∈ (handleMessageFailure P e req s err).1) :
    ∃ r ∈ unfinishedRecipients P req s, SettleEffect P e req s r x := by
  simp only [handleMessageFailure] at mem
  split at mem
  · exact mem_recordForEach EventType.noConfusion mem
  · rcases mem_append.mp mem with recorded | suppressed
    · exact mem_recordForEach (messageVerdict_not_delivered err) recorded
    · obtain ⟨r, listed, effect⟩ := mem_flatMap.mp suppressed
      exact ⟨r, listed, mem_suppressUnsubscribed effect⟩
  · cases mem

theorem mem_handleFailure (other : ∀ failures delivered, err = .recipients failures delivered →
      ∀ f ∈ failures, f.verdict.type ≠ .delivered) (mem : x ∈ (handleFailure P e req s err).1) :
    ∃ r, SettleEffect P e req s r x := by
  have whole (same : handleFailure P e req s err = handleMessageFailure P e req s err) :
      ∃ r, SettleEffect P e req s r x := by
    rw [same] at mem
    obtain ⟨r, _, effect⟩ := mem_handleMessageFailure mem
    exact ⟨r, effect⟩
  cases err with
  | paced => cases mem
  | recipients failures delivered =>
    obtain ⟨f, _, effect⟩ := mem_handleRecipientFailures (other failures delivered rfl) mem
    exact ⟨f.recipient, effect⟩
  | senderRefused | templateRefused | failed => exact whole rfl

theorem settled_in_handled (permanent : f ∈ failuresBy false failures)
    (effect : x ∈ settlePermanent P e req s f) :
    x ∈ (handleFailure P e req s (.recipients failures delivered)).1 := by
  have settled : x ∈ (failuresBy false failures).flatMap (settlePermanent P e req s) :=
    mem_flatMap.mpr ⟨f, permanent, effect⟩
  simp only [handleFailure, handleRecipientFailures]
  split
  · split
    · exact settled
    · exact settled
  · split
    · exact settled
    · exact mem_append_left _ settled
    · exact settled

theorem settleEffect_no_send {answer : Option String} :
    ¬SettleEffect P e req s r (.send copy answer) := by
  rintro (⟨type, text, _, recorded⟩ | ⟨reason, suppressed⟩)
  · exact recordEvent_no_send P recorded
  · obtain ⟨_, ⟨⟩⟩ := mem_addSuppression P suppressed

/-! ### The failures of a pass -/

/-- A provider, or the context, gave `r` this error in the pass. -/
def Answered (input : SendInput) (r err : String) : Prop :=
  input.ctxErr r = some err ∨
    ∃ i, input.attempt r i = .noSender err ∨ ∃ deferred, input.attempt r i = .refused err deferred

section
variable {tenantID messageID : String}

theorem tryProviders_err {content : Content} (providers : List EmailProvider) (i : Nat)
    (last : Option String) {err : String}
    (ends : (tryProviders P tenantID messageID req content input r i last providers).err = some err) :
    last = some err ∨ Answered input r err := by
  induction providers generalizing i last with
  | nil => exact .inl ends
  | cons _ _ ih =>
    simp only [tryProviders] at ends
    split at ends
    · exact ih _ _ ends
    · cases answer : input.attempt r i with
      | noSender =>
        rw [answer] at ends
        rcases ih _ _ ends with here | later
        · cases here
          exact .inr (.inr ⟨i, .inl answer⟩)
        · exact .inr later
      | accepted =>
        rw [answer] at ends
        exact .inl ends
      | refused _ deferred =>
        rw [answer] at ends
        rcases ih _ _ ends with here | later
        · cases here
          exact .inr (.inr ⟨i, .inr ⟨deferred, answer⟩⟩)
        · exact .inr later

/-- A failure is a recipient's own: classified on its own error, which is one the pass was
given for that recipient. -/
theorem mem_passFailures {prep : Prepared}
    (mem : f ∈ passFailures P tenantID messageID req input prep) :
    f.recipient ∈ prep.recipients ∧ f.verdict = classifyError P.unicode f.err ∧
      Answered input f.recipient f.err := by
  obtain ⟨r, listed, failure⟩ := mem_filterMap.mp mem
  rw [Outcome.failure] at failure
  split at failure
  · cases failure
  obtain ⟨err, ends, rfl⟩ := Option.map_eq_some_iff.mp failure
  refine ⟨listed, rfl, ?_⟩
  rcases turn_cases prep input r with skipped | ⟨cause, unfinished, kept, cancelled⟩ | reached
  · rw [deliverTo_skipped P skipped] at ends
    cases ends
  · rw [deliverTo_cancelled P unfinished kept cancelled] at ends
    cases ends
    exact .inl cancelled
  · rw [deliverTo_reached P reached] at ends
    rcases tryProviders_err prep.providers 0 none ends with none | answered
    · cases none
    · exact answered

theorem sendEmail_failures
    (ended : (sendEmail P tenantID messageID req input).2 = .error (.recipients failures delivered)) :
    ∃ prep : Prepared, prep.Found P tenantID messageID req input ∧
      failures = passFailures P tenantID messageID req input prep ∧
      delivered = passDelivered P tenantID messageID req input prep ∧
      (sendEmail P tenantID messageID req input).1 = prep.drops ++ prep.recipients.flatMap fun r =>
        (deliverTo P tenantID messageID req prep input r).effects := by
  have ends := sendEmail_case P tenantID messageID req input
  generalize sendEmail P tenantID messageID req input = sent at ended ends ⊢
  cases ends with
  | refused _ level =>
    cases ended
    cases level
  | paced => cases ended
  | looped prep _ found =>
    split at ended
    · cases ended
    cases ended
    exact ⟨prep, found, rfl, rfl, rfl⟩

theorem sendEmail_verdicts (ended : (sendEmail P tenantID messageID req input).2 = .error err) :
    ∀ failures delivered, err = .recipients failures delivered →
      ∀ f ∈ failures, f.verdict.type ≠ .delivered := by
  rintro failures delivered rfl f listed
  obtain ⟨prep, _, rfl, _, _⟩ := sendEmail_failures ended
  rw [(mem_passFailures listed).2.1]
  exact classifyError_not_delivered _ _

end

end

/-! ### A run of passes -/

structure PassInput where
  send : SendInput
  settle : SettleInput
  written : Bool

/-- A message as admission queues it: a request that can be read back, under an id of ours,
not attempted yet. -/
structure QueuedMessage where
  row : OutboxRow
  req : SendEmailRequest
  reads : P.unmarshalRequest row.request = some req
  issued : P.isUUID row.id = true
  pending : row.status = .pending
  fresh : row.retryCount = 0

def QueuedMessage.recipients (m : QueuedMessage P) : List String :=
  uniqueRecipients P m.req.audience

structure MessageState where
  row : Option OutboxRow
  /-- The events known to be recorded. -/
  events : List EmailEvent
  /-- History: the passes that settled the row and were not merely paced. -/
  passes : Nat

def QueuedMessage.start (m : QueuedMessage P) : MessageState := ⟨some m.row, [], 0⟩

def eventsOf (effects : List Effect) : List EmailEvent :=
  effects.filterMap fun x => match x with
    | .event e => some e
    | _ => none

def PassInput.seen (p : PassInput) : List EmailEvent :=
  p.send.history.toOption.getD [] ++ p.settle.finished.toOption.getD []

def Settlement.row (r : OutboxRow) : Settlement → Option OutboxRow
  | .write w => w.row r
  | _ => some r

def pacedPass (r : OutboxRow) (p : PassInput) : Bool :=
  (P.unmarshalRequest r.request).any fun req =>
    match (sendEmail P r.tenantID r.id req p.send).2 with
    | .error (.paced _) => true
    | _ => false

def passStep (s : MessageState) (p : PassInput) : Option MessageState :=
  match s.row with
  | none => none
  | some r =>
    if r.status = .failed ∨ r.status = .held then none
    else
      let done := processEmail P r.toOutboxEmail p.send p.settle
      some ⟨if p.written then done.2.row r else some r, s.events ++ p.seen ++ eventsOf done.1,
        if p.written && !p.settle.lost && !pacedPass P r p then s.passes + 1 else s.passes⟩

theorem passStep_cases {s t : MessageState} {p : PassInput} (h : passStep P s p = some t) :
    ∃ r, s.row = some r ∧ r.status ≠ .failed ∧ r.status ≠ .held ∧
      t = ⟨if p.written then (processEmail P r.toOutboxEmail p.send p.settle).2.row r else some r,
        s.events ++ p.seen ++ eventsOf (processEmail P r.toOutboxEmail p.send p.settle).1,
        if p.written && !p.settle.lost && !pacedPass P r p then s.passes + 1 else s.passes⟩ := by
  rw [passStep] at h
  cases row : s.row with
  | none =>
    rw [row] at h
    cases h
  | some r =>
    simp only [row] at h
    split at h
    · cases h
    next live =>
      obtain ⟨unfailed, unheld⟩ := not_or.mp live
      exact ⟨r, rfl, unfailed, unheld, (Option.some.inj h).symm⟩

def QueuedMessage.Owns {P : Platform} (m : QueuedMessage P) (r : OutboxRow) : Prop :=
  r.id = m.row.id ∧ r.tenantID = m.row.tenantID ∧ r.request = m.row.request

theorem Settlement.row_same {r t : OutboxRow} {settlement : Settlement}
    (left : settlement.row r = some t) :
    t.id = r.id ∧ t.tenantID = r.tenantID ∧ t.request = r.request := by
  cases settlement with
  | untouched | panicked =>
    cases left
    exact ⟨rfl, rfl, rfl⟩
  | write w =>
    cases w with
    | update =>
      cases left
      exact ⟨rfl, rfl, rfl⟩
    | delete => cases left

section
variable {P} {m : QueuedMessage P} {r : OutboxRow} {p : PassInput} {s t : MessageState}

theorem QueuedMessage.Owns.reads (owned : m.Owns r) :
    P.unmarshalRequest r.request = some m.req := owned.2.2 ▸ m.reads

theorem QueuedMessage.Owns.issued (owned : m.Owns r) : P.isUUID r.id = true :=
  owned.1 ▸ m.issued

theorem owns_step (h : passStep P s p = some t) (owned : ∀ r, s.row = some r → m.Owns r) :
    ∀ r, t.row = some r → m.Owns r := by
  obtain ⟨r, row, _, _, rfl⟩ := passStep_cases P h
  intro r' after
  have before := owned r row
  split at after
  · obtain ⟨id, tenant, request⟩ := Settlement.row_same after
    exact ⟨id.trans before.1, tenant.trans before.2.1, request.trans before.2.2⟩
  · cases after
    exact before

theorem owns_start : ∀ r, m.start.row = some r → m.Owns r := by
  intro r row
  cases row
  exact ⟨rfl, rfl, rfl⟩

theorem owns_run {ps : List PassInput} (run : exec (passStep P) m.start ps = some s) :
    ∀ r, s.row = some r → m.Owns r :=
  invariant (passStep P) (fun s => ∀ r, s.row = some r → m.Owns r)
    (fun _ _ _ owned h => owns_step h owned) m.start s ps owns_start run

theorem mem_eventsOf {effects : List Effect} {e : EmailEvent} :
    e ∈ eventsOf effects ↔ Effect.event e ∈ effects := by
  rw [eventsOf, mem_filterMap]
  constructor
  · rintro ⟨x, mem, same⟩
    cases x with
    | event =>
      cases same
      exact mem
    | send | suppressed => cases same
  · intro mem
    exact ⟨.event e, mem, rfl⟩

theorem events_step (h : passStep P s p = some t) : ∀ e ∈ s.events, e ∈ t.events := by
  obtain ⟨r, _, _, _, rfl⟩ := passStep_cases P h
  intro e mem
  exact mem_append_left _ (mem_append_left _ mem)

section
variable {e : OutboxEmail} {req : SendEmailRequest}
  (reads : P.unmarshalRequest e.request = some req) {input : SendInput} {s : SettleInput}
include reads

theorem processEmail_eq (input : SendInput) (s : SettleInput) : processEmail P e input s =
      if s.lost then ((sendEmail P e.tenantID e.id req input).1, .untouched) else
        match (sendEmail P e.tenantID e.id req input).2 with
        | .ok _ => ((sendEmail P e.tenantID e.id req input).1, .write .delete)
        | .error err => ((sendEmail P e.tenantID e.id req input).1 ++
            (handleFailure P e req s err).1, (handleFailure P e req s err).2) := by
  unfold processEmail
  generalize P.unmarshalRequest e.request = stored at reads
  subst reads
  rfl

theorem mem_processEmail :
    x ∈ (processEmail P e input s).1 ↔ x ∈ (sendEmail P e.tenantID e.id req input).1 ∨
      s.lost = false ∧ ∃ err, (sendEmail P e.tenantID e.id req input).2 = .error err ∧
        x ∈ (handleFailure P e req s err).1 := by
  rw [processEmail_eq reads]
  cases lost : s.lost with
  | true => simp
  | false =>
    cases result : (sendEmail P e.tenantID e.id req input).2 with
    | ok | error => simp

theorem send_of_pass {err : Option String}
    (handed : Effect.send copy err ∈ (processEmail P e input s).1) :
    Effect.send copy err ∈ (sendEmail P e.tenantID e.id req input).1 := by
  rcases (mem_processEmail reads).mp handed with sent | ⟨_, cause, ended, settled⟩
  · exact sent
  · obtain ⟨who, effect⟩ := mem_handleFailure (sendEmail_verdicts ended) settled
    exact absurd effect settleEffect_no_send

end

end

/-! ### A small instance

One SMTP provider, no limiter, a store that takes every event; what the providers answer
is left open. -/

namespace Sample

def platform (parse : String → String) (req : SendEmailRequest) : Platform where
  unicode := .ascii
  parseEmailAddress a := .ok (parse a)
  normalizeAddress a := CaseMapping.ascii.normal (parse a)
  normalizes _ _ := rfl
  isUUID _ := true
  parseDuration _ := none
  unmarshalRequest _ := some req

def mailbox (a : String) : String :=
  if CaseMapping.ascii.normal a = "bob <bob@x>" then "bob@x" else a

def request (to_ : List String) : SendEmailRequest :=
  ⟨⟨"s@x", "p", to_, ""⟩, [], [], "hi", "", "", "text", "", false⟩

def provider : EmailProvider := ⟨"p", "smtp", .smtp, [], 0, 0⟩

def queue : Enqueue := .direct

def record : RecordAnswer := ⟨none, none, "smtp", "e", 0, queue, true, true⟩

def attempt : Option String → Attempt
  | none => .accepted record record
  | some err => .refused err record

def send (history : List EmailEvent) (answer : String → Option String) : SendInput :=
  ⟨none, .ok [provider], none, .ok [], .ok none, fun _ _ => .ok "", .ok history, none,
    fun _ => record, ⟨none, none, true⟩, fun _ => none, fun r _ => attempt (answer r)⟩

def settle (history : List EmailEvent) (lost : Bool) (pattern : List String) : SettleInput :=
  ⟨lost, 0, 0, .ok history, pattern, fun _ => record, fun _ => true⟩

def pass (history : List EmailEvent) (answer : String → Option String) (lost : Bool)
    (pattern : List String) : PassInput :=
  ⟨send history answer, settle history lost pattern, true⟩

def row : OutboxRow := ⟨⟨"m", "t", "", .pending, 0, 0, "", 0, 0⟩, none, none⟩

def message (parse : String → String) (to_ : List String) :
    QueuedMessage (platform parse (request to_)) :=
  ⟨row, request to_, rfl, rfl, rfl, rfl⟩

end Sample
end Panmail.Delivery
