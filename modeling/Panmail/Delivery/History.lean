import Panmail.Delivery.Passes

/-!
# A recipient that is finished stays finished

Every pass reads the message's history before it sends, and skips whom an earlier pass delivered to
or settled. A delivery and a drop are recorded by the send itself, a permanent failure by the worker
that settles the pass, and a worker whose claim was lost does not settle.
-/
namespace Panmail.Delivery

open Text Runs Outbox List

variable (P : Platform)

/-- The store takes every event a pass records. -/
structure PassInput.Recorded (p : PassInput) : Prop where
  dropped : ∀ r, enqueue (p.send.dropRecord r).queue = .ok ()
  accepted : ∀ r i sent delivered, p.send.attempt r i = .accepted sent delivered →
    enqueue sent.queue = .ok () ∧ enqueue delivered.queue = .ok ()
  refused : ∀ r i err deferred, p.send.attempt r i = .refused err deferred →
    enqueue deferred.queue = .ok ()
  verdict : ∀ r, enqueue (p.settle.record r).queue = .ok ()

/-- A history read that succeeds returns every event recorded before the pass. -/
structure Complete (s : MessageState) (p : PassInput) : Prop where
  send : ∀ h, p.send.history = .ok h → ∀ e ∈ s.events, e ∈ h
  settle : ∀ h, p.settle.finished = .ok h → ∀ e ∈ s.events, e ∈ h

/-- A pass whose claim was lost was given no permanent error for any recipient. -/
def LostNoVerdict (p : PassInput) : Prop :=
  p.settle.lost = true → ∀ r err, Answered p.send r err → err ≠ "" →
    (classifyError P.unicode err).retryable = true

/-- A pass is done with `r` for good: its copy was taken, its failure is permanent, it was dropped
as suppressed, or the message was refused for good. -/
inductive Finished (e : OutboxEmail) (req : SendEmailRequest) (p : PassInput) (r : String) :
    Prop where
  | delivered (copy : Copy) (to_ : copy.recipient = r)
      (taken : Effect.send copy none ∈ (sendEmail P e.tenantID e.id req p.send).1)
  | failed (failures : List RecipientFailure) (delivered : Nat) (f : RecipientFailure)
      (ended : (sendEmail P e.tenantID e.id req p.send).2 = .error (.recipients failures delivered))
      (listed : f ∈ failures) (named : f.recipient = r) (said : f.err ≠ "")
      (permanent : f.verdict.retryable = false)
  | dropped (prep : Prepared) (checks : sendChecks P e.tenantID req p.send = none)
      (prepared : prepareSend P e.tenantID e.id req p.send = .ok prep) (listed : r ∈ prep.dropped)
  | refused (err : SendError) (level : err.messageLevel = true)
      (ended : (sendEmail P e.tenantID e.id req p.send).2 = .error err)
      (settles : p.settle.lost = false) (listed : r ∈ uniqueRecipients P req.audience)
      (said : err.text ≠ "") (permanent : (messageVerdict P err).retryable = false)

section
variable {P} {e : OutboxEmail} {req : SendEmailRequest} {p : PassInput} {r : String}
  {err : SendError} {s t : MessageState}

/-! ### Each way of finishing leaves an event -/

theorem acceptance_attempt {input : SendInput} (providers : List EmailProvider) (i : Nat)
    {delivered : RecordAnswer} (taken : acceptance input r i providers = some delivered) :
    ∃ j sent, input.attempt r j = .accepted sent delivered := by
  induction providers generalizing i with
  | nil => cases taken
  | cons _ _ ih =>
    simp only [acceptance] at taken
    split at taken
    · exact ih _ taken
    · cases answer : input.attempt r i with
      | noSender =>
        rw [answer] at taken
        exact ih _ taken
      | accepted sent =>
        rw [answer] at taken
        cases taken
        exact ⟨i, sent, answer⟩
      | refused =>
        rw [answer] at taken
        exact ih _ taken

theorem finishes_recorded (providerID subject err : String) {type : EventType} {a : RecordAnswer}
    (issued : P.isUUID e.id = true) (mem : r ∈ uniqueRecipients P req.audience)
    (taken : enqueue a.queue = .ok ()) (settled : settledEvents type = true) :
    ∃ event, Effect.event event ∈
      recordEvent P e.tenantID providerID e.id type r subject err a ∧ Finishes event r := by
  have normal := normal_recipient P mem
  have named : P.unicode.normal r ≠ "" := by
    rw [normal]
    exact ((mem_uniqueRecipients P).mp mem).1
  have recorded : ∃ event, Effect.event event ∈
      recordEvent P e.tenantID providerID e.id type r subject err a ∧
      event.tenantID = e.tenantID ∧ event.messageID = e.id ∧
      event.recipient = P.unicode.normal r ∧ event.type = recordedType P type err :=
    recordEvent_written P issued named taken
  obtain ⟨event, written, _, _, recipient, recordedAs⟩ := recorded
  rw [recordedType_of_settled P settled] at recordedAs
  exact ⟨event, written, recipient.trans normal, .inr (recordedAs ▸ settled)⟩

section
variable (issued : P.isUUID e.id = true) (recorded : p.Recorded)
include issued recorded

theorem finished_delivered {copy : Copy}
    (taken : Effect.send copy none ∈ (sendEmail P e.tenantID e.id req p.send).1) :
    ∃ event, Effect.event event ∈ (sendEmail P e.tenantID e.id req p.send).1 ∧
      Finishes event copy.recipient := by
  obtain ⟨prep, found, listed, reached, _, accepts, within⟩ := mem_sendEmail_send P taken
  obtain ⟨delivered, acceptedBy⟩ := accepts rfl
  obtain ⟨j, sent, answer⟩ := acceptance_attempt prep.providers 0 acceptedBy
  rw [found.recipients] at listed
  obtain ⟨event, written, type, recipient⟩ := deliverTo_records P issued
    (normal_recipient P listed) ((mem_uniqueRecipients P).mp listed).1 reached acceptedBy
    (recorded.accepted _ j sent delivered answer).2
  exact ⟨event, within _ written, recipient, .inl type⟩

theorem finished_dropped {prep : Prepared} (checks : sendChecks P e.tenantID req p.send = none)
    (prepared : prepareSend P e.tenantID e.id req p.send = .ok prep) (listed : r ∈ prep.dropped) :
    ∃ event, Effect.event event ∈ (sendEmail P e.tenantID e.id req p.send).1 ∧
      Finishes event r := by
  rcases prepareSend_cases P e.tenantID e.id req p.send with ⟨err, failed, _⟩ | ⟨_, ok, found⟩
  · cases failed.symm.trans prepared
  cases ok.symm.trans prepared
  obtain ⟨reason, within⟩ := (drops_spec P found.dropped).2 r listed
  have mem := ((mem_dropped P found.dropped).mp listed).1
  rw [found.recipients] at mem
  obtain ⟨event, written, finishes⟩ := finishes_recorded "" prep.content.subject reason issued
    mem (recorded.dropped r) (show settledEvents .dropped = true from rfl)
  refine ⟨event, ?_, finishes⟩
  -- the drops are recorded before the pass takes its turn, whether it gets one or not
  have drop := within _ written
  rw [sendEmail, checks]
  simp only [doSend, prepared]
  split
  · exact drop
  · simp only [sendLoop_eq]
    exact mem_append_left _ drop

theorem finished_failed {failures : List RecipientFailure} {delivered : Nat} {f : RecipientFailure}
    (ended : (sendEmail P e.tenantID e.id req p.send).2 = .error (.recipients failures delivered))
    (listed : f ∈ failures) (said : f.err ≠ "") (permanent : f.verdict.retryable = false) :
    Answered p.send f.recipient f.err ∧ f.verdict = classifyError P.unicode f.err ∧
      ∃ event, Effect.event event ∈
        (handleFailure P e req p.settle (.recipients failures delivered)).1 ∧
        Finishes event f.recipient := by
  obtain ⟨prep, found, rfl, _, _⟩ := sendEmail_failures ended
  obtain ⟨mem, verdict, answered⟩ := mem_passFailures listed
  rw [found.recipients] at mem
  have settles : settledEvents f.verdict.type = true := by
    rw [verdict] at permanent ⊢
    exact settled_of_permanent said permanent
  obtain ⟨event, written, finishes⟩ := finishes_recorded req.providerID req.subject f.err issued
    mem (recorded.verdict f.recipient) settles
  refine ⟨answered, verdict, event, ?_, finishes⟩
  exact settled_in_handled (mem_filter.mpr ⟨listed, decide_eq_true permanent⟩)
    (mem_append_left _ written)

end

theorem handleFailure_message {s : SettleInput} (level : err.messageLevel = true) :
    handleFailure P e req s err = handleMessageFailure P e req s err := by
  cases err with
  | paced | recipients => cases level
  | senderRefused => rfl
  | templateRefused => rfl
  | failed => rfl

theorem settled_messageVerdict (said : err.text ≠ "")
    (permanent : (messageVerdict P err).retryable = false) :
    settledEvents (messageVerdict P err).type = true := by
  rw [messageVerdict] at permanent ⊢
  split
  · rfl
  next other =>
    rw [if_neg other] at permanent
    exact settled_of_permanent said permanent

theorem finished_refused (issued : P.isUUID e.id = true) (recorded : p.Recorded)
    (level : err.messageLevel = true) (listed : r ∈ uniqueRecipients P req.audience)
    (said : err.text ≠ "") (permanent : (messageVerdict P err).retryable = false) :
    (∃ h, p.settle.finished = .ok h ∧ finishedIn h r = true) ∨
      ∃ event, Effect.event event ∈ (handleFailure P e req p.settle err).1 ∧ Finishes event r := by
  rw [handleFailure_message level]
  have stops : nextRetryDelay P (messageVerdict P err) (e.retryCount + 1) p.settle.pattern = .stop := by
    rw [nextRetryDelay, if_pos (.inl permanent)]
  by_cases unfinished : r ∈ unfinishedRecipients P req p.settle
  · obtain ⟨event, written, finishes⟩ := finishes_recorded req.providerID req.subject err.text issued
      listed (recorded.verdict r) (settled_messageVerdict said permanent)
    refine .inr ⟨event, ?_, finishes⟩
    simp only [handleMessageFailure, stops]
    exact mem_append_left _ (mem_flatMap.mpr ⟨r, unfinished, written⟩)
  · -- the worker left `r` out because its own read of the history finished it
    simp only [unfinishedRecipients] at unfinished
    split at unfinished
    · exact absurd listed unfinished
    next events read =>
      refine .inl ⟨events, read, ?_⟩
      cases finished : finishedIn events r with
      | true => rfl
      | false => exact absurd (mem_filter.mpr ⟨listed, by simp [finished]⟩) unfinished

theorem finished_known {row : OutboxRow} (here : s.row = some row)
    (reads : P.unmarshalRequest row.request = some req) (issued : P.isUUID row.id = true)
    (recorded : p.Recorded) (kept : LostNoVerdict P p) (h : passStep P s p = some t)
    (finished : Finished P row.toOutboxEmail req p r) : finishedIn t.events r = true := by
  obtain ⟨_, same, _, _, rfl⟩ := passStep_cases P h
  cases here.symm.trans same
  have effect {event : EmailEvent} (finishes : Finishes event r)
      (written : Effect.event event ∈ (processEmail P row.toOutboxEmail p.send p.settle).1) :
      finishedIn (s.events ++ p.seen ++
        eventsOf (processEmail P row.toOutboxEmail p.send p.settle).1) r = true :=
    finishedIn_iff.mpr ⟨event, mem_append_right _ (mem_eventsOf.mpr written), finishes⟩
  cases finished with
  | delivered _ to_ taken =>
    obtain ⟨event, written, finishes⟩ := finished_delivered issued recorded taken
    exact effect (to_ ▸ finishes) ((mem_processEmail reads).mpr (.inl written))
  | dropped _ checks prepared listed =>
    obtain ⟨event, written, finishes⟩ := finished_dropped issued recorded checks prepared listed
    exact effect finishes ((mem_processEmail reads).mpr (.inl written))
  | failed _ _ _ ended listed named said permanent =>
    obtain ⟨answered, verdict, event, written, finishes⟩ :=
      finished_failed issued recorded ended listed said permanent
    cases lost : p.settle.lost with
    | true =>
      -- the one way a verdict is not recorded
      have retryable := kept lost _ _ answered said
      rw [verdict, retryable] at permanent
      cases permanent
    | false =>
      exact effect (named ▸ finishes) ((mem_processEmail reads).mpr (.inr ⟨lost, _, ended, written⟩))
  | refused err level ended settles listed said permanent =>
    rcases finished_refused issued recorded level listed said permanent with
      ⟨h, read, known⟩ | ⟨event, written, finishes⟩
    · refine finishedIn_mono (fun event mem => ?_) known
      refine mem_append_left _ (mem_append_right _ (mem_append_right _ ?_))
      rw [read]
      exact mem
    · exact effect finishes ((mem_processEmail reads).mpr (.inr ⟨settles, err, ended, written⟩))

theorem known_not_handed (reads : P.unmarshalRequest e.request = some req)
    (complete : Complete s p) (known : finishedIn s.events r = true) {copy : Copy}
    {err : Option String} (handed : Effect.send copy err ∈ (processEmail P e p.send p.settle).1) :
    copy.recipient ≠ r := by
  rintro rfl
  obtain ⟨prep, found, _, ⟨unfinished, _⟩, _⟩ := mem_sendEmail_send P (send_of_pass reads handed)
  have finished := finishedIn_mono (complete.send _ found.history) known
  rw [unfinished] at finished
  cases finished

/-- What a run of passes has to meet: every event is recorded, every history read is
complete, and no verdict is lost with its claim. -/
def Faithful (P : Platform) (s : MessageState) (p : PassInput) : Prop :=
  p.Recorded ∧ Complete s p ∧ LostNoVerdict P p

theorem known_run {ps : List PassInput} (run : exec (passStep P) s ps = some t)
    (known : finishedIn s.events r = true) : finishedIn t.events r = true :=
  invariant (passStep P) (fun s => finishedIn s.events r = true)
    (fun _ _ _ before h => finishedIn_mono (events_step h) before) s t ps known run

end

/-- A recipient that one pass is done with is handed to no sender by any later pass. -/
theorem finished_never_handed_again (m : QueuedMessage P) (before between : List PassInput)
    (p q : PassInput) (s t u : MessageState) (row later : OutboxRow) (r : String)
    (first : exec (passStep P) m.start before = some s) (here : s.row = some row)
    (pass : passStep P s p = some t) (rest : exec (passStep P) t between = some u)
    (there : u.row = some later)
    (along : AllSteps (passStep P) (Faithful P) m.start (before ++ p :: (between ++ [q])))
    (finished : Finished P row.toOutboxEmail m.req p r) :
    ∀ copy err, Effect.send copy err ∈ (processEmail P later.toOutboxEmail q.send q.settle).1 →
      copy.recipient ≠ r := by
  intro copy err handed
  have owned := owns_run first row here
  have reached : exec (passStep P) m.start (before ++ p :: between) = some u :=
    (exec_append _ _ _ _ _).mpr ⟨s, first, (exec_cons _ _ _ _ _).mpr ⟨t, pass, rest⟩⟩
  obtain ⟨_, fromHere⟩ := allSteps_append _ _ _ _ _ _ first along
  obtain ⟨_, last⟩ := allSteps_append _ _ _ _ between [q] rest (fromHere.2 t pass)
  have known : finishedIn t.events r = true :=
    finished_known here owned.reads owned.issued fromHere.1.1 fromHere.1.2.2 pass finished
  exact known_not_handed (owns_run reached later there).reads last.1.2.1 (known_run rest known)
    handed

namespace Sample

theorem pass_recorded (history : List EmailEvent) (answer : String → Option String) (lost : Bool)
    (pattern : List String) : (pass history answer lost pattern).Recorded := by
  refine ⟨fun _ => rfl, fun r i sent delivered taken => ?_, fun r i err deferred refused => ?_,
    fun _ => rfl⟩
  · change attempt (answer r) = _ at taken
    cases given : answer r with
    | none =>
      rw [given] at taken
      cases taken
      exact ⟨rfl, rfl⟩
    | some =>
      rw [given] at taken
      cases taken
  · change attempt (answer r) = _ at refused
    cases given : answer r with
    | none =>
      rw [given] at refused
      cases refused
    | some =>
      rw [given] at refused
      cases refused
      rfl

theorem pass_complete {s : MessageState} {history : List EmailEvent} (answer : String → Option String)
    (lost : Bool) (pattern : List String) (all : ∀ e ∈ s.events, e ∈ history) :
    Complete s (pass history answer lost pattern) := by
  constructor <;>
    · intro h read
      cases read
      exact all

theorem pass_not_lost (P : Platform) (history : List EmailEvent) (answer : String → Option String)
    (pattern : List String) : LostNoVerdict P (pass history answer false pattern) := by
  intro lost
  cases lost

def after (to_ : List String) (p : PassInput) : MessageState :=
  (passStep (platform id (request to_)) (message id to_).start p).getD (message id to_).start

def copyTo (to_ : List String) (r : String) : Copy :=
  ⟨"p", "s@x", to_, [], r, "hi", "text", ""⟩

/-- `a` takes its copy, `b`'s server hangs up. -/
def halfDelivered : PassInput :=
  pass [] (fun r => if r = "b@x" then some "eof" else none) false ["5m"]

/-- `a`'s server says that there is no such address, to a worker whose claim is lost. -/
def lostVerdict : PassInput := pass [] (fun _ => some "5.1.1") true ["5m"]

/-- A second pass, with the whole history, in which every copy is taken. -/
def retry (to_ : List String) (p : PassInput) : PassInput :=
  pass (after to_ p).events (fun _ => none) false ["5m"]

end Sample

open Sample

theorem finished_never_handed_again_retry : ∃ later,
    (after ["a@x", "b@x"] halfDelivered).row = some later ∧
    Effect.send (copyTo ["a@x", "b@x"] "b@x") none ∈ (processEmail
      (platform id (request ["a@x", "b@x"])) later.toOutboxEmail
      (retry ["a@x", "b@x"] halfDelivered).send (retry ["a@x", "b@x"] halfDelivered).settle).1 ∧
    ∀ copy err, Effect.send copy err ∈ (processEmail (platform id (request ["a@x", "b@x"]))
      later.toOutboxEmail (retry ["a@x", "b@x"] halfDelivered).send
      (retry ["a@x", "b@x"] halfDelivered).settle).1 → copy.recipient ≠ "a@x" := by
  have pass : passStep (platform id (request ["a@x", "b@x"])) (message id ["a@x", "b@x"]).start
      halfDelivered = some (after ["a@x", "b@x"] halfDelivered) := rfl
  have runs : ∃ later ∈ (after ["a@x", "b@x"] halfDelivered).row,
      Effect.send (copyTo ["a@x", "b@x"] "b@x") none ∈ (processEmail
        (platform id (request ["a@x", "b@x"])) later.toOutboxEmail
        (retry ["a@x", "b@x"] halfDelivered).send
        (retry ["a@x", "b@x"] halfDelivered).settle).1 := by decide +kernel
  obtain ⟨later, there, handed⟩ := runs
  refine ⟨later, there, handed, ?_⟩
  have taken : Effect.send (copyTo ["a@x", "b@x"] "a@x") none ∈ (sendEmail
      (platform id (request ["a@x", "b@x"])) "t" "m" (request ["a@x", "b@x"])
      halfDelivered.send).1 := by decide +kernel
  refine finished_never_handed_again (platform id (request ["a@x", "b@x"]))
    (message id ["a@x", "b@x"]) [] [] halfDelivered (retry ["a@x", "b@x"] halfDelivered) _ _ _ row
    later "a@x" rfl rfl pass rfl there ?_ (.delivered (copyTo ["a@x", "b@x"] "a@x") rfl taken)
  refine ⟨⟨pass_recorded _ _ _ _, pass_complete _ _ _ nofun, pass_not_lost _ _ _ _⟩,
    fun t reached => ⟨⟨pass_recorded _ _ _ _, pass_complete _ _ _ ?_, pass_not_lost _ _ _ _⟩,
      fun _ _ => trivial⟩⟩
  cases pass.symm.trans reached
  exact fun e member => member

/-- A pass finds that `a` does not exist and loses its claim; the next one, with the whole
history, sends to `a`. -/
theorem lost_verdict_handed_again : ∃ later,
    passStep (platform id (request ["a@x"])) (message id ["a@x"]).start lostVerdict =
      some (after ["a@x"] lostVerdict) ∧ (after ["a@x"] lostVerdict).row = some later ∧
    lostVerdict.Recorded ∧ Complete (message id ["a@x"]).start lostVerdict ∧
    Finished (platform id (request ["a@x"])) row.toOutboxEmail (request ["a@x"]) lostVerdict "a@x" ∧
    Complete (after ["a@x"] lostVerdict) (retry ["a@x"] lostVerdict) ∧
    Effect.send (copyTo ["a@x"] "a@x") none ∈ (processEmail (platform id (request ["a@x"]))
      later.toOutboxEmail (retry ["a@x"] lostVerdict).send (retry ["a@x"] lostVerdict).settle).1 := by
  have runs : ∃ later ∈ (after ["a@x"] lostVerdict).row,
      Effect.send (copyTo ["a@x"] "a@x") none ∈ (processEmail
        (platform id (request ["a@x"])) later.toOutboxEmail (retry ["a@x"] lostVerdict).send
        (retry ["a@x"] lostVerdict).settle).1 := by decide +kernel
  obtain ⟨later, there, handed⟩ := runs
  have ended : (sendEmail (platform id (request ["a@x"])) "t" "m" (request ["a@x"])
      lostVerdict.send).2 = .error (.recipients [⟨"a@x", "5.1.1", ⟨.hardBounce, true, false⟩⟩] 0) := by
    decide +kernel
  exact ⟨later, rfl, there, pass_recorded _ _ _ _, pass_complete _ _ _ nofun,
    .failed _ 0 ⟨"a@x", "5.1.1", ⟨.hardBounce, true, false⟩⟩ ended mem_cons_self rfl
      (by decide) rfl, pass_complete _ _ _ fun _ member => member, handed⟩

end Panmail.Delivery
