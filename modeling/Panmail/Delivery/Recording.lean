import Panmail.Delivery.History

/-!
# Whether a delivery gets recorded

`DELIVERED` is written with the context of the send, which is cancelled when the claim is
lost or the shutdown's grace is over. `enqueue` waits for the writer and for the context
at once, so a copy that a provider took just before may go unrecorded, and then nothing
tells the next pass about it.
-/
namespace Panmail.Delivery

open Text Runs Outbox Sample

variable (P : Platform)

def deliveredAnswer (e : OutboxEmail) (req : SendEmailRequest) (input : SendInput) (r : String) :
    Option RecordAnswer :=
  match prepareSend P e.tenantID e.id req input with
  | .ok prep => acceptance input r 0 prep.providers
  | .error _ => none

/-- The store is open, and the context is alive or `select` picks the writer over it. -/
def RecordAnswer.Takes (a : RecordAnswer) : Prop :=
  a.queue.closed = false ∧
    (a.queue.ctxErr = none ∨ a.queue.room = true ∧ a.queue.picksWrite = true)

section
variable {P} {e : OutboxEmail} {req : SendEmailRequest} {input : SendInput} {s : SettleInput}
  {event : EmailEvent}

theorem settleEffect_not_delivered {r : String} (effect : SettleEffect P e req s r (.event event)) :
    event.type ≠ .delivered := by
  rcases effect with ⟨type, text, other, recorded⟩ | ⟨reason, suppressed⟩
  · rw [recordEvent_type P recorded]
    exact recordedType_not_delivered P other
  · obtain ⟨_, ⟨⟩⟩ := mem_addSuppression P suppressed

theorem delivered_of_pass (reads : P.unmarshalRequest e.request = some req)
    (issued : P.isUUID e.id = true) (type : event.type = .delivered)
    (written : Effect.event event ∈ (processEmail P e input s).1) :
    ∃ answer, deliveredAnswer P e req input event.recipient = some answer ∧
      enqueue answer.queue = .ok () := by
  rcases (mem_processEmail reads).mp written with sent | ⟨_, cause, ended, settled⟩
  · obtain ⟨prep, found, dropped | ⟨r, listed, turn⟩⟩ := mem_sendEmail_event P sent
    · rw [type] at dropped
      cases dropped
    · rw [found.recipients] at listed
      have normal := normal_recipient P listed
      have named := ((mem_uniqueRecipients P).mp listed).1
      have recipient : event.recipient = r := deliverTo_recipient P issued normal named turn
      obtain ⟨_, p, attempt, effect, accepts⟩ := mem_deliverTo P turn
      obtain ⟨first, delivered, same, taken⟩ :=
        attemptEffects_delivered P issued (normal.symm ▸ named) effect type
      refine ⟨delivered, ?_, taken⟩
      rw [deliveredAnswer, found.prepared, recipient]
      exact accepts first delivered same
  · obtain ⟨who, effect⟩ := mem_handleFailure (sendEmail_verdicts ended) settled
    exact absurd type (settleEffect_not_delivered effect)

end

/-- A copy that was taken is recorded as delivered exactly where the store takes the event,
and a later pass that reads it back skips the recipient. -/
theorem delivery_recorded_iff (m : QueuedMessage P) (row : OutboxRow) (owned : m.Owns row)
    (p : PassInput) (copy : Copy)
    (taken : Effect.send copy none ∈ (processEmail P row.toOutboxEmail p.send p.settle).1) :
    ∃ answer, deliveredAnswer P row.toOutboxEmail m.req p.send copy.recipient = some answer ∧
      ((∃ event, Effect.event event ∈ (processEmail P row.toOutboxEmail p.send p.settle).1 ∧
        event.type = .delivered ∧ event.recipient = copy.recipient) ↔ answer.Takes) ∧
      (answer.Takes → ∀ (s : MessageState) (later : OutboxRow) (q : PassInput), m.Owns later →
        (∀ event ∈ eventsOf (processEmail P row.toOutboxEmail p.send p.settle).1,
          event ∈ s.events) → Complete s q → ∀ again err, Effect.send again err ∈
          (processEmail P later.toOutboxEmail q.send q.settle).1 →
          again.recipient ≠ copy.recipient) := by
  have sent := send_of_pass owned.reads taken
  obtain ⟨prep, found, listed, reached, _, accepts, within⟩ := mem_sendEmail_send P sent
  obtain ⟨answer, acceptedBy⟩ := accepts rfl
  have chosen : deliveredAnswer P row.toOutboxEmail m.req p.send copy.recipient = some answer := by
    rw [deliveredAnswer, found.prepared]
    exact acceptedBy
  have recorded (takes : answer.Takes) :
      ∃ event, Effect.event event ∈ (processEmail P row.toOutboxEmail p.send p.settle).1 ∧
        event.type = .delivered ∧ event.recipient = copy.recipient := by
    rw [found.recipients] at listed
    obtain ⟨event, written, type, recipient⟩ := deliverTo_records P owned.issued
      (normal_recipient P listed) ((mem_uniqueRecipients P).mp listed).1 reached acceptedBy
      ((enqueue_ok_iff _).mpr takes)
    exact ⟨event, (mem_processEmail owned.reads).mpr (.inl (within _ written)), type, recipient⟩
  refine ⟨answer, chosen, ⟨?_, recorded⟩, ?_⟩
  · rintro ⟨event, written, type, recipient⟩
    obtain ⟨other, same, stored⟩ := delivered_of_pass owned.reads owned.issued type written
    rw [recipient, chosen] at same
    cases same
    exact (enqueue_ok_iff _).mp stored
  · intro takes s later q owns kept complete again err handed
    obtain ⟨event, written, type, recipient⟩ := recorded takes
    -- the event makes the history say that the recipient is finished
    have known : finishedIn s.events copy.recipient = true :=
      finishedIn_iff.mpr ⟨event, kept event (mem_eventsOf.mpr written), recipient, .inl type⟩
    exact known_not_handed owns.reads complete known handed

theorem delivery_recorded_iff_half : ∃ event,
    Effect.event event ∈ (processEmail (platform id (request ["a@x", "b@x"])) row.toOutboxEmail
      halfDelivered.send halfDelivered.settle).1 ∧
    event.type = .delivered ∧ event.recipient = "a@x" := by
  have taken : Effect.send (copyTo ["a@x", "b@x"] "a@x") none ∈ (processEmail
      (platform id (request ["a@x", "b@x"])) row.toOutboxEmail halfDelivered.send
      halfDelivered.settle).1 := by decide
  obtain ⟨answer, chosen, recorded, _⟩ := delivery_recorded_iff
    (platform id (request ["a@x", "b@x"])) (message id ["a@x", "b@x"]) row ⟨rfl, rfl, rfl⟩
    halfDelivered (copyTo ["a@x", "b@x"] "a@x") taken
  have same : deliveredAnswer (platform id (request ["a@x", "b@x"])) row.toOutboxEmail
      (request ["a@x", "b@x"]) halfDelivered.send "a@x" = some record := rfl
  cases same.symm.trans chosen
  exact recorded.mpr ⟨rfl, .inl rfl⟩

/-- The claim is lost while the provider takes the copy, and `select` picks the context. -/
def cancelledRecord : RecordAnswer :=
  { record with queue := ⟨false, true, some "context canceled", false, .inr (.inl rfl)⟩ }

def cancelledPass : PassInput :=
  ⟨{ send [] fun _ => none with attempt := fun _ _ => .accepted record cancelledRecord },
    settle [] true ["5m"], true⟩

/-- The copy was taken without a `DELIVERED` in the history, and the next pass hands it over again.
-/
theorem delivery_unrecorded_after_cancel : ∃ later,
    Effect.send (copyTo ["a@x"] "a@x") none ∈ (processEmail (platform id (request ["a@x"]))
      row.toOutboxEmail cancelledPass.send cancelledPass.settle).1 ∧
    (∀ event ∈ eventsOf (processEmail (platform id (request ["a@x"])) row.toOutboxEmail
      cancelledPass.send cancelledPass.settle).1, event.type ≠ .delivered) ∧
    (after ["a@x"] cancelledPass).row = some later ∧
    Complete (after ["a@x"] cancelledPass) (retry ["a@x"] cancelledPass) ∧
    Effect.send (copyTo ["a@x"] "a@x") none ∈ (processEmail (platform id (request ["a@x"]))
      later.toOutboxEmail (retry ["a@x"] cancelledPass).send
      (retry ["a@x"] cancelledPass).settle).1 := by
  have first : Effect.send (copyTo ["a@x"] "a@x") none ∈ (processEmail
        (platform id (request ["a@x"])) row.toOutboxEmail cancelledPass.send
        cancelledPass.settle).1 ∧
      ∀ event ∈ eventsOf (processEmail (platform id (request ["a@x"])) row.toOutboxEmail
        cancelledPass.send cancelledPass.settle).1, event.type ≠ .delivered := by decide
  have second : ∃ later ∈ (after ["a@x"] cancelledPass).row,
      Effect.send (copyTo ["a@x"] "a@x") none ∈ (processEmail
        (platform id (request ["a@x"])) later.toOutboxEmail (retry ["a@x"] cancelledPass).send
        (retry ["a@x"] cancelledPass).settle).1 := by decide
  obtain ⟨later, there, handed⟩ := second
  exact ⟨later, first.1, first.2, there, pass_complete _ _ _ fun _ member => member, handed⟩

end Panmail.Delivery
