import Panmail.Delivery.Passes

/-!
# One recipient's verdict is its own

Two passes over the same message that are told the same about a recipient, and anything about the
others, do the same about that recipient. What two recipients can share is the mailbox, when the
message spells it in two ways: the suppression list is keyed by the mailbox.
-/
namespace Panmail.Delivery

open Text Outbox List

variable (P : Platform)

/-- The pass failed for someone worth another attempt, and the schedule has none left. -/
def exhausted (e : OutboxEmail) (req : SendEmailRequest) (input : SendInput) (s : SettleInput) :
    Bool :=
  match (sendEmail P e.tenantID e.id req input).2 with
  | .error (.recipients failures delivered) =>
    match failuresBy true failures with
    | f :: _ => recipientRetry P e s f delivered = .stop
    | [] => false
  | _ => false

def suppresses (effects : List Effect) (key : String) : Bool :=
  effects.any fun x => match x with
    | .suppressed _ entry => entry.email = key
    | _ => false

/-- The same pass, with other answers from the providers. -/
def SendInput.answering (input : SendInput) (answers : String → Nat → Attempt) : SendInput :=
  { input with attempt := answers }

theorem suppresses_iff {effects : List Effect} {key : String} : suppresses effects key = true ↔
      ∃ email entry, Effect.suppressed email entry ∈ effects ∧ entry.email = key := by
  rw [suppresses, any_eq_true]
  constructor
  · rintro ⟨x, mem, holds⟩
    cases x with
    | suppressed email entry => exact ⟨email, entry, mem, of_decide_eq_true holds⟩
    | send | event => cases holds
  · rintro ⟨email, entry, mem, same⟩
    exact ⟨.suppressed email entry, mem, decide_eq_true same⟩

section
variable {P} {tenantID messageID : String} {req : SendEmailRequest} {input : SendInput}
  {answers : String → Nat → Attempt} {r : String} {prep : Prepared}

/-! ### A turn reads only its recipient's answers -/

theorem deliverTo_answering (agree : ∀ i, answers r i = input.attempt r i) :
    deliverTo P tenantID messageID req prep (input.answering answers) r =
      deliverTo P tenantID messageID req prep input r := by
  have same : ∀ i, (input.answering answers).attempt r i = input.attempt r i := agree
  simp only [deliverTo, tryProviders_congr P same]
  rfl

theorem passFailures_answering {f : RecipientFailure}
    (agree : ∀ i, answers f.recipient i = input.attempt f.recipient i)
    (listed : f ∈ passFailures P tenantID messageID req input prep) :
    f ∈ passFailures P tenantID messageID req (input.answering answers) prep := by
  obtain ⟨r, mem, failure⟩ := mem_filterMap.mp listed
  have own : r = f.recipient := by
    rw [Outcome.failure] at failure
    split at failure
    · cases failure
    obtain ⟨err, _, rfl⟩ := Option.map_eq_some_iff.mp failure
    rfl
  subst own
  exact mem_filterMap.mpr ⟨_, mem, by rw [deliverTo_answering agree]; exact failure⟩

end

/-! ### Who an effect is about -/

section
variable {P} {m : QueuedMessage P} {row : OutboxRow} {input : SendInput} {s : SettleInput}
  {answers : String → Nat → Attempt}

variable {x : Effect} {r tenantID messageID : String} {req : SendEmailRequest}

theorem settleEffect_recipient (owned : m.Owns row) (mem : r ∈ m.recipients)
    (effect : SettleEffect P row.toOutboxEmail m.req s r x) : x.recipient = r := by
  rcases effect with ⟨type, text, _, recorded⟩ | ⟨reason, suppressed⟩
  · exact recordEvent_recipient P owned.issued (normal_recipient P mem)
      ((mem_uniqueRecipients P).mp mem).1 recorded
  · obtain ⟨_, rfl⟩ := mem_addSuppression P suppressed
    rfl

/-- Short of exhaustion, the permanent failures are all that settling acts on. -/
theorem permanent_of_handled {e : OutboxEmail} {failures : List RecipientFailure}
    {delivered : Nat}
    (ended : (sendEmail P e.tenantID e.id req input).2 = .error (.recipients failures delivered))
    (unspent : exhausted P e req input s = false)
    (mem : x ∈ (handleFailure P e req s (.recipients failures delivered)).1) :
    ∃ f ∈ failuresBy false failures, x ∈ settlePermanent P e req s f := by
  simp only [exhausted, ended] at unspent
  simp only [handleFailure, handleRecipientFailures] at mem
  split at mem
  · split at mem <;> exact mem_flatMap.mp mem
  next f rest retry =>
    rw [retry] at unspent
    split at mem
    · exact mem_flatMap.mp mem
    next stop => exact absurd stop (of_decide_eq_false unspent)
    · exact mem_flatMap.mp mem

def looped (tenantID messageID : String) (req : SendEmailRequest) (input : SendInput)
    (prep : Prepared) : List Effect × Except SendError SendEmailResponse :=
  (prep.drops ++ prep.recipients.flatMap fun r =>
      (deliverTo P tenantID messageID req prep input r).effects,
    if passFailures P tenantID messageID req input prep = [] then .ok ⟨messageID, .delivered⟩
    else .error (.recipients (passFailures P tenantID messageID req input prep)
      (passDelivered P tenantID messageID req input prep)))

/-- Nothing before the loop reads an answer of a provider. -/
theorem sendEmail_answering (tenantID messageID : String) (req : SendEmailRequest)
    (input : SendInput) (answers : String → Nat → Attempt) :
    sendEmail P tenantID messageID req (input.answering answers) =
        sendEmail P tenantID messageID req input ∨
      ∃ prep : Prepared, prep.Found P tenantID messageID req input ∧
        sendEmail P tenantID messageID req input =
          looped (P := P) tenantID messageID req input prep ∧
        sendEmail P tenantID messageID req (input.answering answers) =
          looped (P := P) tenantID messageID req (input.answering answers) prep := by
  have checks : sendChecks P tenantID req (input.answering answers) =
      sendChecks P tenantID req input := rfl
  have prepares : prepareSend P tenantID messageID req (input.answering answers) =
      prepareSend P tenantID messageID req input := rfl
  have paces : (input.answering answers).pace = input.pace := rfl
  simp only [sendEmail, checks]
  cases sendChecks P tenantID req input with
  | some => exact .inl rfl
  | none =>
    simp only [doSend, prepares, paces]
    rcases prepareSend_cases P tenantID messageID req input with ⟨err, failed, _⟩ | ⟨prep, ok, found⟩
    · exact .inl (by rw [failed])
    · simp only [ok]
      cases paceDelivery tenantID (firstSender prep.providers) prep.pending input.pace with
      | some => exact .inl rfl
      | none =>
        simp only [sendLoop_eq, nil_append, Nat.zero_add]
        exact .inr ⟨prep, found, rfl, rfl⟩

theorem settlePermanent_recipient {f : RecipientFailure} (owned : m.Owns row)
    (mem : f.recipient ∈ m.recipients) (verdict : f.verdict.type ≠ .delivered)
    (effect : x ∈ settlePermanent P row.toOutboxEmail m.req s f) : x.recipient = f.recipient := by
  apply settleEffect_recipient owned mem
  rcases mem_append.mp effect with recorded | suppressed
  · exact mem_recordRecipientFailure verdict recorded
  · exact mem_suppressUnsubscribed suppressed

theorem effect_answering (owned : m.Owns row)
    (agree : ∀ i, answers x.recipient i = input.attempt x.recipient i)
    (unspent : exhausted P row.toOutboxEmail m.req input s = false)
    (mem : x ∈ (processEmail P row.toOutboxEmail input s).1) :
    x ∈ (processEmail P row.toOutboxEmail (input.answering answers) s).1 := by
  rw [mem_processEmail owned.reads] at mem ⊢
  rcases sendEmail_answering (P := P) row.tenantID row.id m.req input answers with
    same | ⟨prep, found, first, second⟩
  · rw [same]
    exact mem
  have recipients : prep.recipients = m.recipients := found.recipients
  rcases mem with sent | ⟨kept, err, ended, settled⟩
  · -- what the pass did while it sent: a drop, or this recipient's turn
    rw [first] at sent
    rw [second]
    refine .inl ?_
    rcases mem_append.mp sent with drop | turn
    · exact mem_append_left _ drop
    · obtain ⟨r, listed, effect⟩ := mem_flatMap.mp turn
      have mem : r ∈ m.recipients := recipients ▸ listed
      have own : x.recipient = r := deliverTo_recipient P owned.issued (normal_recipient P mem)
        ((mem_uniqueRecipients P).mp mem).1 effect
      subst own
      refine mem_append_right _ (mem_flatMap.mpr ⟨x.recipient, listed, ?_⟩)
      rw [deliverTo_answering agree]
      exact effect
  · -- what the worker did about the failures: only this recipient's own is at stake
    have failures := ended
    rw [first, looped] at failures
    split at failures
    · cases failures
    cases failures
    obtain ⟨f, permanent, effect⟩ := permanent_of_handled ended unspent settled
    obtain ⟨listed, final⟩ := mem_filter.mp permanent
    obtain ⟨mem, verdict, _⟩ := mem_passFailures listed
    rw [recipients] at mem
    have own : x.recipient = f.recipient := settlePermanent_recipient owned mem
      (verdict ▸ classifyError_not_delivered _ _) effect
    rw [own] at agree
    have failed := passFailures_answering agree listed
    have ends : (sendEmail P row.tenantID row.id m.req (input.answering answers)).2 =
        .error (.recipients (passFailures P row.tenantID row.id m.req (input.answering answers) prep)
          (passDelivered P row.tenantID row.id m.req (input.answering answers) prep)) := by
      simp only [second, looped]
      rw [if_neg (ne_nil_of_mem failed)]
    exact .inr ⟨kept, _, ends, settled_in_handled (mem_filter.mpr ⟨failed, final⟩) effect⟩

/-! ### Whose key an entry is under -/

/-- An entry put on the list for an address is under that address's key. -/
def Effect.Keyed (P : Platform) : Effect → Prop
  | .suppressed email entry => entry.email = suppressionKey P email
  | _ => True

theorem recordEvent_keyed {providerID : String} {type : EventType} {subject err : String}
    {a : RecordAnswer}
    (mem : x ∈ recordEvent P tenantID providerID messageID type r subject err a) : x.Keyed P := by
  rcases mem_recordEvent P mem with ⟨_, rfl, _⟩ | ⟨_, _, _, rfl⟩
  · trivial
  · rfl

theorem attemptEffects_keyed {content : Content} {p : EmailProvider} {attempt : Attempt}
    (mem : x ∈ attemptEffects P tenantID messageID req content r p attempt) : x.Keyed P := by
  rcases mem_attemptEffects P mem with ⟨_, _, rfl, _⟩ | ⟨_, _, _, recorded, _⟩
  · trivial
  · exact recordEvent_keyed recorded

theorem mem_settlement {err : SendError}
    (ended : (sendEmail P row.tenantID row.id m.req input).2 = .error err)
    (mem : x ∈ (handleFailure P row.toOutboxEmail m.req s err).1) :
    ∃ r ∈ m.recipients, SettleEffect P row.toOutboxEmail m.req s r x := by
  have whole (same : handleFailure P row.toOutboxEmail m.req s err =
      handleMessageFailure P row.toOutboxEmail m.req s err) :
      ∃ r ∈ m.recipients, SettleEffect P row.toOutboxEmail m.req s r x := by
    rw [same] at mem
    obtain ⟨r, unfinished, effect⟩ := mem_handleMessageFailure mem
    refine ⟨r, ?_, effect⟩
    simp only [unfinishedRecipients] at unfinished
    split at unfinished
    · exact unfinished
    · exact (mem_filter.mp unfinished).1
  cases err with
  | paced => cases mem
  | recipients failures delivered =>
    obtain ⟨f, listed, effect⟩ :=
      mem_handleRecipientFailures (sendEmail_verdicts ended failures delivered rfl) mem
    obtain ⟨prep, found, rfl, _, _⟩ := sendEmail_failures ended
    have recipients : prep.recipients = m.recipients := found.recipients
    exact ⟨f.recipient, recipients ▸ (mem_passFailures listed).1, effect⟩
  | senderRefused | templateRefused | failed => exact whole rfl

/-- Everything a pass does is about one of the message's recipients, and what it suppresses is
that recipient's own mailbox. -/
theorem processed_spec (owned : m.Owns row)
    (mem : x ∈ (processEmail P row.toOutboxEmail input s).1) :
    x.recipient ∈ m.recipients ∧ x.Keyed P := by
  have dropped {prep : Prepared} (found : prep.Found P row.tenantID row.id m.req input)
      (drop : x ∈ prep.drops) : x.recipient ∈ m.recipients ∧ x.Keyed P := by
    obtain ⟨r, listed, reason, recorded⟩ := (drops_spec P found.dropped).1 x drop
    have mem : r ∈ prep.recipients := ((mem_dropped P found.dropped).mp listed).1
    rw [found.recipients] at mem
    have own := recordEvent_recipient P owned.issued (normal_recipient P mem)
      ((mem_uniqueRecipients P).mp mem).1 recorded
    rw [own]
    exact ⟨mem, recordEvent_keyed recorded⟩
  rcases (mem_processEmail owned.reads).mp mem with sent | ⟨_, err, ended, settled⟩
  · -- the effects of the send, by how it ended
    have ends := sendEmail_case P row.tenantID row.id m.req input
    generalize sendEmail P row.tenantID row.id m.req input = result at sent ends
    cases ends with
    | refused => cases sent
    | paced _ _ found => exact dropped found sent
    | looped _ _ found =>
      rcases mem_append.mp sent with drop | loop
      · exact dropped found drop
      · obtain ⟨r, listed, effect⟩ := mem_flatMap.mp loop
        rw [found.recipients] at listed
        have own := deliverTo_recipient P owned.issued (normal_recipient P listed)
          ((mem_uniqueRecipients P).mp listed).1 effect
        obtain ⟨_, p, attempt, attempted, _⟩ := mem_deliverTo P effect
        rw [own]
        exact ⟨listed, attemptEffects_keyed attempted⟩
  · -- the effects of settling the failures
    obtain ⟨r, listed, effect⟩ := mem_settlement ended settled
    rw [settleEffect_recipient owned listed effect]
    refine ⟨listed, ?_⟩
    rcases effect with ⟨type, text, _, recorded⟩ | ⟨reason, suppressed⟩
    · exact recordEvent_keyed recorded
    · obtain ⟨_, rfl⟩ := mem_addSuppression P suppressed
      rfl

end

/-- Two passes told the same about `r`, and anything about the others, do the same about `r`, unless
one exhausts the schedule; and they suppress `r`'s mailbox in the same cases if also told the same
about its other spellings. -/
theorem verdicts_independent (m : QueuedMessage P) (row : OutboxRow) (input : SendInput)
    (answers : String → Nat → Attempt) (s : SettleInput) (r : String) (owned : m.Owns row)
    (agree : ∀ i, answers r i = input.attempt r i)
    (unspent : exhausted P row.toOutboxEmail m.req input s = false)
    (unspentToo : exhausted P row.toOutboxEmail m.req (input.answering answers) s = false) :
    (∀ x : Effect, x.recipient = r → (x ∈ (processEmail P row.toOutboxEmail input s).1 ↔
      x ∈ (processEmail P row.toOutboxEmail (input.answering answers) s).1)) ∧
    ((∀ other ∈ m.recipients, suppressionKey P other = suppressionKey P r →
        ∀ i, answers other i = input.attempt other i) →
      suppresses (processEmail P row.toOutboxEmail input s).1 (suppressionKey P r) =
        suppresses (processEmail P row.toOutboxEmail (input.answering answers) s).1
          (suppressionKey P r)) := by
  -- the first pass is the second one, answered as the first was
  have back {x : Effect} (same : ∀ i, answers x.recipient i = input.attempt x.recipient i)
      (member : x ∈ (processEmail P row.toOutboxEmail (input.answering answers) s).1) :
      x ∈ (processEmail P row.toOutboxEmail input s).1 := by
    have there : x ∈ (processEmail P row.toOutboxEmail
        ((input.answering answers).answering input.attempt) s).1 :=
      effect_answering owned (fun i => (same i).symm) unspentToo member
    have first : (input.answering answers).answering input.attempt = input := rfl
    exact there
  refine ⟨fun x about => ?_, fun mailbox => ?_⟩
  · subst about
    exact ⟨effect_answering owned agree unspent, back agree⟩
  · rw [Bool.eq_iff_iff, suppresses_iff, suppresses_iff]
    constructor
    · rintro ⟨email, entry, member, key⟩
      obtain ⟨listed, keyed⟩ := processed_spec owned member
      have same := mailbox email listed (keyed.symm.trans key)
      exact ⟨email, entry, effect_answering owned same unspent member, key⟩
    · rintro ⟨email, entry, member, key⟩
      obtain ⟨listed, keyed⟩ := processed_spec owned member
      have same := mailbox email listed (keyed.symm.trans key)
      exact ⟨email, entry, back same member, key⟩

namespace Sample

/-- `a` has no mailbox; the other recipients get this answer. -/
def bounced (others : Option String) (r : String) (_ : Nat) : Attempt :=
  if r = "a@x" then attempt (some "5.1.1") else attempt others

def spelled (display : String) (r : String) (_ : Nat) : Attempt :=
  if r = "bob <bob@x>" then attempt (some display) else attempt (some "eof")

def answered (answers : String → Nat → Attempt) : SendInput :=
  (send [] fun _ => none).answering answers

end Sample

open Sample

/-- `a` is suppressed whether `b` fails too or gets its copy. -/
theorem verdicts_independent_bounce :
    suppresses (processEmail (platform id (request ["a@x", "b@x"])) row.toOutboxEmail
      (answered (bounced (some "eof"))) (settle [] false ["5m"])).1 "a@x" = true ∧
    suppresses (processEmail (platform id (request ["a@x", "b@x"])) row.toOutboxEmail
      (answered (bounced none)) (settle [] false ["5m"])).1 "a@x" = true ∧
    ∀ x : Effect, x.recipient = "a@x" →
      (x ∈ (processEmail (platform id (request ["a@x", "b@x"])) row.toOutboxEmail
        (answered (bounced (some "eof"))) (settle [] false ["5m"])).1 ↔
      x ∈ (processEmail (platform id (request ["a@x", "b@x"])) row.toOutboxEmail
        (answered (bounced none)) (settle [] false ["5m"])).1) := by
  have facts :
      exhausted (platform id (request ["a@x", "b@x"])) row.toOutboxEmail (request ["a@x", "b@x"])
        (answered (bounced (some "eof"))) (settle [] false ["5m"]) = false ∧
      exhausted (platform id (request ["a@x", "b@x"])) row.toOutboxEmail (request ["a@x", "b@x"])
        (answered (bounced none)) (settle [] false ["5m"]) = false ∧
      suppresses (processEmail (platform id (request ["a@x", "b@x"])) row.toOutboxEmail
        (answered (bounced (some "eof"))) (settle [] false ["5m"])).1 "a@x" = true ∧
      suppresses (processEmail (platform id (request ["a@x", "b@x"])) row.toOutboxEmail
        (answered (bounced none)) (settle [] false ["5m"])).1 "a@x" = true := by decide +kernel
  obtain ⟨unspent, unspentToo, first, second⟩ := facts
  have independent := verdicts_independent (platform id (request ["a@x", "b@x"]))
    (message id ["a@x", "b@x"]) row (answered (bounced (some "eof"))) (bounced none)
    (settle [] false ["5m"]) "a@x" ⟨rfl, rfl, rfl⟩ (fun _ => rfl) unspent unspentToo
  exact ⟨first, second, independent.1⟩

/-- What is said to one spelling of the mailbox decides whether it is suppressed, though the server
hung up on the other. -/
theorem shared_mailbox_suppressed : (∀ i, (answered (spelled "eof")).attempt "bob@x" i =
      (answered (spelled "5.1.1")).attempt "bob@x" i) ∧
    (sendEmail (platform mailbox (request ["bob@x", "bob <bob@x>"])) "t" "m"
      (request ["bob@x", "bob <bob@x>"]) (answered (spelled "5.1.1"))).2 =
      .error (.recipients [⟨"bob@x", "eof", ⟨.softBounce, false, true⟩⟩,
        ⟨"bob <bob@x>", "5.1.1", ⟨.hardBounce, true, false⟩⟩] 0) ∧
    (sendEmail (platform mailbox (request ["bob@x", "bob <bob@x>"])) "t" "m"
      (request ["bob@x", "bob <bob@x>"]) (answered (spelled "eof"))).2 =
      .error (.recipients [⟨"bob@x", "eof", ⟨.softBounce, false, true⟩⟩,
        ⟨"bob <bob@x>", "eof", ⟨.softBounce, false, true⟩⟩] 0) ∧
    exhausted (platform mailbox (request ["bob@x", "bob <bob@x>"])) row.toOutboxEmail
      (request ["bob@x", "bob <bob@x>"]) (answered (spelled "5.1.1"))
      (settle [] false ["5m"]) = false ∧
    exhausted (platform mailbox (request ["bob@x", "bob <bob@x>"])) row.toOutboxEmail
      (request ["bob@x", "bob <bob@x>"]) (answered (spelled "eof"))
      (settle [] false ["5m"]) = false ∧
    suppresses (processEmail (platform mailbox (request ["bob@x", "bob <bob@x>"]))
      row.toOutboxEmail (answered (spelled "5.1.1")) (settle [] false ["5m"])).1
      (suppressionKey (platform mailbox (request ["bob@x", "bob <bob@x>"])) "bob@x") = true ∧
    suppresses (processEmail (platform mailbox (request ["bob@x", "bob <bob@x>"]))
      row.toOutboxEmail (answered (spelled "eof")) (settle [] false ["5m"])).1
      (suppressionKey (platform mailbox (request ["bob@x", "bob <bob@x>"])) "bob@x") = false := by
  refine ⟨fun _ => rfl, ?_⟩
  decide +kernel

end Panmail.Delivery
