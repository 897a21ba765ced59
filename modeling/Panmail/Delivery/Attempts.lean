import Panmail.Delivery.Send

/-!
# One recipient's turn

What a pass does for one recipient, read off the source's inner loop: who is skipped,
which provider takes the copy, and which events follow. Every effect is about the
recipient whose turn it is.
-/
namespace Panmail.Delivery

open Text Outbox List Effect

variable (P : Platform) {tenantID messageID : String} {req : SendEmailRequest}
  {content : Content} {input : SendInput} {prep : Prepared} {r : String}

/-! ### The providers in turn -/

/-- The first provider from position `i` on that takes the copy: the answer its `DELIVERED`
event is recorded with. -/
def acceptance (input : SendInput) (r : String) (i : Nat) : List EmailProvider → Option RecordAnswer
  | [] => none
  | p :: rest =>
    if p.receiver then acceptance input r (i + 1) rest
    else
      match input.attempt r i with
      | .accepted _ delivered => some delivered
      | _ => acceptance input r (i + 1) rest

/-- What a turn comes to, given the acceptance it ends with: its effects come from one provider's
sender each, and all that an acceptance leads to is among them. -/
structure Outcome.Ends (outcome : Outcome) (tenantID messageID : String) (req : SendEmailRequest)
    (content : Content) (r : String) (taken : Option RecordAnswer) : Prop where
  sent : outcome.sent = taken.isSome
  effects : ∀ x ∈ outcome.effects, ∃ p attempt,
    x ∈ attemptEffects P tenantID messageID req content r p attempt ∧
      ∀ sent delivered, attempt = .accepted sent delivered → taken = some delivered
  accepts : ∀ delivered, taken = some delivered → ∃ p sent,
    ∀ x ∈ attemptEffects P tenantID messageID req content r p (.accepted sent delivered),
      x ∈ outcome.effects

theorem tryProviders_ends (providers : List EmailProvider) (i : Nat) (err : Option String) :
    (tryProviders P tenantID messageID req content input r i err providers).Ends P tenantID messageID
      req content r (acceptance input r i providers) := by
  induction providers generalizing i err with
  | nil => exact ⟨rfl, nofun, nofun⟩
  | cons p _ ih =>
    simp only [tryProviders, acceptance]
    split
    · exact ih _ _
    · cases input.attempt r i with
      | noSender e => exact ih _ _
      | accepted sent delivered =>
        refine ⟨rfl, fun x mem => ⟨p, .accepted sent delivered, mem, ?_⟩, ?_⟩
        · rintro _ _ ⟨⟩
          rfl
        · rintro _ ⟨⟩
          exact ⟨p, sent, fun _ mem => mem⟩
      | refused e deferred =>
        obtain ⟨sent, effects, accepts⟩ := ih (i + 1) (some e)
        refine ⟨sent, fun x mem => ?_, fun delivered taken => ?_⟩
        · rcases mem_append.mp mem with here | later
          · exact ⟨p, .refused e deferred, here, fun _ _ other => nomatch other⟩
          · exact effects x later
        · obtain ⟨q, sent, within⟩ := accepts delivered taken
          exact ⟨q, sent, fun x mem => mem_append_right _ (within x mem)⟩

theorem tryProviders_congr {other : SendInput} (agree : ∀ i, other.attempt r i = input.attempt r i)
    (providers : List EmailProvider) (i : Nat) (err : Option String) :
    tryProviders P tenantID messageID req content other r i err providers =
      tryProviders P tenantID messageID req content input r i err providers := by
  induction providers generalizing i err with
  | nil => rfl
  | cons _ _ ih => simp only [tryProviders, agree, ih]

/-! ### What one sender's answer leads to -/

variable {x : Effect} {copy : Copy} {e : EmailEvent} {err : Option String}

section
variable {p : EmailProvider} {attempt : Attempt}

/-- A sender is handed the copy as rendered, and its answer is recorded; `DELIVERED` only
where it took the copy. -/
theorem mem_attemptEffects (mem : x ∈ attemptEffects P tenantID messageID req content r p attempt) :
    (∃ copy err, x = .send copy err ∧ copy.recipient = r ∧
        (⟨copy.subject, copy.html, copy.text⟩ : Content) = content ∧
        (err = none → ∃ sent delivered, attempt = .accepted sent delivered)) ∨ ∃ type text answer,
        x ∈ recordEvent P tenantID p.id messageID type r content.subject text answer ∧
          (recordedType P type text = .delivered → ∃ sent, attempt = .accepted sent answer) := by
  cases attempt with
  | noSender => cases mem
  | accepted sent delivered =>
    rcases mem_cons.mp mem with rfl | recorded
    · exact .inl ⟨_, _, rfl, rfl, rfl, fun _ => ⟨sent, delivered, rfl⟩⟩
    · rcases mem_append.mp recorded with first | second
      · exact .inr ⟨_, _, _, first, nofun⟩
      · exact .inr ⟨_, _, _, second, fun _ => ⟨sent, rfl⟩⟩
  | refused =>
    rcases mem_cons.mp mem with rfl | recorded
    · exact .inl ⟨_, _, rfl, rfl, rfl, nofun⟩
    · exact .inr ⟨_, _, _, recorded, nofun⟩

theorem attemptEffects_recipient (issued : P.isUUID messageID = true)
    (normal : P.unicode.normal r = r) (named : r ≠ "")
    (mem : x ∈ attemptEffects P tenantID messageID req content r p attempt) : x.recipient = r := by
  rcases mem_attemptEffects P mem with ⟨_, _, rfl, own, _⟩ | ⟨_, _, _, recorded, _⟩
  · exact own
  · exact recordEvent_recipient P issued normal named recorded

theorem attemptEffects_copy
    (mem : send copy err ∈ attemptEffects P tenantID messageID req content r p attempt) :
    copy.recipient = r ∧ (⟨copy.subject, copy.html, copy.text⟩ : Content) = content ∧
      (err = none → ∃ sent delivered, attempt = .accepted sent delivered) := by
  rcases mem_attemptEffects P mem with ⟨_, _, ⟨⟩, spec⟩ | ⟨_, _, _, recorded, _⟩
  · exact spec
  · exact absurd recorded (recordEvent_no_send P)

theorem attemptEffects_delivered (issued : P.isUUID messageID = true)
    (named : P.unicode.normal r ≠ "")
    (mem : event e ∈ attemptEffects P tenantID messageID req content r p attempt)
    (type : e.type = .delivered) :
    ∃ sent delivered, attempt = .accepted sent delivered ∧ enqueue delivered.queue = .ok () := by
  rcases mem_attemptEffects P mem with ⟨_, _, ⟨⟩, _⟩ | ⟨_, _, answer, recorded, accepted⟩
  obtain ⟨taken, _, _, _, recordedAs⟩ := recordEvent_event P issued named recorded
  obtain ⟨sent, same⟩ := accepted (recordedAs.symm.trans type)
  exact ⟨sent, answer, same, taken⟩

end

/-! ### The turn -/

/-- The loop comes to the recipient: not finished with, not dropped, the context alive. -/
def Reached (prep : Prepared) (input : SendInput) (r : String) : Prop :=
  finishedIn prep.history r = false ∧ r ∉ prep.dropped ∧ input.ctxErr r = none

theorem deliverTo_skipped (skipped : finishedIn prep.history r = true ∨ r ∈ prep.dropped) :
    deliverTo P tenantID messageID req prep input r = ⟨[], false, none⟩ := by
  rw [deliverTo]
  split
  · rfl
  next undelivered =>
    rcases skipped with finished | dropped
    · simp only [finishedIn, undelivered, Bool.false_or] at finished
      simp [finished]
    · simp [dropped]

theorem deliverTo_cancelled {err : String} (unfinished : finishedIn prep.history r = false)
    (kept : r ∉ prep.dropped) (cancelled : input.ctxErr r = some err) :
    deliverTo P tenantID messageID req prep input r = ⟨[], false, some err⟩ := by
  obtain ⟨undelivered, unsettled⟩ := Bool.or_eq_false_iff.mp unfinished
  simp [deliverTo, undelivered, unsettled, kept, cancelled]

theorem deliverTo_reached (reached : Reached prep input r) :
    deliverTo P tenantID messageID req prep input r =
      tryProviders P tenantID messageID req prep.content input r 0 none prep.providers := by
  obtain ⟨unfinished, kept, alive⟩ := reached
  obtain ⟨undelivered, unsettled⟩ := Bool.or_eq_false_iff.mp unfinished
  simp [deliverTo, undelivered, unsettled, kept, alive]

theorem turn_cases (prep : Prepared) (input : SendInput) (r : String) :
    (finishedIn prep.history r = true ∨ r ∈ prep.dropped) ∨
      (∃ err, finishedIn prep.history r = false ∧ r ∉ prep.dropped ∧ input.ctxErr r = some err) ∨
      Reached prep input r := by
  by_cases skipped : finishedIn prep.history r = true ∨ r ∈ prep.dropped
  · exact .inl skipped
  · obtain ⟨unfinished, kept⟩ := not_or.mp skipped
    rw [Bool.not_eq_true] at unfinished
    cases alive : input.ctxErr r with
    | some err => exact .inr (.inl ⟨err, unfinished, kept, rfl⟩)
    | none => exact .inr (.inr ⟨unfinished, kept, alive⟩)

theorem mem_deliverTo (mem : x ∈ (deliverTo P tenantID messageID req prep input r).effects) :
    Reached prep input r ∧ ∃ p attempt,
      x ∈ attemptEffects P tenantID messageID req prep.content r p attempt ∧
        ∀ sent delivered, attempt = .accepted sent delivered →
          acceptance input r 0 prep.providers = some delivered := by
  rcases turn_cases prep input r with skipped | ⟨err, unfinished, kept, cancelled⟩ | reached
  · rw [deliverTo_skipped P skipped] at mem
    cases mem
  · rw [deliverTo_cancelled P unfinished kept cancelled] at mem
    cases mem
  · rw [deliverTo_reached P reached] at mem
    exact ⟨reached, (tryProviders_ends P prep.providers 0 none).effects x mem⟩

theorem deliverTo_recipient (issued : P.isUUID messageID = true)
    (normal : P.unicode.normal r = r) (named : r ≠ "")
    (mem : x ∈ (deliverTo P tenantID messageID req prep input r).effects) : x.recipient = r := by
  obtain ⟨_, p, attempt, effect, _⟩ := mem_deliverTo P mem
  exact attemptEffects_recipient P issued normal named effect

theorem deliverTo_sent_iff : (deliverTo P tenantID messageID req prep input r).sent = true ↔
      Reached prep input r ∧ ∃ delivered, acceptance input r 0 prep.providers = some delivered := by
  have answered (reached : Reached prep input r) :
      (deliverTo P tenantID messageID req prep input r).sent = true ↔
        ∃ delivered, acceptance input r 0 prep.providers = some delivered := by
    rw [deliverTo_reached P reached, (tryProviders_ends P prep.providers 0 none).sent,
      Option.isSome_iff_exists]
  refine ⟨fun sent => ?_, fun ⟨reached, taken⟩ => (answered reached).mpr taken⟩
  rcases turn_cases prep input r with skipped | ⟨err, unfinished, kept, cancelled⟩ | reached
  · rw [deliverTo_skipped P skipped] at sent
    cases sent
  · rw [deliverTo_cancelled P unfinished kept cancelled] at sent
    cases sent
  · exact ⟨reached, (answered reached).mp sent⟩

theorem deliverTo_records (issued : P.isUUID messageID = true) (normal : P.unicode.normal r = r)
    (named : r ≠ "") (reached : Reached prep input r) {delivered : RecordAnswer}
    (taken : acceptance input r 0 prep.providers = some delivered)
    (stored : enqueue delivered.queue = .ok ()) :
    ∃ e, event e ∈ (deliverTo P tenantID messageID req prep input r).effects ∧
      e.type = .delivered ∧ e.recipient = r := by
  rw [deliverTo_reached P reached]
  obtain ⟨p, sent, within⟩ := (tryProviders_ends P prep.providers 0 none).accepts delivered taken
  have recorded : ∃ e, event e ∈ recordEvent P tenantID p.id messageID .delivered r
      prep.content.subject "" delivered ∧ e.tenantID = tenantID ∧ e.messageID = messageID ∧
      e.recipient = P.unicode.normal r ∧ e.type = recordedType P .delivered "" :=
    recordEvent_written P issued (normal.symm ▸ named) stored
  obtain ⟨e, written, _, _, recipient, type⟩ := recorded
  refine ⟨e, within _ (mem_cons_of_mem _ (mem_append_right _ written)), type,
    recipient.trans normal⟩

/-! ### Recipients dropped on the way -/

section
variable {subject : String} {recipients : List String} {finished : String → Bool}
  {dropped : List String} {drops : List Effect}

def lookupKeys (recipients : List String) (finished : String → Bool) : List String :=
  (recipients.filter fun r => !finished r).map (suppressionKeyOf P)

section
variable
  (found : dropSuppressedAtDelivery P tenantID messageID subject recipients finished input =
    .ok (dropped, drops))
include found

/-- The recipients dropped, each with the reason the lookup gives it, and their events. -/
theorem dropSuppressed_hits : ∃ hits : List (String × String), dropped = hits.map Prod.fst ∧
      (drops = hits.flatMap fun hit => recordEvent P tenantID "" messageID .dropped hit.1 subject
        hit.2 (input.dropRecord hit.1)) ∧
      ∀ r, (∃ reason, (r, reason) ∈ hits) ↔ r ∈ recipients ∧ finished r = false ∧
        ∃ query, input.suppressions = some query ∧
          LookupFinds P tenantID (lookupKeys P recipients finished) query
            (suppressionKeyOf P r) := by
  simp only [dropSuppressedAtDelivery] at found
  cases repo : input.suppressions with
  | none =>
    rw [repo] at found
    cases found
    exact ⟨[], rfl, rfl, by simp⟩
  | some query =>
    rw [repo] at found
    cases looked : suppressionsFor P tenantID (lookupKeys P recipients finished) query with
    | error =>
      simp only [lookupKeys] at looked
      simp only [looked] at found
      cases found
    | ok =>
      have finds := reasonFor_iff P looked
      simp only [lookupKeys] at looked
      simp only [looked, Except.ok.injEq, Prod.mk.injEq] at found
      refine ⟨_, found.1.symm, found.2.symm, fun r => ?_⟩
      simp only [Option.some.injEq, exists_eq_left', ← finds (suppressionKeyOf P r)]
      simp [and_assoc]

theorem mem_dropped : r ∈ dropped ↔ r ∈ recipients ∧ finished r = false ∧
      ∃ query, input.suppressions = some query ∧
        LookupFinds P tenantID (lookupKeys P recipients finished) query (suppressionKeyOf P r) := by
  obtain ⟨hits, rfl, _, spec⟩ := dropSuppressed_hits P found
  simp [← spec r]

theorem drops_spec :
    (∀ x ∈ drops, ∃ r ∈ dropped, ∃ reason, x ∈ recordEvent P tenantID "" messageID .dropped r
      subject reason (input.dropRecord r)) ∧
    ∀ r ∈ dropped, ∃ reason, ∀ x ∈ recordEvent P tenantID "" messageID .dropped r subject reason
      (input.dropRecord r), x ∈ drops := by
  obtain ⟨hits, rfl, rfl, _⟩ := dropSuppressed_hits P found
  constructor
  · intro x mem
    obtain ⟨hit, listed, recorded⟩ := mem_flatMap.mp mem
    exact ⟨hit.1, mem_map_of_mem listed, hit.2, recorded⟩
  · intro r mem
    obtain ⟨hit, listed, rfl⟩ := mem_map.mp mem
    exact ⟨hit.2, fun x recorded => mem_flatMap.mpr ⟨hit, listed, recorded⟩⟩

end

end

/-! ### Copies handed over in a pass -/

theorem drops_no_send {subject : String} {recipients : List String} {finished : String → Bool}
    {dropped : List String} {drops : List Effect}
    (found : dropSuppressedAtDelivery P tenantID messageID subject recipients finished input =
      .ok (dropped, drops)) : send copy err ∉ drops := by
  intro mem
  obtain ⟨r, _, reason, recorded⟩ := (drops_spec P found).1 _ mem
  exact recordEvent_no_send P recorded

/-- Every copy a pass hands over comes from the turn of its recipient, with the content the
pass rendered. -/
theorem mem_sendEmail_send
    (mem : send copy err ∈ (sendEmail P tenantID messageID req input).1) :
    ∃ prep : Prepared, prep.Found P tenantID messageID req input ∧
      copy.recipient ∈ prep.recipients ∧ Reached prep input copy.recipient ∧
      (⟨copy.subject, copy.html, copy.text⟩ : Content) = prep.content ∧
      (err = none → ∃ delivered, acceptance input copy.recipient 0 prep.providers =
        some delivered) ∧
      ∀ x ∈ (deliverTo P tenantID messageID req prep input copy.recipient).effects,
        x ∈ (sendEmail P tenantID messageID req input).1 := by
  have ends := sendEmail_case P tenantID messageID req input
  generalize sendEmail P tenantID messageID req input = sent at mem ends ⊢
  cases ends with
  | refused => cases mem
  | paced _ _ found => exact absurd mem (drops_no_send P found.dropped)
  | looped prep _ found turn =>
    rcases mem_append.mp mem with drop | loop
    · exact absurd drop (drops_no_send P found.dropped)
    obtain ⟨r, listed, effect⟩ := mem_flatMap.mp loop
    obtain ⟨reached, p, attempt, attempted, accepts⟩ := mem_deliverTo P effect
    obtain ⟨rfl, content, answered⟩ := attemptEffects_copy P attempted
    refine ⟨prep, found, listed, reached, content, fun none => ?_, fun x turn => ?_⟩
    · obtain ⟨first, delivered, same⟩ := answered none
      exact ⟨delivered, accepts first delivered same⟩
    · exact mem_append_right _ (mem_flatMap.mpr ⟨copy.recipient, listed, turn⟩)

theorem mem_sendEmail_event (mem : event e ∈ (sendEmail P tenantID messageID req input).1) :
    ∃ prep : Prepared, prep.Found P tenantID messageID req input ∧
      (e.type = .dropped ∨ ∃ r ∈ prep.recipients,
        event e ∈ (deliverTo P tenantID messageID req prep input r).effects) := by
  have ends := sendEmail_case P tenantID messageID req input
  generalize sendEmail P tenantID messageID req input = sent at mem ends
  have drop {prep : Prepared} (found : prep.Found P tenantID messageID req input)
      (listed : event e ∈ prep.drops) : e.type = .dropped := by
    obtain ⟨r, _, reason, recorded⟩ := (drops_spec P found.dropped).1 _ listed
    have type := recordEvent_type P recorded
    rwa [recordedType_of_settled P rfl] at type
  cases ends with
  | refused => cases mem
  | paced prep _ found => exact ⟨prep, found, .inl (drop found mem)⟩
  | looped prep _ found =>
    rcases mem_append.mp mem with dropped | loop
    · exact ⟨prep, found, .inl (drop found dropped)⟩
    · exact ⟨prep, found, .inr (mem_flatMap.mp loop)⟩

end Panmail.Delivery
