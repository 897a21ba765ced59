import Panmail.Delivery.History

/-!
# Who is on the suppression list gets no copy

A pass looks its unfinished recipients up once, under keys it derives anew. Whoever the lookup finds
is dropped, a lookup that fails sends nothing, and the rest are tried as if the dropped had never
been addressed, but for the pace: the pass is charged for the recipients it has left.
-/
namespace Panmail.Delivery

open Text Outbox Sample List

variable (P : Platform)

def askedKeys (req : SendEmailRequest) (input : SendInput) : List String :=
  lookupKeys P (uniqueRecipients P req.audience) (finishedIn (input.history.toOption.getD []))

/-- The address of `key` is on the tenant's list whenever a statement of the lookup asks for
it. -/
def ListedWhenAsked (tenantID : String) (keys : List String)
    (query : Nat → Except String (List Suppression)) (key : String) : Prop :=
  key ≠ "" ∧ ∀ i table, query i = .ok table → key ∈ chunk (uniqueNormal P.unicode [] keys) i →
    ∃ s ∈ table, s.tenantID = tenantID ∧ s.email = key

/-- The lookup is answered and does not find `key`. -/
def Unlisted (tenantID : String) (keys : List String)
    (query : Nat → Except String (List Suppression)) (key : String) : Prop :=
  (∃ reasons, suppressionsFor P tenantID keys query = .ok reasons) ∧
    ¬LookupFinds P tenantID keys query key

/-- The same pass, finding another suppression list. -/
def SendInput.listing (input : SendInput) (query : Nat → Except String (List Suppression)) :
    SendInput :=
  { input with suppressions := some query }

section
variable {P} {tenantID messageID : String} {req : SendEmailRequest} {input : SendInput}
  {query other : Nat → Except String (List Suppression)} {prep : Prepared} {x : String}

/-! ### What the lookup decides -/

theorem askedKeys_eq (found : prep.Found P tenantID messageID req (input.listing query)) :
    lookupKeys P prep.recipients (finishedIn prep.history) = askedKeys P req input := by
  have history : input.history = .ok prep.history := found.history
  rw [askedKeys, history, found.recipients]
  rfl

theorem lookup_answered (found : prep.Found P tenantID messageID req (input.listing query)) :
    ∃ reasons, suppressionsFor P tenantID (askedKeys P req input) query = .ok reasons := by
  have dropped := found.dropped
  have asked := askedKeys_eq found
  rw [lookupKeys] at asked
  simp only [dropSuppressedAtDelivery, SendInput.listing, asked] at dropped
  split at dropped
  · cases dropped
  next reasons answered => exact ⟨reasons, answered⟩

section
variable (commutes : ParserCommutes P)
  (found : prep.Found P tenantID messageID req (input.listing query))
  (listed : P.unicode.normal x ∈ prep.recipients)
  (unfinished : finishedIn prep.history (P.unicode.normal x) = false)
include commutes found listed unfinished

/-- A recipient is dropped exactly where the lookup finds the key its address is suppressed
under. -/
theorem mem_dropped_iff : P.unicode.normal x ∈ prep.dropped ↔
      LookupFinds P tenantID (askedKeys P req input) query (suppressionKey P x) := by
  have nonempty : trimSpace x ≠ "" := by
    intro empty
    rw [found.recipients] at listed
    apply ((mem_uniqueRecipients P).mp listed).1
    rw [CaseMapping.normal, empty]
    rfl
  rw [mem_dropped P found.dropped, askedKeys_eq found, suppressionKeyOf_normal P commutes nonempty]
  constructor
  · rintro ⟨_, _, _, same, finds⟩
    cases same
    exact finds
  · intro finds
    exact ⟨listed, unfinished, query, rfl, finds⟩

theorem key_asked (named : suppressionKey P x ≠ "") :
    suppressionKey P x ∈ uniqueNormal P.unicode [] (askedKeys P req input) := by
  have nonempty : trimSpace x ≠ "" := by
    intro empty
    rw [suppressionKey, if_pos empty] at named
    exact named rfl
  have same := suppressionKeyOf_normal P commutes nonempty
  rw [mem_uniqueNormal]
  have normal := normal_suppressionKeyOf P (P.unicode.normal x)
  rw [same] at normal
  refine ⟨named, ?_, suppressionKey P x, ?_, normal⟩
  · exact not_mem_nil
  · rw [← askedKeys_eq found, lookupKeys, ← same]
    apply mem_map_of_mem
    rw [mem_filter, unfinished]
    exact ⟨listed, rfl⟩

end

/-! ### The others -/

theorem sendEmail_goes (checks : sendChecks P tenantID req input = none)
    (found : prep.Found P tenantID messageID req input)
    (turn : ∀ wait, (sendEmail P tenantID messageID req input).2 ≠ .error (.paced wait)) :
    (sendEmail P tenantID messageID req input).1 = prep.drops ++ prep.recipients.flatMap fun r =>
      (deliverTo P tenantID messageID req prep input r).effects := by
  simp only [sendEmail, checks, doSend, found.prepared] at turn ⊢
  cases paced : paceDelivery tenantID (firstSender prep.providers) prep.pending input.pace with
  | some wait =>
    simp only [paced] at turn
    exact absurd rfl (turn wait)
  | none => simp only [sendLoop_eq]

theorem handed_listing (commutes : ParserCommutes P)
    (unlisted : Unlisted P tenantID (askedKeys P req input) other (suppressionKey P x))
    (turn : ∀ wait, (sendEmail P tenantID messageID req (input.listing other)).2 ≠
      .error (.paced wait)) {copy : Copy} {err : Option String}
    (named : copy.recipient = P.unicode.normal x) (handed : Effect.send copy err ∈
      (sendEmail P tenantID messageID req (input.listing query)).1) :
    Effect.send copy err ∈ (sendEmail P tenantID messageID req (input.listing other)).1 := by
  have ends := sendEmail_case P tenantID messageID req (input.listing query)
  generalize sendEmail P tenantID messageID req (input.listing query) = sent at handed ends
  cases ends with
  | refused => cases handed
  | paced _ _ found => exact absurd handed (drops_no_send P found.dropped)
  | looped prep checks found =>
    rcases mem_append.mp handed with drop | loop
    · exact absurd drop (drops_no_send P found.dropped)
    obtain ⟨r, listed, effect⟩ := mem_flatMap.mp loop
    obtain ⟨reached, p, attempt, attempted, _⟩ := mem_deliverTo P effect
    obtain ⟨rfl, _, _⟩ := attemptEffects_copy P attempted
    rw [deliverTo_reached P reached] at effect
    obtain ⟨unfinished, _, alive⟩ := reached
    -- the other list changes who is dropped, and nothing else that the pass prepares
    obtain ⟨⟨reasons, answered⟩, absent⟩ := unlisted
    rw [← askedKeys_eq found] at answered
    obtain ⟨⟨dropped, drops⟩, lookup⟩ : ∃ all, dropSuppressedAtDelivery P tenantID messageID
        prep.content.subject prep.recipients (finishedIn prep.history) (input.listing other) = .ok all := by
      rw [lookupKeys] at answered
      simp only [dropSuppressedAtDelivery, SendInput.listing, answered]
      exact ⟨_, rfl⟩
    have same : Prepared.Found P tenantID messageID req (input.listing other)
        ⟨prep.providers, prep.content, prep.history, prep.recipients, dropped, drops⟩ :=
      ⟨found.content, found.history, found.recipients, lookup, found.providers⟩
    have kept : copy.recipient ∉ dropped := by
      rw [named] at listed unfinished ⊢
      intro gone
      exact absent ((mem_dropped_iff commutes same listed unfinished).mp gone)
    have passes : sendChecks P tenantID req (input.listing other) = none := checks
    have answers (i : Nat) : (input.listing other).attempt copy.recipient i =
        (input.listing query).attempt copy.recipient i := rfl
    have reachedToo : Reached ⟨prep.providers, prep.content, prep.history, prep.recipients, dropped,
        drops⟩ (input.listing other) copy.recipient := ⟨unfinished, kept, alive⟩
    rw [sendEmail_goes passes same turn]
    apply mem_append_right
    refine mem_flatMap.mpr ⟨copy.recipient, listed, ?_⟩
    rw [deliverTo_reached P reachedToo, tryProviders_congr P answers]
    exact effect

end

/-- Nobody whose address is on the list when the pass asks is handed to a sender, however it is
spelled; a failed lookup sends nothing; and two lists that a recipient is on neither of lead to the
same copies for it, unless a pass is told to come back. -/
theorem suppressed_never_handed (commutes : ParserCommutes P) (e : OutboxEmail)
    (req : SendEmailRequest) (reads : P.unmarshalRequest e.request = some req) (input : SendInput)
    (s : SettleInput) (query : Nat → Except String (List Suppression)) :
    (∀ x, ListedWhenAsked P e.tenantID (askedKeys P req input) query (suppressionKey P x) →
      ∀ copy err, Effect.send copy err ∈ (processEmail P e (input.listing query) s).1 →
        copy.recipient ≠ P.unicode.normal x) ∧
    (∀ cause, suppressionsFor P e.tenantID (askedKeys P req input) query = .error cause →
      ∀ copy err, Effect.send copy err ∉ (processEmail P e (input.listing query) s).1) ∧
    ∀ x other, Unlisted P e.tenantID (askedKeys P req input) query (suppressionKey P x) →
      Unlisted P e.tenantID (askedKeys P req input) other (suppressionKey P x) →
      (∀ wait, (sendEmail P e.tenantID e.id req (input.listing query)).2 ≠ .error (.paced wait)) →
      (∀ wait, (sendEmail P e.tenantID e.id req (input.listing other)).2 ≠ .error (.paced wait)) →
      ∀ copy err, copy.recipient = P.unicode.normal x →
        (Effect.send copy err ∈ (processEmail P e (input.listing query) s).1 ↔
          Effect.send copy err ∈ (processEmail P e (input.listing other) s).1) := by
  refine ⟨?_, ?_, ?_⟩
  · rintro x ⟨named, listed⟩ copy err handed same
    obtain ⟨prep, found, member, ⟨unfinished, kept, _⟩, _⟩ :=
      mem_sendEmail_send P (send_of_pass reads handed)
    rw [same] at member unfinished kept
    obtain ⟨reasons, answered⟩ := lookup_answered found
    obtain ⟨i, table, read, asked⟩ := asked_of_answered P answered
      (key_asked commutes found member unfinished named)
    -- the key was asked for and listed, so the recipient was dropped
    exact kept ((mem_dropped_iff commutes found member unfinished).mpr
      ⟨i, table, read, asked, listed i table read asked⟩)
  · intro cause failed copy err handed
    obtain ⟨prep, found, _⟩ := mem_sendEmail_send P (send_of_pass reads handed)
    obtain ⟨reasons, answered⟩ := lookup_answered found
    cases failed.symm.trans answered
  · intro x other first second turn turnToo copy err named
    constructor
    · intro handed
      have sent := handed_listing commutes second turnToo named (send_of_pass reads handed)
      exact (mem_processEmail reads).mpr (.inl sent)
    · intro handed
      have sent := handed_listing commutes first turn named (send_of_pass reads handed)
      exact (mem_processEmail reads).mpr (.inl sent)

namespace Sample

theorem mailbox_commutes (req : SendEmailRequest) : ParserCommutes (platform mailbox req) := by
  intro a
  simp only [platform, Except.toOption, Option.map_some, mailbox, normal_normal]
  split
  · exact congrArg some (by decide)
  · rfl

def bobListed (_ : Nat) : Except String (List Suppression) :=
  .ok [⟨"t", "bob@x", "unsubscribed", by decide⟩]

/-- A provider that takes one copy a minute, and a bucket that has one left. -/
def slow : EmailProvider := { provider with sendRatePerMinute := 1, sendBurst := 2 }

def slowLimiter : RateLimit.Limiter :=
  (RateLimit.Limiter.new.reserveAll [⟨egressBucketKey "t" "p", ⟨1, 2⟩⟩] 1 0).limiter

def slowSend : SendInput :=
  { send [] fun _ => none with cached := .ok [slow], pace := ⟨some (slowLimiter, 0), none, true⟩ }

end Sample

/-- `bob` is spelled with a display name and in upper case, and gets nothing. -/
theorem suppressed_never_handed_bob : Effect.send (copyTo ["a@x", " Bob <BOB@x>"] "a@x") none ∈
      (processEmail (platform mailbox (request ["a@x", " Bob <BOB@x>"])) row.toOutboxEmail
        ((send [] fun _ => none).listing bobListed) (settle [] false ["5m"])).1 ∧
    ∀ copy err, Effect.send copy err ∈
      (processEmail (platform mailbox (request ["a@x", " Bob <BOB@x>"])) row.toOutboxEmail
        ((send [] fun _ => none).listing bobListed) (settle [] false ["5m"])).1 →
      copy.recipient ≠ "bob <bob@x>" := by
  refine ⟨by decide, ?_⟩
  have safe := suppressed_never_handed (platform mailbox (request ["a@x", " Bob <BOB@x>"]))
    (mailbox_commutes _) row.toOutboxEmail (request ["a@x", " Bob <BOB@x>"]) rfl
    (send [] fun _ => none) (settle [] false ["5m"]) bobListed
  have key : suppressionKey (platform mailbox (request ["a@x", " Bob <BOB@x>"]))
      " Bob <BOB@x>" = "bob@x" := by decide
  have spelled : CaseMapping.ascii.normal " Bob <BOB@x>" = "bob <bob@x>" := by decide
  refine safe.1 " Bob <BOB@x>" ⟨by rw [key]; decide, fun i table read _ => ?_⟩
  rw [key]
  cases read
  exact ⟨_, mem_cons_self, rfl, rfl⟩

/-- With `bob` on the list the pass goes to `a`; otherwise it is told to come back in a minute. -/
theorem pace_counts_co_recipients :
    suppressionsFor (platform mailbox (request ["a@x", "bob@x"])) "t"
      (askedKeys (platform mailbox (request ["a@x", "bob@x"])) (request ["a@x", "bob@x"]) slowSend)
      bobListed = .ok [("bob@x", "unsubscribed")] ∧
    suppressionsFor (platform mailbox (request ["a@x", "bob@x"])) "t"
      (askedKeys (platform mailbox (request ["a@x", "bob@x"])) (request ["a@x", "bob@x"]) slowSend)
      (fun _ => .ok []) = .ok [] ∧ Effect.send (copyTo ["a@x", "bob@x"] "a@x") none ∈
      (processEmail (platform mailbox (request ["a@x", "bob@x"])) row.toOutboxEmail
        (slowSend.listing bobListed) (settle [] false ["5m"])).1 ∧
    (processEmail (platform mailbox (request ["a@x", "bob@x"])) row.toOutboxEmail
      (slowSend.listing fun _ => .ok []) (settle [] false ["5m"])).1 = [] := by
  refine ⟨?_, ?_, ?_, ?_⟩
  all_goals decide +kernel

end Panmail.Delivery
