import Panmail.Events.Keys
import Panmail.Filters.Rule

/-!
# Processing an inbound message

`Process` skips a message the inbound store holds, records the bounces a delivery report proves,
screens the message, stores it and announces it. The poller calls it with one message again and
again. A rejected message is recorded and not stored, so the next call does not know it.
-/
namespace Panmail.Inbound

open ByteStrings KeyValue Text Delivery Filters List
open Events (colon descendingTimestamp)

/-! ### The inbound store -/

structure InboundEmail where
  id : String
  tenantID : String
  from_ : String
  to_ : List String
  subject : String
  bodyHTML : String
  bodyText : String
  /-- Nanoseconds since 1970. -/
  timestamp : Option Int
  headers : List (String × String)
  deriving DecidableEq

/-- `entities.InboundEmail`, whose time is always set. -/
structure StoredEmail where
  email : InboundEmail
  timestamp : Int

inductive InboundRow where
  /-- The JSON of the message. -/
  | email (e : StoredEmail)
  | index (tsDesc : Bytes)

abbrev InboundDB := Store Bytes InboundRow

def inboundKey (tenantID : String) (tsDesc : Bytes) (id : String) : Bytes :=
  utf8 "inbound:" ++ (utf8 tenantID ++ colon :: (tsDesc ++ colon :: utf8 id))

def indexKey (tenantID id : String) : Bytes :=
  utf8 "inbound_idx:" ++ (utf8 tenantID ++ colon :: utf8 id)

namespace InboundDB

/-- `Write`, of a store that is open. -/
def write (db : InboundDB) (e : StoredEmail) : InboundDB :=
  let tsDesc := descendingTimestamp e.timestamp
  db.commit [.set (inboundKey e.email.tenantID tsDesc e.email.id) (.email e),
    .set (indexKey e.email.tenantID e.email.id) (.index tsDesc)]

/-- `GetByID`: an error where the index names no message. -/
def getByID (db : InboundDB) (tenantID id : String) : Except Unit (Option StoredEmail) :=
  match db.get (indexKey tenantID id) with
  | none => .ok none
  | some (.email _) => .error ()
  | some (.index tsDesc) =>
    match db.get (inboundKey tenantID tsDesc id) with
    | some (.email e) => .ok (some e)
    | _ => .error ()

def holds (db : InboundDB) (tenantID id : String) : Bool :=
  match db.getByID tenantID id with
  | .ok (some _) => true
  | _ => false

theorem inboundKey_ne_indexKey (tenantID other : String) (tsDesc : Bytes) (id also : String) :
    inboundKey tenantID tsDesc id ≠ indexKey other also := by
  intro same
  have eighth := congrArg (fun k : Bytes => k[7]?) same
  simp only [inboundKey, indexKey] at eighth
  rw [getElem?_append_left (by decide), getElem?_append_left (by decide)] at eighth
  exact absurd eighth (by decide)

theorem holds_write (db : InboundDB) (e : StoredEmail) :
    (db.write e).holds e.email.tenantID e.email.id = true := by
  have index : (db.write e).get (indexKey e.email.tenantID e.email.id) =
      some (.index (descendingTimestamp e.timestamp)) := by
    simp [write, Store.commit, get_apply, Op.key, Op.value]
  have row : (db.write e).get (inboundKey e.email.tenantID (descendingTimestamp e.timestamp)
      e.email.id) = some (.email e) := by
    simp [write, Store.commit, get_apply, Op.key, Op.value, inboundKey_ne_indexKey]
  rw [holds, getByID, index]
  simp only [row]

end InboundDB

/-! ### Bounces -/

structure ReportedRecipient where
  address : String
  action : String
  status : String
  diagnostic : String

structure DeliveryReport where
  recipients : List ReportedRecipient
  /-- By canonical name. -/
  returnedHeaders : List (String × List String)

structure Usecase where
  /-- `VerifyBounceRef` of a signer with a key: the message a reference was made for, from the
  reference, the tenant and the recipient. -/
  verifyBounceRef : Option (String → String → String → Option String)
  caseMapping : CaseMapping
  /-- `bareAddress`, over the address parser of the standard library. -/
  bareAddress : String → String
  /-- There is a `webhookTrigger`. -/
  announces : Bool

/-- What a rule decided. No action is the empty one. -/
structure Decision where
  action : Option RuleAction
  ruleID : String
  ruleName : String

/-- One call of `Process`, with what the stores answer it. -/
structure Call where
  email : InboundEmail
  report : Option DeliveryReport
  now : Int
  /-- `Screen`: `none` without a screener, an error where the rules could not be read. -/
  screening : Option (Except String Decision)
  /-- `ListByMessageID`, of a tenant and a message; `none` is an error. -/
  listByMessageID : String → String → Option (List EmailEvent)
  lookupFails : Bool
  writeFails : Bool
  recordFails : Bool

inductive Effect where
  /-- `RecordEvent`, for a bounce. -/
  | bounce (tenantID messageID : String) (type : EventType) (recipient diagnostic subject
      inboundID dsnStatus : String)
  /-- A record in the review queue. -/
  | review (tenantID messageID payloadRef : String) (action : RuleAction) (ruleID ruleName : String)
  /-- `MAIL_INBOUND`. -/
  | webhook (tenantID : String) (email : InboundEmail)
  deriving DecidableEq

def Effect.isBounce : Effect → Bool
  | .bounce .. => true
  | _ => false

def Effect.isReview : Effect → Bool
  | .review .. => true
  | _ => false

def Effect.isWebhook : Effect → Bool
  | .webhook .. => true
  | _ => false

/-- `strings.HasPrefix` with one character. -/
def startsWith (s : String) (c : Char) : Bool := s.toList.head? = some c

def reportedEventType (m : CaseMapping) (r : ReportedRecipient) : Option EventType :=
  if r.action ∈ ["delivered", "relayed", "expanded"] then none
  else if r.action = "delayed" || startsWith r.status '4' then some .softBounce
  else if r.action ≠ "failed" && !startsWith r.status '5' then some .bounced
  else if (classifyError m r.status).type = .hardBounce then some .hardBounce
  else
    let type := (classifyError m (trimSpace (r.diagnostic ++ " " ++ r.status))).type
    if type ∈ [EventType.hardBounce, .softBounce, .rejected] then some type else some .bounced

/-- `wasSentTo`. A store that cannot be read counts as no. -/
def wasSentTo (u : Usecase) (c : Call) (tenantID messageID address : String) : Bool :=
  (c.listByMessageID tenantID messageID).any fun events => events.any fun e =>
    (e.type = .sent || e.type = .delivered) && e.tenantID = tenantID &&
      u.bareAddress e.recipient = address

/-- The loop of `recordBounce` over one recipient of the report. -/
def bounceOf (u : Usecase) (c : Call) (verify : String → String → String → Option String)
    (refs : List String) (rcpt : ReportedRecipient) : Option Effect :=
  (reportedEventType u.caseMapping rcpt).bind fun type =>
    match refs.findSome? fun ref => verify ref c.email.tenantID rcpt.address with
    | none | some "" => none
    | some messageID =>
      if wasSentTo u c c.email.tenantID messageID rcpt.address then
        some (.bounce c.email.tenantID messageID type rcpt.address rcpt.diagnostic c.email.subject
          c.email.id rcpt.status)
      else none

/-- `report.ReturnedHeaders.Values(tracking.BounceRefHeader)`. -/
def DeliveryReport.refs (report : DeliveryReport) : List String :=
  (report.returnedHeaders.lookup "X-Panmail-Ref").getD []

def recordBounce (u : Usecase) (c : Call) : List Effect :=
  match c.report, u.verifyBounceRef with
  | some report, some verify =>
    if report.refs = [] then []
    else report.recipients.filterMap (bounceOf u c verify report.refs)
  | _, _ => []

/-! ### The calls -/

/-- The action the message is screened with. Rules that cannot be read let it through. -/
def Call.decision (c : Call) : Option (RuleAction × Decision) :=
  match c.screening with
  | some (.ok d) => d.action.map fun action => (action, d)
  | _ => none

def Call.record (c : Call) (action : RuleAction) (d : Decision) : List Effect :=
  if c.recordFails then []
  else [.review c.email.tenantID c.email.id c.email.id action d.ruleID d.ruleName]

def Call.stored (c : Call) : StoredEmail := ⟨c.email, c.email.timestamp.getD c.now⟩

/-- The end of `Process`, after what screening recorded. -/
def deliver (u : Usecase) (db : InboundDB) (c : Call) (before : List Effect) :
    InboundDB × List Effect × Bool :=
  if c.writeFails then (db, before, false)
  else (db.write c.stored,
    before ++ (if u.announces then [.webhook c.email.tenantID c.email] else []), true)

/-- `Process`: the store after it, its effects in order, and whether it returned without an
error. -/
def process (u : Usecase) (db : InboundDB) (c : Call) : InboundDB × List Effect × Bool :=
  if c.email.id ≠ "" && !c.lookupFails && db.holds c.email.tenantID c.email.id then (db, [], true)
  else
    let bounces := recordBounce u c
    match c.decision with
    | some (.reject, d) => (db, bounces ++ c.record .reject d, true)
    | some (.hold, d) =>
      if c.writeFails then (db, bounces, false)
      else (db.write c.stored, bounces ++ c.record .hold d, true)
    | some (.tag, d) => deliver u db c (bounces ++ c.record .tag d)
    | some _ | none => deliver u db c bounces

def processAll (u : Usecase) : InboundDB → List Call → List (List Effect)
  | _, [] => []
  | db, c :: rest => (process u db c).2.1 :: processAll u (process u db c).1 rest

/-! ### Once for a message -/

def Call.Carries (tenantID id : String) (c : Call) : Prop :=
  c.email.tenantID = tenantID ∧ c.email.id = id

def Call.Answered (c : Call) : Prop :=
  c.lookupFails = false ∧ c.writeFails = false ∧ c.recordFails = false

def Call.rejects (c : Call) : Bool :=
  match c.decision with
  | some (.reject, _) => true
  | _ => false

def Call.reviewed (c : Call) : Bool :=
  match c.decision with
  | some (.reject, _) | some (.hold, _) | some (.tag, _) => true
  | _ => false

def Call.bounces (u : Usecase) (c : Call) : Bool := recordBounce u c ≠ []

/-- The calls up to the first that is not rejected, which stores the message. -/
def unstored : List Call → List Call
  | [] => []
  | c :: rest => if c.rejects then c :: unstored rest else [c]

open Effect Call

/-- What calls with one message do at most once. -/
structure Once (effects : List (List Effect)) : Prop where
  bounces : effects.countP (fun call => call.any Effect.isBounce) ≤ 1
  reviews : effects.flatten.countP Effect.isReview ≤ 1
  webhooks : effects.flatten.countP Effect.isWebhook ≤ 1

section
variable {u : Usecase} {db : InboundDB} {c : Call} {tenantID id : String} {calls : List Call}

theorem isBounce_of_recordBounce {e : Effect} (mem : e ∈ recordBounce u c) : e.isBounce = true := by
  unfold recordBounce at mem
  split at mem
  next report verify _ _ =>
    split at mem
    · cases mem
    obtain ⟨rcpt, _, found⟩ := mem_filterMap.mp mem
    obtain ⟨type, _, rest⟩ := Option.bind_eq_some_iff.mp found
    repeat' split at rest
    all_goals cases rest
    rfl
  next => cases mem

theorem countP_recordBounce (P : Effect → Bool) (other : ∀ e, e.isBounce = true → P e = false) :
    (recordBounce u c).countP P = 0 :=
  countP_eq_zero.mpr fun e mem holds => by
    rw [other e (isBounce_of_recordBounce mem)] at holds
    cases holds

/-- What a call does beside the bounces, when it does not find the message. -/
def Call.rest (u : Usecase) (c : Call) : List Effect :=
  match c.decision with
  | some (.reject, d) => c.record .reject d
  | some (.hold, d) => c.record .hold d
  | some (.tag, d) => c.record .tag d ++ if u.announces then [.webhook c.email.tenantID c.email] else []
  | some _ | none => if u.announces then [.webhook c.email.tenantID c.email] else []

theorem process_unstored (answered : c.Answered)
    (absent : db.holds c.email.tenantID c.email.id = false) : process u db c =
      (if c.rejects then db else db.write c.stored, recordBounce u c ++ c.rest u, true) := by
  obtain ⟨_, writes, _⟩ := answered
  unfold process rejects rest deliver
  rw [absent, Bool.and_false, if_neg Bool.false_ne_true, writes]
  cases c.decision with
  | none => rfl
  | some decided =>
    obtain ⟨action, d⟩ := decided
    cases action with
    | tag => simp only [Bool.false_eq_true, if_false, append_assoc]
    | hold | reject | allow | unknown text => rfl

theorem rest_isBounce : (c.rest u).any isBounce = false := by
  unfold rest record
  cases c.decision with
  | none => cases u.announces <;> rfl
  | some decided =>
    obtain ⟨action, d⟩ := decided
    cases action <;> cases c.recordFails <;> cases u.announces <;> rfl

theorem countP_rest_isReview (answered : c.Answered) :
    (c.rest u).countP isReview = if c.reviewed then 1 else 0 := by
  unfold rest record reviewed
  rw [answered.2.2]
  cases c.decision with
  | none => cases u.announces <;> rfl
  | some decided =>
    obtain ⟨action, d⟩ := decided
    cases action <;> cases u.announces <;> rfl

theorem countP_rest_isWebhook (answered : c.Answered) :
    (c.rest u).countP isWebhook ≤ if c.rejects then 0 else 1 := by
  unfold rest record rejects
  rw [answered.2.2]
  cases c.decision with
  | none => cases u.announces <;> simp [isWebhook]
  | some decided =>
    obtain ⟨action, d⟩ := decided
    cases action <;> cases u.announces <;> simp [isWebhook]

theorem process_stored (named : id ≠ "") (carries : c.Carries tenantID id) (answered : c.Answered)
    (stored : db.holds tenantID id = true) : process u db c = (db, [], true) := by
  unfold process
  rw [carries.1, carries.2, stored, answered.1]
  simp [named]

theorem processAll_stored (named : id ≠ "")
    (all : ∀ c ∈ calls, c.Carries tenantID id ∧ c.Answered) (stored : db.holds tenantID id = true) :
    (processAll u db calls).countP (fun call => call.any isBounce) = 0 ∧
      (processAll u db calls).flatten = [] := by
  induction calls with
  | nil => exact ⟨rfl, rfl⟩
  | cons c _ ih =>
    have first := all c mem_cons_self
    have next := ih fun c mem => all c (mem_cons_of_mem _ mem)
    rw [processAll, process_stored named first.1 first.2 stored]
    exact next

/-- What is done for a message that is not stored yet. -/
structure Counted (u : Usecase) (calls : List Call) (effects : List (List Effect)) : Prop where
  bounces : effects.countP (fun call => call.any Effect.isBounce) =
    (unstored calls).countP (Call.bounces u)
  reviews : effects.flatten.countP Effect.isReview = (unstored calls).countP Call.reviewed
  webhooks : effects.flatten.countP Effect.isWebhook ≤ 1

theorem any_recordBounce : (recordBounce u c ++ c.rest u).any isBounce = c.bounces u := by
  rw [any_append, rest_isBounce, Bool.or_false, bounces]
  cases found : recordBounce u c with
  | nil => rfl
  | cons e =>
    have first : e.isBounce = true :=
      isBounce_of_recordBounce (found ▸ mem_cons_self : e ∈ recordBounce u c)
    simp [first]

theorem processAll_counted (named : id ≠ "")
    (all : ∀ c ∈ calls, c.Carries tenantID id ∧ c.Answered)
    (absent : db.holds tenantID id = false) : Counted u calls (processAll u db calls) := by
  induction calls with
  | nil => exact ⟨rfl, rfl, Nat.zero_le 1⟩
  | cons c rest ih =>
    obtain ⟨carries, answered⟩ := all c mem_cons_self
    have others : ∀ c ∈ rest, c.Carries tenantID id ∧ c.Answered :=
      fun c mem => all c (mem_cons_of_mem _ mem)
    have reviews : (recordBounce u c ++ c.rest u).countP isReview =
        if c.reviewed then 1 else 0 := by
      rw [countP_append, countP_rest_isReview answered,
        countP_recordBounce _ (fun e holds => by cases e <;> first | rfl | cases holds), Nat.zero_add]
    have webhooks : (recordBounce u c ++ c.rest u).countP isWebhook ≤
        if c.rejects then 0 else 1 := by
      rw [countP_append,
        countP_recordBounce _ (fun e holds => by cases e <;> first | rfl | cases holds), Nat.zero_add]
      exact countP_rest_isWebhook answered
    have effects : processAll u db (c :: rest) = (recordBounce u c ++ c.rest u) ::
        processAll u (if c.rejects then db else db.write c.stored) rest := by
      rw [processAll, process_unstored answered (carries.1 ▸ carries.2 ▸ absent)]
    rw [effects]
    cases rejected : c.rejects with
    | true =>
      -- nothing is stored, so the next call is as this one
      have next := ih others
      have calls : unstored (c :: rest) = c :: unstored rest := if_pos rejected
      rw [rejected, if_pos rfl] at webhooks
      rw [if_pos rfl]
      constructor
      case bounces => rw [calls, countP_cons, countP_cons, any_recordBounce, next.bounces]
      case reviews =>
        rw [calls, flatten_cons, countP_append, countP_cons, next.reviews, reviews,
          Nat.add_comm]
      case webhooks =>
        have after := next.webhooks
        rw [flatten_cons, countP_append]
        omega
    | false =>
      have held : (db.write c.stored).holds tenantID id = true := by
        rw [← carries.1, ← carries.2]
        exact InboundDB.holds_write db c.stored
      have calls : unstored (c :: rest) = [c] := if_neg (by rw [rejected]; decide)
      obtain ⟨none_, flat⟩ := processAll_stored (u := u) named others held
      rw [rejected, if_neg Bool.false_ne_true] at webhooks
      rw [if_neg Bool.false_ne_true]
      constructor
      case bounces => rw [calls, countP_cons, countP_singleton, any_recordBounce, none_, Nat.zero_add]
      case reviews => rw [calls, flatten_cons, flat, append_nil, reviews, countP_singleton]
      case webhooks =>
        rw [flatten_cons, flat, append_nil]
        exact webhooks

end

/-- Whatever the rules decide, the calls with one message do each thing at most once exactly when
the message was stored before them, or of those up to the first that is not rejected at most one has
a decision for the review queue and at most one proves a bounce. -/
theorem once_iff (u : Usecase) (db : InboundDB) (tenantID id : String) (named : id ≠ "")
    {calls : List Call} (all : ∀ c ∈ calls, c.Carries tenantID id ∧ c.Answered) :
    Once (processAll u db calls) ↔ db.holds tenantID id = true ∨
      (unstored calls).countP Call.reviewed ≤ 1 ∧ (unstored calls).countP (Call.bounces u) ≤ 1 := by
  cases stored : db.holds tenantID id with
  | true =>
    obtain ⟨none_, flat⟩ := processAll_stored (u := u) named all stored
    refine ⟨fun _ => .inl rfl, fun _ => ⟨by omega, ?_, ?_⟩⟩
    · simp [flat]
    · simp [flat]
  | false =>
    have counted := processAll_counted (u := u) named all stored
    constructor
    · intro once
      exact .inr ⟨counted.reviews ▸ once.reviews, counted.bounces ▸ once.bounces⟩
    · rintro (wrong | ⟨reviews, bounces⟩)
      · cases wrong
      · exact ⟨counted.bounces ▸ bounces, counted.reviews ▸ reviews, counted.webhooks⟩

/-! ### Two ticks of the poller -/

def exampleUsecase : Usecase where
  verifyBounceRef := some fun ref _ _ => if ref = "v1.m.s" then some "m" else none
  caseMapping := .ascii
  bareAddress := id
  announces := true

/-- A delivery report for an address that the message went to, and what the rules decide. -/
def reportCall (action : Option RuleAction) : Call where
  email := ⟨"id", "tenant", "daemon@example.com", ["box@example.com"], "Undelivered", "", "", some 0, []⟩
  report := some ⟨[⟨"ana@example.com", "failed", "5.1.1", "no such user"⟩],
    [("X-Panmail-Ref", ["v1.m.s"])]⟩
  now := 0
  screening := some (.ok ⟨action, "rule", "no reports"⟩)
  listByMessageID _ _ := some [⟨"e", "tenant", "", "", "m", .sent, "ana@example.com", "", 0, ""⟩]
  lookupFails := false
  writeFails := false
  recordFails := false

theorem reportCall_carries (action : Option RuleAction) (n : Nat) :
    ∀ c ∈ List.replicate n (reportCall action), c.Carries "tenant" "id" ∧ c.Answered := by
  intro c mem
  rw [eq_of_mem_replicate mem]
  exact ⟨⟨rfl, rfl⟩, rfl, rfl, rfl⟩

/-- A tagged message: recorded, stored and announced at the first tick, and skipped at the
next two. -/
theorem once_tagged :
    Once (processAll exampleUsecase .empty (List.replicate 3 (reportCall (some .tag)))) :=
  (once_iff exampleUsecase .empty "tenant" "id" (by decide) (reportCall_carries (some .tag) 3)).mpr
    (.inr ⟨by decide, by decide +kernel⟩)

/-- What one call does with the rejected report: a bounce and a record in the review queue. -/
def recordedReport : List Effect :=
  [.bounce "tenant" "m" .hardBounce "ana@example.com" "no such user" "Undelivered" "id" "5.1.1",
    .review "tenant" "id" "id" .reject "rule" "no reports"]

theorem processAll_rejected :
    processAll exampleUsecase .empty (List.replicate 2 (reportCall (some .reject))) =
      [recordedReport, recordedReport] := by decide +kernel

/-- A rejected message, read at two ticks: the bounce is recorded in both calls and the review
queue gets two records. -/
theorem rejected_twice : ∃ u db calls,
    (∀ c ∈ calls, c.Carries "tenant" "id" ∧ c.Answered) ∧ db.holds "tenant" "id" = false ∧
    (processAll u db calls).map
      (fun call => (call.countP Effect.isBounce, call.countP Effect.isReview)) = [(1, 1), (1, 1)] ∧
    ¬ Once (processAll u db calls) := by
  refine ⟨exampleUsecase, .empty, List.replicate 2 (reportCall (some .reject)),
    reportCall_carries (some .reject) 2, by decide, ?_, fun once => ?_⟩
  · rw [processAll_rejected]
    decide
  · rw [processAll_rejected] at once
    exact absurd once.reviews (by decide)

end Panmail.Inbound
