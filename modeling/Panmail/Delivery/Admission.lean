import Panmail.Delivery.Send
import Panmail.Filters.Rule

/-!
# Admission: `SendEmail` in client mode

The checks a send has to pass, and then the writes of one that passed them all, in the order the
source makes them: the outbox row, with the idempotency key in one transaction, the copy for the
Sent folder, the stored message, and a PENDING event for each recipient. Any of these may fail, in
which case it writes nothing, and other calls write to the same stores all the while. Every refusal
comes before the row and every write about the new message after it.
-/
namespace Panmail.Delivery

open Text Tables Outbox Idempotency Filters List OutboxRow

/-! ### The stores -/

structure SentCopy where
  tenantID : String
  messageID : String
  request : SendEmailRequest

structure Stores where
  outbox : OutboxTable
  keys : KeyTable
  copies : List SentCopy
  messages : List EmailMessage
  events : List EmailEvent

structure About where
  rows : List OutboxRow
  keys : List IdempotencyKey
  copies : List SentCopy
  messages : List EmailMessage
  pending : List EmailEvent

def About.nothing : About := ⟨[], [], [], [], []⟩

def Stores.about (db : Stores) (id : String) : About where
  rows := db.outbox.rows.filter fun r => r.id = id
  keys := db.keys.rows.filter fun k => k.messageID = id
  copies := db.copies.filter fun c => c.messageID = id
  messages := db.messages.filter fun m => m.id = id
  pending := db.events.filter fun e => e.type = .pending && e.messageID = id

inductive CreateError where
  /-- `ErrIdempotencyKeyTaken`. -/
  | taken
  | failed (err : String)

structure TxFaults where
  begin_ : Option String
  deleteExpired : Option String
  insertKey : Option String
  rowsAffected : Option String
  insertRow : Option String
  commit : Option String

def Stores.create (db : Stores) (email : OutboxEmail) (fault : Option String) :
    Except CreateError Stores :=
  match fault with
  | some err => .error (.failed err)
  | none =>
    match db.outbox.insert? (OutboxRow.new email) with
    | none => .error (.failed "duplicate key")
    | some outbox => .ok { db with outbox }

/-- `CreateWithIdempotencyKey`. An error rolls the transaction back: the stores are as before. -/
def Stores.createWithIdempotencyKey (db : Stores) (email : OutboxEmail) (key : IdempotencyKey)
    (liveSince : Time) (faults : TxFaults) : Except CreateError Stores :=
  match faults.begin_, faults.deleteExpired, faults.insertKey, faults.rowsAffected with
  | some err, _, _, _ | none, some err, _, _ | none, none, some err, _ | none, none, none, some err =>
    .error (.failed err)
  | none, none, none, none =>
    match (deleteExpired db.keys key.tenantID key.key liveSince).insert? key with
    | none => .error .taken
    | some keys =>
      match faults.insertRow with
      | some err => .error (.failed err)
      | none =>
        match db.outbox.insert? (OutboxRow.new email), faults.commit with
        | none, _ => .error (.failed "duplicate key")
        | some _, some err => .error (.failed err)
        | some outbox, none => .ok { db with outbox, keys }

/-! ### A call -/

/-- `emailfilter.Decision`; no action means that no rule matched. -/
structure Decision where
  action : Option RuleAction
  ruleName : String

structure CopyInput where
  /-- The tenant's setting: whether copies are made. -/
  settings : Except String Bool
  marshal : Option String
  enqueue : Option String

structure AdmitInput where
  /-- A refusal by the checks of the ids, the attachments and the reply headers. -/
  refusal : Option String
  provider : Except String (Option EmailProvider)
  hash : Except String String
  /-- The clock and the error of the first read of the key, and of the one after a lost race. -/
  replayAt : Time
  replayFails : Option String
  raceAt : Time
  raceFails : Option String
  rate : Option String
  messageID : String
  /-- The suppression lookup, where there is a repository. -/
  suppressions : Option (Nat → Except String (List Suppression))
  dropRecord : RecordAnswer
  template : Except String (Option Template)
  render : Renderer
  /-- `Screen`, where there is a screener. -/
  screen : Option (Except String Decision)
  rejectRecord : String → RecordAnswer
  /-- `protojson.Marshal` of the request. -/
  marshal : Except String String
  now : Time
  createFault : Option String
  txFaults : TxFaults
  saveSentCopy : Bool
  /-- The Sent copies queue, where there is one. -/
  sentCopies : Option CopyInput
  saveMessage : Option String
  pendingRecord : String → RecordAnswer
  /-- What other calls do to the stores before the `n`-th operation of this one. -/
  others : Nat → Stores → Stores

/-- An operation of a call on a store that it writes. -/
inductive StoreCall where
  | create (email : OutboxEmail) (written : Bool)
  | enqueueCopy
  | saveMessage
  | record (type : EventType) (recipient : String)
  /-- The review queue's `Record`. -/
  | recordFiltered

def pendingCalls (calls : List StoreCall) : List String :=
  calls.filterMap fun
    | .record .pending r => some r
    | _ => none

/-- The stores as a call finds and leaves them, and its operations so far. -/
structure Progress where
  db : Stores
  calls : List StoreCall

inductive AdmitError where
  | refused (text : String)
  | send (err : SendError)
  | providerNotFound (providerID : String)
  | keyConflict (messageID : String)
  | keyInFlight
  | suppressed (recipient reason : String)
  | filtered (ruleName : String)
  deriving DecidableEq

section
variable (P : Platform) (tenantID : String) (req : SendEmailRequest) (input : AdmitInput)

def Progress.call (p : Progress) (c : StoreCall) (f : Stores → Stores) : Progress :=
  ⟨f (input.others p.calls.length p.db), p.calls ++ [c]⟩

/-- `RecordEvent`. What the suppression list takes is not among these stores. -/
def Progress.record (p : Progress) (providerID : String) (type : EventType)
    (recipient err : String) (answer : RecordAnswer) : Progress :=
  p.call input (.record type recipient) fun db => { db with events := db.events ++
    (recordEvent P tenantID providerID input.messageID type recipient "" err answer).filterMap fun
      | .event e => some e
      | _ => none }

/-- `replay`, of the keys as the other calls have left them. -/
def Progress.replay (p : Progress) (at_ : Time) (fails : Option String) (hash : String) :
    Except AdmitError (Option SendEmailResponse) :=
  match fails with
  | some err => .error (.refused ("failed to read idempotency key: " ++ err))
  | none =>
    match Idempotency.replay (getIdempotencyKey (input.others p.calls.length p.db).keys tenantID
        req.idempotencyKey (liveSince at_)) hash with
    | some (.conflict id) => .error (.keyConflict id)
    | some (.success id) => .ok (some ⟨id, .pending⟩)
    | _ => .ok none

/-- The replay of a send with a key, and its hash. -/
def Progress.replayFirst (p : Progress) : Except AdmitError (Option SendEmailResponse × String) :=
  if req.idempotencyKey = "" then .ok (none, "")
  else
    match input.hash with
    | .error err => .error (.refused ("failed to hash request: " ++ err))
    | .ok hash =>
      (p.replay tenantID req input input.replayAt input.replayFails hash).map fun res => (res, hash)

/-- The checks before the id is drawn: the answer to a repeat, or the recipients with their
suppression keys, and the hash. -/
def admissionChecks (p : Progress) :
    Except AdmitError (SendEmailResponse ⊕ List (String × String) × String) :=
  match validateSend tenantID req.toSendRequest with
  | some err => .error (.refused err)
  | none =>
    match P.parseEmailAddress req.from_ with
    | .error err => .error (.refused ("invalid from address \"" ++ req.from_ ++ "\": " ++ err))
    | .ok _ =>
      match resolveRecipients P [] req.audience with
      | .error err => .error (.refused err)
      | .ok recipients =>
        match input.refusal, input.provider with
        | some err, _ => .error (.refused err)
        | none, .error err => .error (.refused ("failed to get provider: " ++ err))
        | none, .ok none => .error (.providerNotFound req.providerID)
        | none, .ok (some provider) =>
          match p.replayFirst tenantID req input with
          | .error err => .error err
          | .ok (some res, _) => .ok (.inl res)
          | .ok (none, hash) =>
            match senderAddress P req.from_ with
            | .error err => .error (.refused err)
            | .ok sender =>
              if (matchAddress P provider.allowedSenders sender).allowed = false then
                .error (.send (.senderRefused provider.name sender))
              else
                match input.rate with
                | some err => .error (.refused err)
                | none => .ok (.inr (recipients, hash))

def AdmitInput.suppressed (recipients : List (String × String)) :
    Except String (List (String × String)) :=
  match input.suppressions with
  | none => .ok []
  | some query => suppressionsFor P tenantID (recipients.map Prod.snd) query

/-- The refusals after the id is drawn: the content to queue and its status, unless the message is
refused. -/
def screenSend (recipients : List (String × String)) (p : Progress) :
    Progress × Except AdmitError (Content × OutboxStatus) :=
  match input.suppressed P tenantID recipients with
  | .error err => (p, .error (.refused err))
  | .ok reasons =>
    match recipients.findSome? fun r => (reasonFor reasons r.2).map fun reason => (r.1, reason) with
    | some (recipient, reason) =>
      (p.record P tenantID input "" .dropped recipient reason input.dropRecord,
        .error (.suppressed recipient reason))
    | none =>
      match renderTemplate req input.template input.render with
      | .error err => (p, .error (.send err))
      | .ok content =>
        match input.screen with
        | none => (p, .ok (content, .pending))
        | some (.error err) => (p, .error (.refused ("failed to screen message: " ++ err)))
        | some (.ok decision) =>
          match decision.action with
          | some .reject =>
            (recipients.foldl (fun p r => p.record P tenantID input req.providerID .rejected r.1
                ("filter rule: " ++ decision.ruleName) (input.rejectRecord r.1))
              (p.call input .recordFiltered id), .error (.filtered decision.ruleName))
          | some .hold => (p, .ok (content, .held))
          | some .tag => (p.call input .recordFiltered id, .ok (content, .pending))
          | _ => (p, .ok (content, .pending))

def AdmitInput.email (request : String) (status : OutboxStatus) : OutboxEmail where
  id := input.messageID
  tenantID
  request
  status
  retryCount := 0
  nextRetryAt := input.now
  lastError := ""
  createdAt := input.now
  updatedAt := input.now

/-- The outbox write, with the key if the request has one. -/
def Progress.enqueue (p : Progress) (email : OutboxEmail) (hash : String) :
    Progress × Except CreateError Unit :=
  let db := input.others p.calls.length p.db
  let result := if req.idempotencyKey = "" then db.create email input.createFault
    else db.createWithIdempotencyKey email
      ⟨tenantID, req.idempotencyKey, hash, input.messageID, input.now⟩ (liveSince input.now)
      input.txFaults
  match result with
  | .ok db' => (⟨db', p.calls ++ [.create email true]⟩, .ok ())
  | .error err => (⟨db, p.calls ++ [.create email false]⟩, .error err)

/-- `queueSentCopy`, with `Enqueue`. -/
def Progress.queueSentCopy (p : Progress) (content : Content) : Progress :=
  match input.sentCopies, input.saveSentCopy with
  | some copies, true =>
    p.call input .enqueueCopy fun db =>
      match copies.settings, copies.marshal, copies.enqueue with
      | .ok true, none, none =>
        { db with copies := db.copies ++ [⟨tenantID, input.messageID, { req with
            subject := content.subject, bodyHTML := content.html, bodyText := content.text
            templateID := "", body := "", isHTML := false, idempotencyKey := "" }⟩] }
      | _, _, _ => db
  | _, _ => p

def Progress.saveMessage (p : Progress) (content : Content) : Progress :=
  p.call input .saveMessage fun db =>
    match input.saveMessage with
    | some _ => db
    | none => { db with messages := db.messages ++
        [⟨input.messageID, req.providerID, content.subject, req.to_, req.cc, req.bcc⟩] }

/-- What an accepted send does after its row is written. -/
def Progress.announce (p : Progress) (recipients : List (String × String)) (content : Content)
    (status : OutboxStatus) : Progress :=
  let stored := (p.queueSentCopy tenantID req input content).saveMessage req input content
  let announced := recipients.foldl (fun p r => p.record P tenantID input req.providerID .pending
    r.1 "" (input.pendingRecord r.1)) stored
  if status = .held then announced.call input .recordFiltered id else announced

/-- `SendEmail` in client mode. -/
def clientSend (db : Stores) : Progress × Except AdmitError SendEmailResponse :=
  match admissionChecks P tenantID req input ⟨db, []⟩ with
  | .error err => (⟨db, []⟩, .error err)
  | .ok (.inl res) => (⟨db, []⟩, .ok res)
  | .ok (.inr (recipients, hash)) =>
    match screenSend P tenantID req input recipients ⟨db, []⟩ with
    | (p, .error err) => (p, .error err)
    | (p, .ok (content, status)) =>
      match input.marshal with
      | .error err => (p, .error (.refused ("failed to enqueue email: " ++ err)))
      | .ok request =>
        match p.enqueue tenantID req input (input.email tenantID request status) hash with
        | (p, .error .taken) =>
          -- the answer is the winner's
          (p, match p.replay tenantID req input input.raceAt input.raceFails hash with
            | .error err => .error err
            | .ok none => .error .keyInFlight
            | .ok (some res) => .ok res)
        | (p, .error (.failed err)) => (p, .error (.refused ("failed to enqueue email: " ++ err)))
        | (p, .ok ()) =>
          (p.announce P tenantID req input recipients content status,
            .ok ⟨input.messageID, .pending⟩)

end

/-! ### What a call leaves about its message -/

/-- The other calls have ids of their own, and leave this one's alone. -/
def AdmitInput.Others (input : AdmitInput) : Prop :=
  ∀ n db, (input.others n db).about input.messageID = db.about input.messageID

/-- Nothing is written about the id, and no PENDING event is attempted. -/
structure Progress.Untouched (p : Progress) (id : String) : Prop where
  about : p.db.about id = .nothing
  calls : pendingCalls p.calls = []

open Progress Stores

variable {db : Stores} {email : OutboxEmail} {hash : String}

section
variable {P : Platform} {tenantID : String} {req : SendEmailRequest} {input : AdmitInput}
  {p : Progress}

@[simp] theorem pendingCalls_append (xs ys : List StoreCall) :
    pendingCalls (xs ++ ys) = pendingCalls xs ++ pendingCalls ys := filterMap_append

theorem Progress.about_call (others : input.Others) {c : StoreCall} {f : Stores → Stores}
    (kept : ∀ db, (f db).about input.messageID = db.about input.messageID) :
    (p.call input c f).db.about input.messageID = p.db.about input.messageID := by
  rw [call, kept, others]

variable {recipients : List (String × String)} {db' : Stores}

section
variable (others : input.Others) (clean : p.Untouched input.messageID)
include others clean

theorem Progress.Untouched.record {providerID recipient err : String} {type : EventType}
    {answer : RecordAnswer} (settled : type = .dropped ∨ type = .rejected) :
    (p.record P tenantID input providerID type recipient err answer).Untouched input.messageID := by
  have other : recordedType P type err ≠ .pending := by
    rcases settled with rfl | rfl <;> simp [recordedType]
  refine ⟨?_, ?_⟩
  · rw [Progress.record, Progress.about_call others, clean.about]
    intro db
    have none_ : ((recordEvent P tenantID providerID input.messageID type recipient "" err
        answer).filterMap fun | .event e => some e | _ => none).filter
          (fun e => e.type = .pending && e.messageID = input.messageID) = [] := by
      rw [filter_eq_nil_iff]
      intro e mem
      obtain ⟨x, written, same⟩ := mem_filterMap.mp mem
      cases x with
      | event =>
        cases same
        simp [recordEvent_type P written, other]
      | send | suppressed => cases same
    simp only [Stores.about, filter_append, none_, append_nil]
  · rw [Progress.record, Progress.call, pendingCalls_append, clean.calls]
    rcases settled with rfl | rfl <;> rfl

theorem Progress.Untouched.filtered :
    (p.call input .recordFiltered id).Untouched input.messageID := by
  have kept := p.about_call (c := .recordFiltered) (f := id) others fun _ => rfl
  refine ⟨kept.trans clean.about, ?_⟩
  rw [call, pendingCalls_append, clean.calls]
  rfl

theorem screenSend_untouched :
    (screenSend P tenantID req input recipients p).1.Untouched input.messageID := by
  have rejected (rs : List (String × String)) (ruleName : String) :
      ∀ q : Progress, q.Untouched input.messageID →
        (rs.foldl (fun p r => p.record P tenantID input req.providerID .rejected r.1
          ("filter rule: " ++ ruleName) (input.rejectRecord r.1)) q).Untouched input.messageID := by
    induction rs with
    | nil => exact fun _ clean => clean
    | cons _ _ ih => exact fun q clean => ih _ (clean.record others (.inr rfl))
  unfold screenSend
  split
  · exact clean
  · split
    · exact clean.record others (.inl rfl)
    · split
      · exact clean
      · split
        · exact clean
        · exact clean
        · split
          · exact rejected recipients _ _ (clean.filtered others)
          · exact clean
          · exact clean.filtered others
          · exact clean

end

theorem Stores.created (inserted : db.outbox.insert? (new email) = some db'.outbox)
    (fresh : (db.about email.id).rows = []) :
    (db'.about email.id).rows = [new email] := by
  obtain ⟨rows, _⟩ := Table.insert?_rows inserted
  have before : db.outbox.rows.filter (fun r => r.id = email.id) = [] := fresh
  have here : (new email).id = email.id := rfl
  simp [about, rows, before, here]

theorem Stores.inserted_of_create {fault : Option String}
    (created : db.create email fault = .ok db') :
    db.outbox.insert? (new email) = some db'.outbox := by
  unfold create at created
  split at created
  · cases created
  split at created <;> cases created
  next inserted =>
    exact inserted

theorem Stores.inserted_of_createWithIdempotencyKey {key : IdempotencyKey} {liveSince : Time}
    {faults : TxFaults}
    (created : db.createWithIdempotencyKey email key liveSince faults = .ok db') :
    db.outbox.insert? (new email) = some db'.outbox := by
  unfold createWithIdempotencyKey at created
  split at created
  any_goals cases created
  split at created
  · cases created
  split at created
  · cases created
  split at created
  · cases created
  · cases created
  next inserted _ =>
    cases created
    exact inserted

variable {content : Content} {status : OutboxStatus} {res : SendEmailResponse}

section
variable (others : input.Others) {q : Progress}
include others

theorem Progress.enqueue_error (clean : p.Untouched input.messageID) {err : CreateError}
    (failed : p.enqueue tenantID req input email hash = (q, .error err)) :
    q.Untouched input.messageID := by
  unfold enqueue at failed
  dsimp only at failed
  split at failed
  · cases failed
  cases failed
  refine ⟨(others _ _).trans clean.about, ?_⟩
  rw [pendingCalls_append, clean.calls]
  rfl

theorem Progress.enqueue_ok (clean : p.Untouched input.messageID)
    (named : email.id = input.messageID)
    (written : p.enqueue tenantID req input email hash = (q, .ok ())) :
    (q.db.about input.messageID).rows = [new email] ∧
      q.calls = p.calls ++ [.create email true] := by
  have fresh : ((input.others p.calls.length p.db).about email.id).rows = [] := by
    rw [named, others, clean.about]
    rfl
  unfold enqueue at written
  dsimp only at written
  split at written <;> cases written
  next db' result =>
    refine ⟨?_, rfl⟩
    have inserted : (input.others p.calls.length p.db).outbox.insert? (new email) =
        some db'.outbox := by
      split at result
      · exact inserted_of_create result
      · exact inserted_of_createWithIdempotencyKey result
    exact named ▸ created inserted fresh

theorem Progress.rows_call {c : StoreCall} {f : Stores → Stores}
    (kept : ∀ db, (f db).outbox = db.outbox) :
    ((p.call input c f).db.about input.messageID).rows = (p.db.about input.messageID).rows := by
  have same : ((p.call input c f).db.about input.messageID).rows =
      ((input.others p.calls.length p.db).about input.messageID).rows := by
    simp only [call, about, kept]
  rw [same, others]

theorem Progress.rows_queueSentCopy :
    ((p.queueSentCopy tenantID req input content).db.about input.messageID).rows =
      (p.db.about input.messageID).rows := by
  unfold queueSentCopy
  split
  · apply rows_call others
    intro db
    split <;> rfl
  · rfl

theorem Progress.rows_announce :
    ((p.announce P tenantID req input recipients content status).db.about input.messageID).rows =
      (p.db.about input.messageID).rows := by
  have recorded (rs : List (String × String)) : ∀ q : Progress,
      ((rs.foldl (fun p r => p.record P tenantID input req.providerID .pending r.1 ""
        (input.pendingRecord r.1)) q).db.about input.messageID).rows =
        (q.db.about input.messageID).rows := by
    induction rs with
    | nil => exact fun _ => rfl
    | cons _ _ ih => exact fun q => (ih _).trans (rows_call others fun _ => rfl)
  have saved : (((p.queueSentCopy tenantID req input content).saveMessage req input content).db.about
      input.messageID).rows = (p.db.about input.messageID).rows := by
    refine Eq.trans (rows_call others fun db => ?_) (rows_queueSentCopy others)
    split <;> rfl
  unfold announce
  split
  · exact (rows_call others fun _ => rfl).trans ((recorded _ _).trans saved)
  · exact (recorded _ _).trans saved

end

theorem Progress.announce_calls :
    ∃ after, (p.announce P tenantID req input recipients content status).calls = p.calls ++ after ∧
      pendingCalls after = recipients.map Prod.fst := by
  have recorded (rs : List (String × String)) : ∀ q : Progress,
      (rs.foldl (fun p r => p.record P tenantID input req.providerID .pending r.1 ""
        (input.pendingRecord r.1)) q).calls =
        q.calls ++ rs.map fun r => .record .pending r.1 := by
    induction rs with
    | nil => simp
    | cons _ _ ih =>
      intro q
      rw [foldl_cons, ih]
      simp [record, call]
  have pending : pendingCalls (recipients.map fun r => .record .pending r.1) =
      recipients.map Prod.fst := by simp [pendingCalls, filterMap_map]
  obtain ⟨copied, queued, none_⟩ : ∃ copied,
      (p.queueSentCopy tenantID req input content).calls = p.calls ++ copied ∧
        pendingCalls copied = [] := by
    unfold queueSentCopy
    split
    · exact ⟨[.enqueueCopy], rfl, rfl⟩
    · exact ⟨[], (append_nil _).symm, rfl⟩
  have saved : ((p.queueSentCopy tenantID req input content).saveMessage req input content).calls =
      p.calls ++ (copied ++ [.saveMessage]) := by
    rw [saveMessage, call, queued, append_assoc]
  unfold announce
  split
  · refine ⟨copied ++ [.saveMessage] ++ (recipients.map fun r => .record .pending r.1) ++
      [.recordFiltered], ?_, ?_⟩
    · rw [call, recorded, saved]
      simp only [append_assoc]
    · simp only [pendingCalls_append, none_, pending]
      simp [pendingCalls]
  · refine ⟨copied ++ [.saveMessage] ++ recipients.map fun r => .record .pending r.1, ?_, ?_⟩
    · rw [recorded, saved]
      simp only [append_assoc]
    · simp only [pendingCalls_append, none_, pending]
      simp [pendingCalls]

theorem Progress.replay_earlier (others : input.Others) (clean : p.Untouched input.messageID)
    {at_ : Time} {fails : Option String}
    (replayed : p.replay tenantID req input at_ fails hash = .ok (some res)) :
    res.messageID ≠ input.messageID := by
  have keys : ((input.others p.calls.length p.db).about input.messageID).keys = [] := by
    rw [others, clean.about]
    rfl
  unfold replay at replayed
  split at replayed
  · cases replayed
  split at replayed
  · cases replayed
  next id found =>
    cases replayed
    unfold Idempotency.replay at found
    split at found
    · cases found
    next k stored =>
      split at found
      · cases found
      cases found
      intro same
      obtain ⟨looked, _⟩ := Option.filter_eq_some_iff.mp stored
      have mem : k ∈ ((input.others p.calls.length p.db).about input.messageID).keys :=
        mem_filter.mpr ⟨Table.mem_of_lookup looked, decide_eq_true same⟩
      rw [keys] at mem
      cases mem
  · cases replayed

/-- What the checks end with: the answer to a repeat, or the recipients. -/
theorem admissionChecks_ok {result : SendEmailResponse ⊕ List (String × String) × String}
    (checked : admissionChecks P tenantID req input p = .ok result) :
    ∃ recipients, resolveRecipients P [] req.audience = .ok recipients ∧
      ((∃ res hash, p.replayFirst tenantID req input = .ok (some res, hash) ∧ result = .inl res) ∨
        ∃ hash, result = .inr (recipients, hash)) := by
  unfold admissionChecks at checked
  split at checked
  · cases checked
  split at checked
  · cases checked
  split at checked
  · cases checked
  next recipients resolved =>
    refine ⟨recipients, resolved, ?_⟩
    split at checked
    · cases checked
    · cases checked
    · cases checked
    split at checked
    · cases checked
    next res hash replayed =>
      cases checked
      exact .inl ⟨res, hash, replayed, rfl⟩
    next hash replayed =>
      split at checked
      · cases checked
      split at checked
      · cases checked
      split at checked
      · cases checked
      cases checked
      exact .inr ⟨hash, rfl⟩

theorem Progress.replayFirst_earlier (others : input.Others) (clean : p.Untouched input.messageID)
    (first : p.replayFirst tenantID req input = .ok (some res, hash)) :
    res.messageID ≠ input.messageID := by
  unfold replayFirst at first
  split at first
  · cases first
  split at first
  · cases first
  next hash _ =>
    cases replayed : p.replay tenantID req input input.replayAt input.replayFails hash with
    | error =>
      rw [replayed] at first
      cases first
    | ok =>
      rw [replayed] at first
      cases first
      exact replay_earlier others clean replayed

variable (P tenantID req) in
/-- A call leaves nothing about its message and does not accept it, or wrote the row and announced
the message. -/
theorem clientSend_cases (others : input.Others) (fresh : db.about input.messageID = .nothing) :
    (clientSend P tenantID req input db).1.Untouched input.messageID ∧
      (∀ res, (clientSend P tenantID req input db).2 = .ok res → res.messageID ≠ input.messageID) ∨
    ∃ p q : Progress, ∃ recipients content email hash status,
      p.Untouched input.messageID ∧ email.id = input.messageID ∧
      resolveRecipients P [] req.audience = .ok recipients ∧
      p.enqueue tenantID req input email hash = (q, .ok ()) ∧
      clientSend P tenantID req input db = (q.announce P tenantID req input recipients content status,
        .ok ⟨input.messageID, .pending⟩) := by
  have start : (⟨db, []⟩ : Progress).Untouched input.messageID := ⟨fresh, rfl⟩
  unfold clientSend
  split
  next err _ => exact .inl ⟨start, nofun⟩
  next res checked =>
    refine .inl ⟨start, fun other same => ?_⟩
    cases same
    obtain ⟨_, _, ⟨_, hash, replayed, same⟩ | ⟨_, other⟩⟩ := admissionChecks_ok checked
    · cases same
      exact replayFirst_earlier others start replayed
    · cases other
  next recipients hash checked =>
    have resolved : resolveRecipients P [] req.audience = .ok recipients := by
      obtain ⟨_, resolved, ⟨_, _, _, other⟩ | ⟨_, same⟩⟩ := admissionChecks_ok checked
      · cases other
      cases same
      exact resolved
    have screened : (screenSend P tenantID req input recipients ⟨db, []⟩).1.Untouched
        input.messageID := screenSend_untouched others start
    split
    next p err screening =>
      rw [screening] at screened
      exact .inl ⟨screened, nofun⟩
    next p content status screening =>
      rw [screening] at screened
      split
      · exact .inl ⟨screened, nofun⟩
      next request _ =>
        split
        next q taken =>
          have lost := enqueue_error others screened taken
          refine .inl ⟨lost, fun res answer => ?_⟩
          split at answer
          · cases answer
          · cases answer
          next replayed =>
            cases answer
            exact replay_earlier others lost replayed
        next q err failed => exact .inl ⟨enqueue_error others screened failed, nofun⟩
        next q written =>
          exact .inr ⟨p, q, recipients, content, _, hash, status, screened, rfl, resolved,
            written, rfl⟩

end

namespace AdmitSample

def platform : Platform := .ascii

def request : SendEmailRequest where
  from_ := "eve@x"
  providerID := "p"
  to_ := ["Ana@x", "bob@x"]
  idempotencyKey := "k"
  cc := ["ana@x"]
  bcc := []
  subject := "hello"
  templateID := ""
  bodyHTML := ""
  bodyText := "hello"
  body := ""
  isHTML := false

def recorded : RecordAnswer where
  message := none
  latest := none
  providerName := "smtp"
  eventID := "e"
  timestamp := 7
  queue := .direct
  suppressor := false
  creates := false

/-- A call that every store answers, but for the commit of its transaction. -/
def input (commit : Option String) : AdmitInput where
  refusal := none
  provider := .ok (some ⟨"p", "smtp", .smtp, [], 0, 0⟩)
  hash := .ok "h"
  replayAt := 7
  replayFails := none
  raceAt := 7
  raceFails := none
  rate := none
  messageID := "m"
  suppressions := some fun _ => .ok []
  dropRecord := recorded
  template := .ok none
  render text _ := .ok text
  screen := some (.ok ⟨none, ""⟩)
  rejectRecord _ := recorded
  marshal := .ok "request"
  now := 7
  createFault := none
  txFaults := ⟨none, none, none, none, none, commit⟩
  saveSentCopy := true
  sentCopies := some ⟨.ok true, none, none⟩
  saveMessage := none
  pendingRecord _ := recorded
  others _ db := db

def empty : Stores := ⟨Table.empty, Table.empty, [], [], []⟩

end AdmitSample

end Panmail.Delivery
