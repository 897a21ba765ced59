import Panmail.Delivery.Recipients

/-!
# The event history and what recording an event does

`RecordEvent`, down to the store's `enqueue`, and the history a later pass reads back.
An event the store takes is in the history of its message from then on; an automatic
suppression follows it. What happens during a pass is a list of effects, in order.
-/
namespace Panmail.Delivery

open Text Outbox List

variable (P : Platform) {r err tenantID : String} {type : EventType}

structure EmailEvent where
  id : String
  tenantID : String
  providerID : String
  providerName : String
  messageID : String
  type : EventType
  recipient : String
  subject : String
  timestamp : Time
  errorMessage : String
  deriving DecidableEq

structure EmailMessage where
  id : String
  providerID : String
  subject : String
  to_ : List String
  cc : List String
  bcc : List String

/-- One copy handed to a sender. The HTML is the rendered one, before tracking and
hardening. -/
structure Copy where
  providerID : String
  from_ : String
  to_ : List String
  cc : List String
  recipient : String
  subject : String
  text : String
  html : String
  deriving DecidableEq

/-- What a pass does to the world: a call of a sender and its error, an event the store
took, an entry put on the suppression list for `email`. -/
inductive Effect where
  | send (copy : Copy) (err : Option String)
  | event (e : EmailEvent)
  | suppressed (email : String) (entry : Suppression)
  deriving DecidableEq

def Effect.recipient : Effect → String
  | .send copy _ => copy.recipient
  | .event e => e.recipient
  | .suppressed email _ => email

/-! ### Writing an event -/

/-- What `enqueue` finds when its `select` is decided: whether the store is closed or the channel
takes the event, the context's error, and which of two ready cases is picked. -/
structure Enqueue where
  closed : Bool
  room : Bool
  ctxErr : Option String
  picksWrite : Bool
  ready : closed = true ∨ room = true ∨ ctxErr ≠ none

def Enqueue.direct : Enqueue := ⟨false, true, none, true, .inr (.inl rfl)⟩

def enqueue (q : Enqueue) : Except String Unit :=
  if q.closed then .error "event store is closed"
  else if q.room && (q.ctxErr.isNone || q.picksWrite) then .ok ()
  else .error (q.ctxErr.getD "")

structure RecordAnswer where
  /-- `GetMessage`, an error being no message. -/
  message : Option EmailMessage
  /-- `GetLatestMessageForRecipient`. -/
  latest : Option EmailMessage
  providerName : String
  eventID : String
  timestamp : Time
  queue : Enqueue
  suppressor : Bool
  creates : Bool

/-- `Add` of the suppression usecase. -/
def addSuppression (tenantID email reason : String) (creates : Bool) : List Effect :=
  if named : suppressionKey P email = "" then []
  else if creates then [.suppressed email ⟨tenantID, suppressionKey P email, reason, named⟩]
  else []

/-- The reason `suppressForEvent` gives, where it suppresses at all. -/
def suppressionReason (type : EventType) (err : String) : Option String :=
  let stated (reason : String) := if err = "" then reason else reason ++ ": " ++ err
  match type with
  | .hardBounce => some (stated "Automatic suppression after a hard bounce")
  | .spamReport => some (stated "Automatic suppression after a spam complaint")
  | _ => none

def suppressForEvent (tenantID : String) (type : EventType) (recipient err : String)
    (a : RecordAnswer) : List Effect :=
  if a.suppressor = false ∨ recipient = "" ∨ tenantID = "" then []
  else
    match suppressionReason type err with
    | some reason => addSuppression P tenantID recipient reason a.creates
    | none => []

/-- The type an event is stored under: a generic bounce is classified by its error. -/
def recordedType (type : EventType) (err : String) : EventType :=
  if type = .bounced ∧ err ≠ "" ∧ (classifyError P.unicode err).type ≠ .unspecified then
    (classifyError P.unicode err).type
  else type

def EmailMessage.only (m : EmailMessage) : Option String :=
  match m.to_, m.cc, m.bcc with
  | [r], [], [] => some r
  | [], [r], [] => some r
  | [], [], [r] => some r
  | _, _, _ => none

/-- `RecordEvent`: the event, if the store takes it, and the suppression it leads to. -/
def recordEvent (tenantID providerID messageID : String) (type : EventType)
    (recipient subject err : String) (a : RecordAnswer) : List Effect :=
  let recipient := P.unicode.normal recipient
  let type := recordedType P type err
  -- the stored message is read only when something is missing, or the id is a provider's
  let looked := messageID ≠ "" ∧
    (providerID = "" ∨ recipient = "" ∨ subject = "" ∨ P.isUUID messageID = false)
  let latest := if looked ∧ a.message = none ∧ recipient ≠ "" ∧ P.isUUID messageID = false
    then a.latest else none
  let msg := if looked then a.message.orElse fun _ => latest else none
  let messageID := (latest.map EmailMessage.id).getD messageID
  let providerID := if providerID = "" then (msg.map EmailMessage.providerID).getD "" else providerID
  let recipient := if recipient = "" then (msg.bind EmailMessage.only).getD "" else recipient
  let subject := if subject = "" then (msg.map EmailMessage.subject).getD "" else subject
  let providerName := if providerID = "" then "" else a.providerName
  match enqueue a.queue with
  | .ok () =>
    .event ⟨a.eventID, tenantID, providerID, providerName, messageID, type, recipient, subject,
      a.timestamp, err⟩ :: suppressForEvent P tenantID type recipient err a
  | .error _ => []

/-! ### Reading the history -/

/-- `finishedFrom`'s first map. -/
def deliveredIn (events : List EmailEvent) (r : String) : Bool :=
  events.any fun e => e.type = .delivered && e.recipient = r

/-- `finishedFrom`'s second map. -/
def settledIn (events : List EmailEvent) (r : String) : Bool :=
  events.any fun e => settledEvents e.type && e.recipient = r

/-- `finishedFrom`'s third map, the two together. -/
def finishedIn (events : List EmailEvent) (r : String) : Bool :=
  deliveredIn events r || settledIn events r

def Finishes (e : EmailEvent) (r : String) : Prop :=
  e.recipient = r ∧ (e.type = .delivered ∨ settledEvents e.type = true)

theorem finishedIn_iff {events : List EmailEvent} :
    finishedIn events r = true ↔ ∃ e ∈ events, Finishes e r := by
  simp only [finishedIn, deliveredIn, settledIn, Finishes, Bool.or_eq_true, any_eq_true,
    Bool.and_eq_true, decide_eq_true_eq]
  constructor
  · rintro (⟨e, mem, type, named⟩ | ⟨e, mem, type, named⟩)
    · exact ⟨e, mem, named, .inl type⟩
    · exact ⟨e, mem, named, .inr type⟩
  · rintro ⟨e, mem, named, type | type⟩
    · exact .inl ⟨e, mem, type, named⟩
    · exact .inr ⟨e, mem, type, named⟩

theorem finishedIn_mono {before after : List EmailEvent} (more : ∀ e ∈ before, e ∈ after)
    (finished : finishedIn before r = true) : finishedIn after r = true := by
  obtain ⟨e, mem, finishes⟩ := finishedIn_iff.mp finished
  exact finishedIn_iff.mpr ⟨e, more e mem, finishes⟩

/-! ### What is recorded -/

theorem enqueue_ok_iff (q : Enqueue) : enqueue q = .ok () ↔
      q.closed = false ∧ (q.ctxErr = none ∨ q.room = true ∧ q.picksWrite = true) := by
  cases closed : q.closed with
  | true => simp [enqueue, closed]
  | false =>
    cases room : q.room with
    | true =>
      cases cancelled : q.ctxErr with
      | none | some => simp [enqueue, closed, room, cancelled]
    | false =>
      have cancelled : q.ctxErr ≠ none := by
        rcases q.ready with shut | free | cancelled
        · cases closed.symm.trans shut
        · cases room.symm.trans free
        · exact cancelled
      simp [enqueue, closed, room, cancelled]

theorem recordedType_of_settled (settled : settledEvents type = true) :
    recordedType P type err = type := by
  rw [recordedType, if_neg]
  rintro ⟨rfl, _⟩
  cases settled

theorem recordedType_not_delivered (other : type ≠ .delivered) :
    recordedType P type err ≠ .delivered := by
  rw [recordedType]
  split
  · exact classifyError_not_delivered _ _
  · exact other

variable {x : Effect}

theorem mem_addSuppression {email reason : String} {creates : Bool}
    (mem : x ∈ addSuppression P tenantID email reason creates) :
    ∃ named, x = .suppressed email ⟨tenantID, suppressionKey P email, reason, named⟩ := by
  rw [addSuppression] at mem
  split at mem
  · cases mem
  next named =>
    split at mem
    · exact ⟨named, mem_singleton.mp mem⟩
    · cases mem

theorem suppressForEvent_mem {recipient : String} {a : RecordAnswer}
    (mem : x ∈ suppressForEvent P tenantID type recipient err a) :
    ∃ named reason, x = .suppressed recipient ⟨tenantID, suppressionKey P recipient, reason, named⟩ := by
  simp only [suppressForEvent] at mem
  split at mem
  · cases mem
  split at mem
  · obtain ⟨named, same⟩ := mem_addSuppression P mem
    exact ⟨named, _, same⟩
  · cases mem

section
variable {providerID messageID : String} {subject : String} {a : RecordAnswer} {e : EmailEvent}

theorem mem_recordEvent
    (mem : x ∈ recordEvent P tenantID providerID messageID type r subject err a) :
    (∃ e, x = .event e ∧ e.type = recordedType P type err) ∨
      ∃ email named reason, x = .suppressed email ⟨tenantID, suppressionKey P email, reason, named⟩ := by
  simp only [recordEvent] at mem
  split at mem
  · rcases mem_cons.mp mem with written | later
    · exact .inl ⟨_, written, rfl⟩
    · exact .inr ⟨_, suppressForEvent_mem P later⟩
  · cases mem

theorem recordEvent_event (issued : P.isUUID messageID = true) (named : P.unicode.normal r ≠ "")
    (mem : Effect.event e ∈ recordEvent P tenantID providerID messageID type r
      subject err a) : enqueue a.queue = .ok () ∧ e.tenantID = tenantID ∧ e.messageID = messageID ∧
      e.recipient = P.unicode.normal r ∧ e.type = recordedType P type err := by
  simp only [recordEvent, issued, named, Bool.true_eq_false, and_false, or_false, if_false,
    Option.map_none, Option.getD_none] at mem
  split at mem
  next taken =>
    rcases mem_cons.mp mem with written | later
    · cases written
      exact ⟨taken, rfl, rfl, rfl, rfl⟩
    · obtain ⟨_, _, other⟩ := suppressForEvent_mem P later
      cases other
  · cases mem

theorem recordEvent_type (mem : Effect.event e ∈
      recordEvent P tenantID providerID messageID type r subject err a) :
    e.type = recordedType P type err := by
  rcases mem_recordEvent P mem with ⟨_, ⟨⟩, recorded⟩ | ⟨_, _, _, ⟨⟩⟩
  exact recorded

theorem recordEvent_written (issued : P.isUUID messageID = true)
    (named : P.unicode.normal r ≠ "") (taken : enqueue a.queue = .ok ()) :
    ∃ e, Effect.event e ∈ recordEvent P tenantID providerID messageID type r subject err a ∧
      e.tenantID = tenantID ∧ e.messageID = messageID ∧ e.recipient = P.unicode.normal r ∧
      e.type = recordedType P type err := by
  simp only [recordEvent, issued, named, taken, Bool.true_eq_false, and_false, or_false, if_false,
    Option.map_none, Option.getD_none]
  exact ⟨_, mem_cons_self, rfl, rfl, rfl, rfl⟩

theorem recordEvent_recipient (issued : P.isUUID messageID = true)
    (normal : P.unicode.normal r = r) (named : r ≠ "")
    (mem : x ∈ recordEvent P tenantID providerID messageID type r
      subject err a) : x.recipient = r := by
  simp only [recordEvent, issued, normal, named, Bool.true_eq_false, and_false, or_false, if_false,
    Option.map_none, Option.getD_none] at mem
  split at mem
  · rcases mem_cons.mp mem with rfl | later
    · rfl
    · obtain ⟨_, _, rfl⟩ := suppressForEvent_mem P later
      rfl
  · cases mem

theorem recordEvent_no_send {copy : Copy} {answer : Option String} :
    Effect.send copy answer ∉ recordEvent P tenantID providerID messageID type r subject err a := by
  intro mem
  rcases mem_recordEvent P mem with ⟨_, ⟨⟩, _⟩ | ⟨_, _, _, ⟨⟩⟩

end
end Panmail.Delivery
