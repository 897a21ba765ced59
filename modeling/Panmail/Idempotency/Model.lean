import Panmail.Outbox.System

/-!
# Sends under an idempotency key

Client-mode `SendEmail` calls that carry a key, cut at their clock reads and their
statements, with the hourly prune of expired keys and the deletion of outbox rows beside
them. The write of key and message is one transaction.
-/

namespace Panmail.Idempotency

open Tables Outbox

/-! ### The key store -/

structure IdempotencyKey where
  tenantID : String
  key : String
  requestHash : String
  messageID : String
  createdAt : Time
  deriving DecidableEq

abbrev KeyTable := Table fun k : IdempotencyKey => (k.tenantID, k.key)

/-- `IdempotencyKeyWindow`, 24 hours. -/
def idempotencyKeyWindow : Time := 86400000000000

/-- `get_send_idempotency_key.sql`. -/
def getIdempotencyKey (t : KeyTable) (tenantID key : String) (liveSince : Time) :
    Option IdempotencyKey :=
  (t.lookup (tenantID, key)).filter fun k => decide (liveSince ≤ k.createdAt)

/-- `delete_expired_send_idempotency_key.sql`. -/
def deleteExpired (t : KeyTable) (tenantID key : String) (liveSince : Time) : KeyTable :=
  t.deleteWhere fun k => k.tenantID = tenantID && k.key = key && decide (k.createdAt < liveSince)

/-- `prune_send_idempotency_keys.sql`. -/
def pruneIdempotencyKeys (t : KeyTable) (olderThan : Time) : KeyTable :=
  t.deleteWhere fun k => decide (k.createdAt < olderThan)

inductive CreateResult where
  | taken
  | failed
  | created (keys : KeyTable) (outbox : OutboxTable)

/-- `CreateWithIdempotencyKey`: a taken key, or a row that cannot be inserted, rolls the transaction
back. -/
def createWithIdempotencyKey (keys : KeyTable) (outbox : OutboxTable) (email : OutboxEmail)
    (k : IdempotencyKey) (liveSince : Time) : CreateResult :=
  match (deleteExpired keys k.tenantID k.key liveSince).insert? k with
  | none => .taken
  | some keys' =>
    match outbox.insert? (OutboxRow.new email) with
    | none => .failed
    | some outbox' => .created keys' outbox'

/-! ### A call -/

/-- The fields of a request that the first checks of `SendEmail` read. -/
structure SendRequest where
  from_ : String
  providerID : String
  to_ : List String
  idempotencyKey : String
  deriving DecidableEq

def maxIdempotencyKeyLength : Nat := 255

/-- `ValidateIdempotencyKey`: the refusal, if any. -/
def validateIdempotencyKey (key : String) : Option String :=
  if maxIdempotencyKeyLength < key.utf8ByteSize then
    some ("idempotency key is " ++ toString key.utf8ByteSize ++ " characters long, the limit is "
      ++ toString maxIdempotencyKeyLength)
  else if key.toUTF8.data.toList.any fun c => decide (c.toNat < 0x20) || decide (0x7e < c.toNat) then
    some "idempotency key may contain only printable ASCII characters"
  else none

/-- The first checks of `SendEmail`, in order. Those that need a parser or another store are the
`refuse` step. -/
def validateSend (tenantID : String) (req : SendRequest) : Option String :=
  if tenantID = "" then some "tenant id is mandatory"
  else if req.from_ = "" then some "from address is mandatory"
  else if req.providerID = "" then some "provider id is mandatory"
  else if req.to_ = [] then some "at least one recipient is required"
  else validateIdempotencyKey req.idempotencyKey

inductive Answer where
  | success (messageID : String)
  | conflict (messageID : String)
  | inFlight
  | refused (err : String)
  deriving DecidableEq

/-- What `replay` makes of the stored key; `none` lets the send proceed. -/
def replay (stored : Option IdempotencyKey) (hash : String) : Option Answer :=
  match stored with
  | none => none
  | some k => if k.requestHash ≠ hash then some (.conflict k.messageID)
      else some (.success k.messageID)

inductive CallPhase where
  | started
  | validated
  | reading (stamp : Time)
  | admitted
  | creating (stamp : Time) (email : OutboxEmail)
  | racing
  | rereading (stamp : Time)
  | done (answer : Answer)
  deriving DecidableEq

/-- A client-mode `SendEmail` with a key. `hash` is its `requestHash`. -/
structure SendCall where
  tenantID : String
  req : SendRequest
  hash : String
  phase : CallPhase

def SendCall.record (c : SendCall) (stamp : Time) (messageID : String) : IdempotencyKey where
  tenantID := c.tenantID
  key := c.req.idempotencyKey
  requestHash := c.hash
  messageID := messageID
  createdAt := stamp

structure PruneCall where
  cutoff : Time
  ran : Bool

/-! ### The system -/

structure World where
  clock : Time
  keys : KeyTable
  outbox : OutboxTable
  calls : List SendCall
  prunes : List PruneCall
  /-- History: the message ids drawn so far. -/
  messageIDs : List String
  /-- History: the key records of the transactions that committed. -/
  accepted : List IdempotencyKey

def World.init : World where
  clock := 0
  keys := Table.empty
  outbox := Table.empty
  calls := []
  prunes := []
  messageIDs := []
  accepted := []

inductive Action where
  | tick (elapsed : Time)
  | call (tenantID : String) (req : SendRequest) (hash : String)
  | validate (i : Nat)
  | refuse (i : Nat) (err : String)
  | replayStart (i : Nat)
  | replayRead (i : Nat) (reply : Reply)
  | createStart (i : Nat) (email : OutboxEmail)
  | create (i : Nat) (reply : Reply)
  | raceStart (i : Nat)
  | raceRead (i : Nat) (reply : Reply)
  | pruneStart
  | pruneRun (i : Nat)
  | deleteOutbox (id : String)

def World.setPhase (w : World) (i : Nat) (c : SendCall) (phase : CallPhase) : World :=
  { w with calls := w.calls.set i { c with phase := phase } }

/-- `u.now().Add(-IdempotencyKeyWindow)`. -/
def liveSince (now : Time) : Time := now - idempotencyKeyWindow

/-- The phase after a read of the key, at the start of a send or after a lost race. -/
def afterRead (stored : Option IdempotencyKey) (hash : String) (reply : Reply)
    (absent : CallPhase) : CallPhase :=
  match reply with
  | .ok =>
    match replay stored hash with
    | some answer => .done answer
    | none => absent
  | _ => .done (.refused "failed to read idempotency key")

/-- The create of a call: the world after it and the call's phase. -/
def World.afterCreate (w : World) (c : SendCall) (stamp : Time) (email : OutboxEmail)
    (reply : Reply) : World × CallPhase :=
  let failure := CallPhase.done (.refused "failed to enqueue email")
  match reply with
  | .failed => (w, failure)
  | _ =>
    match createWithIdempotencyKey w.keys w.outbox email (c.record stamp email.id)
        (liveSince stamp) with
    | .taken => (w, if reply = .ok then .racing else failure)
    | .failed => (w, failure)
    | .created keys outbox =>
      ({ w with keys := keys, outbox := outbox,
                accepted := w.accepted ++ [c.record stamp email.id] },
        if reply = .ok then .done (.success email.id) else failure)

def World.step (w : World) : Action → Option World
  | .tick elapsed => some { w with clock := w.clock + elapsed }
  | .call tenantID req hash =>
    if req.idempotencyKey ≠ "" then
      some { w with calls := w.calls ++ [⟨tenantID, req, hash, .started⟩] }
    else none
  | .validate i =>
    match w.calls[i]? with
    | some c =>
      if c.phase = .started then
        match validateSend c.tenantID c.req with
        | some err => some (w.setPhase i c (.done (.refused err)))
        | none => some (w.setPhase i c .validated)
      else none
    | none => none
  | .refuse i err =>
    match w.calls[i]? with
    | some c =>
      if c.phase = .validated ∨ c.phase = .admitted then
        some (w.setPhase i c (.done (.refused err)))
      else none
    | none => none
  | .replayStart i =>
    match w.calls[i]? with
    | some c => if c.phase = .validated then some (w.setPhase i c (.reading w.clock)) else none
    | none => none
  | .replayRead i reply =>
    match w.calls[i]? with
    | some c =>
      match c.phase with
      | .reading stamp =>
        let stored := getIdempotencyKey w.keys c.tenantID c.req.idempotencyKey (liveSince stamp)
        some (w.setPhase i c (afterRead stored c.hash reply .admitted))
      | _ => none
    | none => none
  | .createStart i email =>
    match w.calls[i]? with
    | some c =>
      if c.phase = .admitted ∧ email.id ∉ w.messageIDs ∧ email.tenantID = c.tenantID ∧
          email.retryCount = 0 ∧ (email.status = .pending ∨ email.status = .held) then
        some { w.setPhase i c (.creating w.clock email) with
          messageIDs := w.messageIDs ++ [email.id] }
      else none
    | none => none
  | .create i reply =>
    match w.calls[i]? with
    | some c =>
      match c.phase with
      | .creating stamp email =>
        let after := w.afterCreate c stamp email reply
        some (after.1.setPhase i c after.2)
      | _ => none
    | none => none
  | .raceStart i =>
    match w.calls[i]? with
    | some c => if c.phase = .racing then some (w.setPhase i c (.rereading w.clock)) else none
    | none => none
  | .raceRead i reply =>
    match w.calls[i]? with
    | some c =>
      match c.phase with
      | .rereading stamp =>
        let stored := getIdempotencyKey w.keys c.tenantID c.req.idempotencyKey (liveSince stamp)
        some (w.setPhase i c (afterRead stored c.hash reply (.done .inFlight)))
      | _ => none
    | none => none
  | .pruneStart => some { w with prunes := w.prunes ++ [⟨liveSince w.clock, false⟩] }
  | .pruneRun i =>
    match w.prunes[i]? with
    | some p =>
      if p.ran then none
      else some { w with
        keys := pruneIdempotencyKeys w.keys p.cutoff
        prunes := w.prunes.set i { p with ran := true } }
    | none => none
  | .deleteOutbox id => some { w with outbox := Outbox.deleteOutbox w.outbox id }

end Panmail.Idempotency
