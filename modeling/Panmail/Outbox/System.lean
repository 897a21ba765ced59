import Panmail.Lib.Run
import Panmail.Outbox.Store

/-!
# Workers, reviewers and sweeps over one outbox

Every process that writes an outbox row, as a machine whose steps are the source's statements. A
call of the source is cut where another process can run: a clock read and the statement that uses it
are two steps, so are a read of a row and the write decided from it. A process that crashes, or
gives up on an error, is one that takes no further step.
-/

namespace Panmail.Outbox

open Tables

/-- How a statement ends for its caller: it ran and answered, it ran and the answer was lost, or it
did not run. -/
inductive Reply where
  | ok | unheard | failed
  deriving DecidableEq

/-! ### A claim: `ClaimPending` -/

inductive ClaimPhase where
  | stamped | claimed | listed
  deriving DecidableEq

/-- A `ClaimPending` in progress: its token and the `now` it read. -/
structure ClaimCall where
  token : String
  now : Time
  phase : ClaimPhase

/-! ### A pass: `processEmail` and the lease goroutine of `holdLease` -/

/-- The write that settles a pass: the `Update` of `handleFailure`, which leaves a row deferred or
failed, or the `Delete`. -/
inductive RowWrite where
  | update (u : OutboxUpdate) (settles : u.status = .deferred ∨ u.status = .failed)
  | delete

def RowWrite.run (w : RowWrite) (t : OutboxTable) (id : String) : OutboxTable :=
  match w with
  | .update u _ => updateOutbox t id u
  | .delete => deleteOutbox t id

inductive PassPhase where
  | waiting
  | confirming (stamp : Time)
  | sending
  | settling (write : RowWrite) (attempts : Nat)
  | done

/-- The goroutine that keeps the lease: between ticks, renewing, told that the claim
is gone, or stopped. -/
inductive Renewer where
  | idle
  | renewing (stamp : Time)
  | refused
  | stopped

structure Pass where
  token : String
  email : OutboxEmail
  phase : PassPhase
  renewer : Renewer
  lost : Bool
  /-- History: the end of the lease that the last answered renewal set. -/
  leaseEnd : Option Time
  /-- History: a settling statement of this pass has run. -/
  settled : Bool

def Pass.start (token : String) (email : OutboxEmail) : Pass where
  token := token
  email := email
  phase := .waiting
  renewer := .idle
  lost := false
  leaseEnd := none
  settled := false

/-- `messageLease`, two minutes. -/
def messageLease : Time := 120000000000

def leaseRenewEvery : Time := messageLease / 3

def bookkeepingAttempts : Nat := 3

/-- What a worker does between two statements of a pass. -/
inductive PassAction where
  | confirmStart
  | confirm (reply : Reply)
  | renewStart
  | renew (reply : Reply)
  | storeLost
  | unmarshalFail
  | sendDone (write : RowWrite)
  | settle (reply : Reply)

/-- The pass after a statement of `bookkeep` ended. -/
def Pass.booked (p : Pass) (write : RowWrite) (attempts : Nat) (reply : Reply) : Pass :=
  { p with
    phase := if reply = .ok ∨ bookkeepingAttempts ≤ attempts + 1 then .done
      else .settling write (attempts + 1)
    settled := p.settled || decide (reply ≠ .failed) }

def Pass.step (lease : Time) (clock : Time) (t : OutboxTable) (p : Pass) :
    PassAction → Option (Pass × OutboxTable)
  | .confirmStart =>
    match p.phase with
    | .waiting => some ({ p with phase := .confirming clock }, t)
    | _ => none
  | .confirm reply =>
    match p.phase with
    | .confirming stamp =>
      let extended := renewClaim t p.email.id p.token (stamp + lease)
      match reply with
      | .ok =>
        if renewed t p.email.id p.token then
          some ({ p with phase := .sending, leaseEnd := some (stamp + lease) }, extended)
        else some ({ p with phase := .done }, t)
      | .unheard => some ({ p with phase := .done }, extended)
      | .failed => some ({ p with phase := .done }, t)
    | _ => none
  | .renewStart =>
    match p.phase, p.renewer with
    | .sending, .idle => some ({ p with renewer := .renewing clock }, t)
    | .settling _ _, .idle => some ({ p with renewer := .renewing clock }, t)
    | _, _ => none
  | .renew reply =>
    match p.renewer with
    | .renewing stamp =>
      let extended := renewClaim t p.email.id p.token (stamp + lease)
      match reply with
      | .ok =>
        if renewed t p.email.id p.token then
          some ({ p with renewer := .idle, leaseEnd := some (stamp + lease) }, extended)
        else some ({ p with renewer := .refused }, t)
      -- one failed renewal is not a lost claim: the next tick tries again
      | .unheard => some ({ p with renewer := .idle }, extended)
      | .failed => some ({ p with renewer := .idle }, t)
    | _ => none
  | .storeLost =>
    match p.renewer with
    | .refused => some ({ p with renewer := .stopped, lost := true }, t)
    | _ => none
  -- a request that cannot be read is deleted without a look at the lost flag
  | .unmarshalFail =>
    match p.phase with
    | .sending => some ({ p with phase := .settling .delete 0 }, t)
    | _ => none
  | .sendDone write =>
    match p.phase with
    | .sending =>
      if p.lost then some ({ p with phase := .done }, t)
      else some ({ p with phase := .settling write 0 }, t)
    | _ => none
  | .settle reply =>
    match p.phase with
    | .settling write attempts =>
      some (p.booked write attempts reply,
        if reply = .failed then t else write.run t p.email.id)
    | _ => none

/-! ### Reviewers: `Release`, `Reject` and what they do to the outbox -/

inductive Decision where
  | release | reject

def Decision.status : Decision → ReviewStatus
  | .release => .released
  | .reject => .rejected

inductive ReviewPhase where
  | won
  | reading (tenantID payloadRef : String)
  | writing (email : OutboxEmail) (readAt : Time)
  | done
  deriving DecidableEq

/-- A `Release` or `Reject` whose status update affected the record. -/
structure ReviewCall where
  recordID : String
  tenantID : String
  decision : Decision
  phase : ReviewPhase

inductive DiscardPhase where
  | reading | deleting | done
  deriving DecidableEq

structure DiscardCall where
  tenantID : String
  messageID : String
  phase : DiscardPhase

inductive SweepPhase where
  | selected | updated | done
  deriving DecidableEq

structure Sweep where
  ids : List String
  phase : SweepPhase

/-- A `SendEmail` that has queued a held message and has its record yet to write. -/
structure HoldCall where
  tenantID : String
  messageID : String
  recorded : Bool

/-- Whether a decision on a record reaches into the outbox. -/
def FilteredMessage.holdsOutbound (m : FilteredMessage) : Bool :=
  m.action = .hold && m.direction = .outbound && decide (m.payloadRef ≠ "")

/-! ### The system -/

structure World where
  clock : Time
  outbox : OutboxTable
  reviews : ReviewTable
  claims : List ClaimCall
  passes : List Pass
  holdCalls : List HoldCall
  reviewCalls : List ReviewCall
  discards : List DiscardCall
  sweeps : List Sweep
  /-- History: the claim tokens drawn so far. -/
  tokens : List String
  /-- History: the message ids drawn so far. -/
  messageIDs : List String
  /-- History: the record ids drawn so far. -/
  recordIDs : List String
  /-- History: the review record of each held outbound message, and the message. -/
  holds : List (String × String)
  /-- History: the records moved out of PENDING, and where to. -/
  transitions : List (String × ReviewStatus)

def World.init : World where
  clock := 0
  outbox := Table.empty
  reviews := Table.empty
  claims := []
  passes := []
  holdCalls := []
  reviewCalls := []
  discards := []
  sweeps := []
  tokens := []
  messageIDs := []
  recordIDs := []
  holds := []
  transitions := []

/-- `create_outbox.sql`: a new row carries no claim. -/
def OutboxRow.new (e : OutboxEmail) : OutboxRow :=
  { e with claimToken := none, claimedUntil := none }

inductive Action where
  | tick (elapsed : Time)
  | create (email : OutboxEmail)
  | recordHold (i : Nat) (recordID : String) (createdAt : Time) (expiresAt : Option Time)
  | recordOther (record : FilteredMessage)
  | claimStart (token : String)
  | claimUpdate (i : Nat) (limit : Nat) (locked : List String)
  | claimList (i : Nat)
  | pass (i : Nat) (a : PassAction)
  | review (tenantID id : String) (decision : Decision) (reviewedBy : String) (now : Time)
      (note : String)
  | reviewGet (i : Nat)
  | releaseRead (i : Nat)
  | releaseWrite (i : Nat) (nextRetryAt updatedAt : Time)
  | discardRead (i : Nat)
  | discardWrite (i : Nat)
  | sweepSelect (now : Time) (limit : Nat)
  | sweepUpdate (i : Nat)
  | sweepRead (i : Nat)
  | pruneTerminal (cutoff : Time)
  | pruneHeld (cutoff : Time)
  | pruneFiltered (cutoff : Time)

/-- `maxPageSize`, the limit of a sweep that names none. -/
def maxPageSize : Nat := 500

def holdRecord (call : HoldCall) (recordID : String) (createdAt : Time)
    (expiresAt : Option Time) : FilteredMessage where
  id := recordID
  tenantID := call.tenantID
  direction := .outbound
  action := .hold
  status := .pending
  messageID := call.messageID
  payloadRef := call.messageID
  reviewedBy := ""
  reviewedAt := none
  reviewNote := ""
  createdAt := createdAt
  expiresAt := expiresAt

/-- Where a review call goes once `Get` has read its record back. Inbound payloads are not in the
outbox. -/
def ReviewCall.afterGet (call : ReviewCall) (record : Option FilteredMessage) :
    ReviewCall × List DiscardCall :=
  match record with
  | none => ({ call with phase := .done }, [])
  | some m =>
    if m.holdsOutbound then
      match call.decision with
      | .release => ({ call with phase := .reading m.tenantID m.payloadRef }, [])
      | .reject => ({ call with phase := .done }, [⟨m.tenantID, m.payloadRef, .reading⟩])
    else ({ call with phase := .done }, [])

/-- The first half of `ReleaseHeld` and `DiscardHeld`: the row, if it is this tenant's
and still held. -/
def heldRow (t : OutboxTable) (tenantID messageID : String) : Option OutboxRow :=
  (t.lookup messageID).filter fun r => r.tenantID = tenantID && r.status = .held

/-- What `ReleaseHeld` writes back over the row it read. -/
def releaseUpdate (email : OutboxEmail) (nextRetryAt updatedAt : Time) : OutboxUpdate where
  status := .pending
  retryCount := email.retryCount
  nextRetryAt := nextRetryAt
  lastError := email.lastError
  updatedAt := updatedAt

def World.step (lease : Time) (w : World) : Action → Option World
  | .tick elapsed => some { w with clock := w.clock + elapsed }
  | .create email =>
    if email.id ∉ w.messageIDs ∧ email.retryCount = 0 ∧
        (email.status = .pending ∨ email.status = .held) then
      (w.outbox.insert? (OutboxRow.new email)).map fun outbox =>
        { w with
          outbox := outbox
          messageIDs := w.messageIDs ++ [email.id]
          holdCalls := if email.status = .held
            then w.holdCalls ++ [⟨email.tenantID, email.id, false⟩] else w.holdCalls }
    else none
  | .recordHold i recordID createdAt expiresAt =>
    match w.holdCalls[i]? with
    | some call =>
      if call.recorded = false ∧ recordID ∉ w.recordIDs then
        (w.reviews.insert? (holdRecord call recordID createdAt expiresAt)).map fun reviews =>
          { w with
            reviews := reviews
            recordIDs := w.recordIDs ++ [recordID]
            holds := w.holds ++ [(recordID, call.messageID)]
            holdCalls := w.holdCalls.set i { call with recorded := true } }
      else none
    | none => none
  -- tags, rejects and everything inbound: recorded PENDING too, see `NewFilteredMessage`
  | .recordOther record =>
    if record.id ∉ w.recordIDs ∧ record.status = .pending ∧
        (record.action ≠ .hold ∨ record.direction = .inbound) then
      (w.reviews.insert? record).map fun reviews =>
        { w with reviews := reviews, recordIDs := w.recordIDs ++ [record.id] }
    else none
  | .claimStart token =>
    if token ∉ w.tokens then
      some { w with
        tokens := w.tokens ++ [token]
        claims := w.claims ++ [⟨token, w.clock, .stamped⟩] }
    else none
  | .claimUpdate i limit locked =>
    match w.claims[i]? with
    | some call =>
      if call.phase = .stamped then
        some { w with
          outbox := claimPending w.outbox call.token (call.now + lease) call.now limit locked
          claims := w.claims.set i { call with phase := .claimed } }
      else none
    | none => none
  | .claimList i =>
    match w.claims[i]? with
    | some call =>
      if call.phase = .claimed then
        some { w with
          passes := w.passes ++ (listClaimed w.outbox call.token).map (Pass.start call.token)
          claims := w.claims.set i { call with phase := .listed } }
      else none
    | none => none
  | .pass i a =>
    match w.passes[i]? with
    | some p => (p.step lease w.clock w.outbox a).map fun (p', outbox) =>
        { w with passes := w.passes.set i p', outbox := outbox }
    | none => none
  | .review tenantID id decision reviewedBy now note =>
    -- the loser is told so, and changes nothing
    if reviewAffected w.reviews tenantID id then
      some { w with
        reviews := reviewFiltered w.reviews tenantID id decision.status reviewedBy now note
        transitions := w.transitions ++ [(id, decision.status)]
        reviewCalls := w.reviewCalls ++ [⟨id, tenantID, decision, .won⟩] }
    else some w
  | .reviewGet i =>
    match w.reviewCalls[i]? with
    | some call =>
      if call.phase = .won then
        let after := call.afterGet (getFiltered w.reviews call.tenantID call.recordID)
        some { w with
          reviewCalls := w.reviewCalls.set i after.1
          discards := w.discards ++ after.2 }
      else none
    | none => none
  | .releaseRead i =>
    match w.reviewCalls[i]? with
    | some call =>
      match call.phase with
      | .reading tenantID payloadRef =>
        let phase := match heldRow w.outbox tenantID payloadRef with
          | some r => ReviewPhase.writing r.toOutboxEmail w.clock
          | none => .done
        some { w with reviewCalls := w.reviewCalls.set i { call with phase := phase } }
      | _ => none
    | none => none
  | .releaseWrite i nextRetryAt updatedAt =>
    match w.reviewCalls[i]? with
    | some call =>
      match call.phase with
      | .writing email readAt =>
        if readAt ≤ nextRetryAt ∧ nextRetryAt ≤ updatedAt ∧ updatedAt ≤ w.clock then
          some { w with
            outbox := updateOutbox w.outbox email.id (releaseUpdate email nextRetryAt updatedAt)
            reviewCalls := w.reviewCalls.set i { call with phase := .done } }
        else none
      | _ => none
    | none => none
  | .discardRead i =>
    match w.discards[i]? with
    | some call =>
      if call.phase = .reading then
        let phase := if (heldRow w.outbox call.tenantID call.messageID).isSome
          then DiscardPhase.deleting else .done
        some { w with discards := w.discards.set i { call with phase := phase } }
      else none
    | none => none
  | .discardWrite i =>
    match w.discards[i]? with
    | some call =>
      if call.phase = .deleting then
        some { w with
          outbox := deleteOutbox w.outbox call.messageID
          discards := w.discards.set i { call with phase := .done } }
      else none
    | none => none
  | .sweepSelect now limit =>
    let limit := if limit = 0 then maxPageSize else limit
    some { w with sweeps := w.sweeps ++ [⟨dueForExpiry w.reviews now limit, .selected⟩] }
  | .sweepUpdate i =>
    match w.sweeps[i]? with
    | some sweep =>
      if sweep.phase = .selected then
        some { w with
          reviews := expireFiltered w.reviews sweep.ids
          transitions := w.transitions ++
            (w.reviews.selectWhere (FilteredMessage.expirable sweep.ids)).map
              fun m => (m.id, .expired)
          sweeps := w.sweeps.set i { sweep with phase := .updated } }
      else none
    | none => none
  | .sweepRead i =>
    match w.sweeps[i]? with
    | some sweep =>
      if sweep.phase = .updated then
        some { w with
          discards := w.discards ++
            ((listExpired w.reviews sweep.ids).filter FilteredMessage.holdsOutbound).map
              fun m => ⟨m.tenantID, m.payloadRef, .reading⟩
          sweeps := w.sweeps.set i { sweep with phase := .done } }
      else none
    | none => none
  | .pruneTerminal cutoff => some { w with outbox := pruneTerminal w.outbox cutoff }
  | .pruneHeld cutoff => some { w with outbox := pruneHeld w.outbox w.reviews cutoff }
  | .pruneFiltered cutoff => some { w with reviews := pruneTerminalFiltered w.reviews cutoff }

/-- The states some interleaving of the processes reaches. -/
def Reachable (lease : Time) (w : World) : Prop :=
  ∃ as, Runs.exec (World.step lease) World.init as = some w

/-! ### What a step that was taken did -/

inductive Stepped (lease : Time) (w : World) : Action → World → Prop
  | tick (elapsed : Time) : Stepped lease w (.tick elapsed) { w with clock := w.clock + elapsed }
  | create (email : OutboxEmail) (outbox : OutboxTable) (fresh : email.id ∉ w.messageIDs)
      (status : email.status = .pending ∨ email.status = .held)
      (inserted : w.outbox.insert? (OutboxRow.new email) = some outbox) :
      Stepped lease w (.create email) { w with
        outbox := outbox
        messageIDs := w.messageIDs ++ [email.id]
        holdCalls := if email.status = .held
          then w.holdCalls ++ [⟨email.tenantID, email.id, false⟩] else w.holdCalls }
  | recordHold (i : Nat) (recordID : String) (createdAt : Time) (expiresAt : Option Time)
      (call : HoldCall) (reviews : ReviewTable) (found : w.holdCalls[i]? = some call)
      (unrecorded : call.recorded = false) (fresh : recordID ∉ w.recordIDs)
      (inserted : w.reviews.insert? (holdRecord call recordID createdAt expiresAt) =
        some reviews) :
      Stepped lease w (.recordHold i recordID createdAt expiresAt) { w with
        reviews := reviews
        recordIDs := w.recordIDs ++ [recordID]
        holds := w.holds ++ [(recordID, call.messageID)]
        holdCalls := w.holdCalls.set i { call with recorded := true } }
  | recordOther (record : FilteredMessage) (reviews : ReviewTable)
      (fresh : record.id ∉ w.recordIDs) (pending : record.status = .pending)
      (other : record.action ≠ .hold ∨ record.direction = .inbound)
      (inserted : w.reviews.insert? record = some reviews) :
      Stepped lease w (.recordOther record)
        { w with reviews := reviews, recordIDs := w.recordIDs ++ [record.id] }
  | claimStart (token : String) (fresh : token ∉ w.tokens) :
      Stepped lease w (.claimStart token) { w with
        tokens := w.tokens ++ [token]
        claims := w.claims ++ [⟨token, w.clock, .stamped⟩] }
  | claimUpdate (i limit : Nat) (locked : List String) (call : ClaimCall)
      (found : w.claims[i]? = some call) (stamped : call.phase = .stamped) :
      Stepped lease w (.claimUpdate i limit locked) { w with
        outbox := claimPending w.outbox call.token (call.now + lease) call.now limit locked
        claims := w.claims.set i { call with phase := .claimed } }
  | claimList (i : Nat) (call : ClaimCall) (found : w.claims[i]? = some call)
      (claimed : call.phase = .claimed) :
      Stepped lease w (.claimList i) { w with
        passes := w.passes ++ (listClaimed w.outbox call.token).map (Pass.start call.token)
        claims := w.claims.set i { call with phase := .listed } }
  | pass (i : Nat) (pa : PassAction) (p p' : Pass) (outbox : OutboxTable)
      (found : w.passes[i]? = some p)
      (moved : p.step lease w.clock w.outbox pa = some (p', outbox)) :
      Stepped lease w (.pass i pa) { w with passes := w.passes.set i p', outbox := outbox }
  | lost (tenantID id : String) (decision : Decision) (reviewedBy : String) (now : Time)
      (note : String) : Stepped lease w (.review tenantID id decision reviewedBy now note) w
  | review (tenantID id : String) (decision : Decision) (reviewedBy : String) (now : Time)
      (note : String) (won : reviewAffected w.reviews tenantID id = true) :
      Stepped lease w (.review tenantID id decision reviewedBy now note) { w with
        reviews := reviewFiltered w.reviews tenantID id decision.status reviewedBy now note
        transitions := w.transitions ++ [(id, decision.status)]
        reviewCalls := w.reviewCalls ++ [⟨id, tenantID, decision, .won⟩] }
  | reviewGet (i : Nat) (call : ReviewCall) (found : w.reviewCalls[i]? = some call)
      (won : call.phase = .won) :
      Stepped lease w (.reviewGet i) { w with
        reviewCalls := w.reviewCalls.set i
          (call.afterGet (getFiltered w.reviews call.tenantID call.recordID)).1
        discards := w.discards ++
          (call.afterGet (getFiltered w.reviews call.tenantID call.recordID)).2 }
  | releaseRead (i : Nat) (call : ReviewCall) (tenantID payloadRef : String)
      (phase : ReviewPhase) (found : w.reviewCalls[i]? = some call)
      (reading : call.phase = .reading tenantID payloadRef)
      (next : phase = .done ∨ ∃ r, w.outbox.lookup payloadRef = some r ∧
        phase = .writing r.toOutboxEmail w.clock) :
      Stepped lease w (.releaseRead i)
        { w with reviewCalls := w.reviewCalls.set i { call with phase := phase } }
  | releaseWrite (i : Nat) (nextRetryAt updatedAt : Time) (call : ReviewCall)
      (email : OutboxEmail) (readAt : Time) (found : w.reviewCalls[i]? = some call)
      (writing : call.phase = .writing email readAt) :
      Stepped lease w (.releaseWrite i nextRetryAt updatedAt) { w with
        outbox := updateOutbox w.outbox email.id (releaseUpdate email nextRetryAt updatedAt)
        reviewCalls := w.reviewCalls.set i { call with phase := .done } }
  | discardRead (i : Nat) (call : DiscardCall) (phase : DiscardPhase)
      (found : w.discards[i]? = some call) :
      Stepped lease w (.discardRead i)
        { w with discards := w.discards.set i { call with phase := phase } }
  | discardWrite (i : Nat) (call : DiscardCall) (found : w.discards[i]? = some call) :
      Stepped lease w (.discardWrite i) { w with
        outbox := deleteOutbox w.outbox call.messageID
        discards := w.discards.set i { call with phase := .done } }
  | sweepSelect (now : Time) (limit bound : Nat) :
      Stepped lease w (.sweepSelect now limit)
        { w with sweeps := w.sweeps ++ [⟨dueForExpiry w.reviews now bound, .selected⟩] }
  | sweepUpdate (i : Nat) (sweep : Sweep) (found : w.sweeps[i]? = some sweep)
      (selected : sweep.phase = .selected) :
      Stepped lease w (.sweepUpdate i) { w with
        reviews := expireFiltered w.reviews sweep.ids
        transitions := w.transitions ++
          (w.reviews.selectWhere (FilteredMessage.expirable sweep.ids)).map
            fun m => (m.id, .expired)
        sweeps := w.sweeps.set i { sweep with phase := .updated } }
  | sweepRead (i : Nat) (sweep : Sweep) (found : w.sweeps[i]? = some sweep)
      (updated : sweep.phase = .updated) :
      Stepped lease w (.sweepRead i) { w with
        discards := w.discards ++
          ((listExpired w.reviews sweep.ids).filter FilteredMessage.holdsOutbound).map
            fun m => ⟨m.tenantID, m.payloadRef, .reading⟩
        sweeps := w.sweeps.set i { sweep with phase := .done } }
  | pruneTerminal (cutoff : Time) :
      Stepped lease w (.pruneTerminal cutoff)
        { w with outbox := pruneTerminal w.outbox cutoff }
  | pruneHeld (cutoff : Time) :
      Stepped lease w (.pruneHeld cutoff)
        { w with outbox := pruneHeld w.outbox w.reviews cutoff }
  | pruneFiltered (cutoff : Time) :
      Stepped lease w (.pruneFiltered cutoff)
        { w with reviews := pruneTerminalFiltered w.reviews cutoff }

variable {lease : Time}

theorem step_cases {w t : World} {a : Action} (h : w.step lease a = some t) :
    Stepped lease w a t := by
  cases a <;> simp only [World.step] at h
  case create email =>
    split at h
    next guard =>
      obtain ⟨outbox, inserted, rfl⟩ := Option.map_eq_some_iff.mp h
      exact .create email outbox guard.1 guard.2.2 inserted
    · cases h
  case recordOther record =>
    split at h
    next guard =>
      obtain ⟨reviews, inserted, rfl⟩ := Option.map_eq_some_iff.mp h
      exact .recordOther record reviews guard.1 guard.2.1 guard.2.2 inserted
    · cases h
  case review =>
    split at h <;> cases h
    next won => exact .review _ _ _ _ _ _ won
    · exact .lost ..
  case sweepSelect now limit =>
    cases h
    exact .sweepSelect now limit _
  case recordHold i recordID createdAt expiresAt =>
    split at h
    next call found =>
      split at h
      next guard =>
        obtain ⟨reviews, inserted, rfl⟩ := Option.map_eq_some_iff.mp h
        exact .recordHold i _ _ _ call reviews found guard.1 guard.2 inserted
      · cases h
    · cases h
  case pass i pa =>
    split at h
    next p found =>
      obtain ⟨⟨p', outbox⟩, moved, rfl⟩ := Option.map_eq_some_iff.mp h
      exact .pass i pa p p' outbox found moved
    · cases h
  case releaseRead i =>
    split at h
    next call found =>
      split at h <;> cases h
      next tenantID payloadRef reading =>
        refine .releaseRead i call tenantID payloadRef _ found reading ?_
        split
        next r held => exact .inr ⟨r, (Option.filter_eq_some_iff.mp held).1, rfl⟩
        · exact .inl rfl
    · cases h
  case releaseWrite i nextRetryAt updatedAt =>
    split at h
    next call found =>
      split at h
      next email readAt writing =>
        split at h <;> cases h
        exact .releaseWrite i _ _ call email readAt found writing
      · cases h
    · cases h
  case claimStart token =>
    split at h <;> cases h
    next fresh => exact .claimStart token fresh
  case tick | pruneTerminal | pruneHeld | pruneFiltered =>
    cases h
    constructor
  -- the others look their process up, and check its phase
  all_goals
    split at h
    · split at h <;> cases h
      constructor <;> assumption
    · cases h

theorem step_pass {w t : World} {i : Nat} {a : PassAction} (h : w.step lease (.pass i a) = some t) :
    ∃ p p' outbox, w.passes[i]? = some p ∧ p.step lease w.clock w.outbox a = some (p', outbox) ∧
      t = { w with passes := w.passes.set i p', outbox := outbox } := by
  cases step_cases h with
  | pass _ _ p p' outbox found moved => exact ⟨p, p', outbox, found, moved, rfl⟩

end Panmail.Outbox
