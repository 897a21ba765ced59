import Panmail.Lib.Run
import Panmail.Lib.Table

/-!
# Receipts of inbound posts

A provider posts a message again until it sees a 2xx, to any instance. A post first claims the
message in the table of receipts, which every instance shares; the post that gets the claim
processes the message, and then completes the claim or releases it. A claim older than its lease is
taken over. A post is cut at its statements, and where `Process` begins and returns.
-/
namespace Panmail.Inbound

open Tables

structure MessageKey where
  tenantID : String
  providerID : String
  dedupeKey : String
  deriving DecidableEq

inductive ReceiptState where
  | processing | done
  deriving DecidableEq

/-- A row of `inbound_receipts`, with times in seconds. -/
structure Receipt where
  key : MessageKey
  state : ReceiptState
  claimToken : Nat
  claimedAt : Nat
  createdAt : Nat

abbrev Receipts := Table Receipt.key

/-- `claimLease`, five minutes. -/
def claimLease : Nat := 300

/-! ### The statements -/

namespace Receipts

def insertReceipt (table : Receipts) (key : MessageKey) (token now : Nat) : Receipts × Bool :=
  match table.insert? ⟨key, .processing, token, now, now⟩ with
  | some table => (table, true)
  | none => (table, false)

/-- The claim of the key is older than its lease. -/
def expired (key : MessageKey) (now : Nat) (r : Receipt) : Bool :=
  r.key = key && r.state = .processing && r.claimedAt + claimLease < now

/-- `take_over_receipt.sql`, and whether a row was affected. -/
def takeOverReceipt (table : Receipts) (key : MessageKey) (token now : Nat) : Receipts × Bool :=
  (table.updateWhere (expired key now)
    (fun r => { r with claimToken := token, claimedAt := now }) (fun _ => rfl),
    table.rows.any (expired key now))

/-- `get_receipt_state.sql`. -/
def getReceiptState (table : Receipts) (key : MessageKey) : Option ReceiptState :=
  (table.lookup key).map Receipt.state

/-- The claim of the key is held with the token. -/
def heldWith (key : MessageKey) (token : Nat) (r : Receipt) : Bool :=
  r.key = key && r.claimToken = token && r.state = .processing

/-- `complete_receipt.sql`. -/
def completeReceipt (table : Receipts) (key : MessageKey) (token : Nat) : Receipts :=
  table.updateWhere (heldWith key token) (fun r => { r with state := .done }) (fun _ => rfl)

/-- `release_receipt.sql`. -/
def releaseReceipt (table : Receipts) (key : MessageKey) (token : Nat) : Receipts :=
  table.deleteWhere (heldWith key token)

/-- `prune_receipts.sql`. -/
def pruneReceipts (table : Receipts) (before : Nat) : Receipts :=
  table.deleteWhere fun r => r.createdAt < before

end Receipts

/-! ### A post -/

inductive Answer where
  /-- 202, after its own `Process`. -/
  | accepted
  /-- 202, as a duplicate. -/
  | duplicate
  /-- 503, as another post holds the claim. -/
  | inFlight
  /-- 500, as `Process` failed. -/
  | failed
  deriving DecidableEq

def Answer.isAccepted : Answer → Bool
  | .accepted | .duplicate => true
  | .inFlight | .failed => false

/-- Where a post stands. A token is the receipt it holds; without one it goes on without
deduplication. -/
inductive PostPhase where
  /-- At the head of the loop in `Claim`. -/
  | inserting (pass : Nat)
  | takingOver (pass token now : Nat)
  | reading (pass : Nat)
  | acquired (held : Option Nat)
  | processing (held : Option Nat)
  | completing (held : Option Nat)
  | releasing (held : Option Nat)
  | answered (answer : Answer)
  /-- Its instance died. -/
  | died
  deriving DecidableEq

structure Post where
  key : MessageKey
  phase : PostPhase
  /-- History: it was let through to `Process`. -/
  granted : Bool
  committed : Bool

/-- `claim` asks the store only for a message that has a key. -/
def Post.new (key : MessageKey) : Post :=
  if key.dedupeKey = "" then ⟨key, .acquired none, true, false⟩
  else ⟨key, .inserting 0, false, false⟩

def Post.grant (p : Post) (held : Option Nat) : Post :=
  { p with phase := .acquired held, granted := true }

def Post.at_ (p : Post) (phase : PostPhase) : Post := { p with phase := phase }

inductive Move where
  | insert (now : Nat)
  | takeOver
  | read
  /-- A statement of `Claim` fails. -/
  | claimFails
  | process
  | return_ (ok : Bool)
  /-- The statement may fail, which is only logged. -/
  | complete (executed : Bool)
  | release (executed : Bool)
  | die

/-- What follows the third statement of a pass: another pass if the row has gone, once. -/
def Post.readState (p : Post) (pass : Nat) : Option ReceiptState → Post
  | none => p.at_ (if pass = 0 then .inserting 1 else .answered .inFlight)
  | some .done => p.at_ (.answered .duplicate)
  | some .processing => p.at_ (.answered .inFlight)

/-- Settling a zero receipt does nothing. -/
def settled (table : Receipts) (statement : Nat → Receipts) (executed : Bool) : Option Nat → Receipts
  | some token => if executed then statement token else table
  | none => table

/-- One step of a post, with the table and the next token. Tokens are fresh. -/
def Post.step (p : Post) (table : Receipts) (token : Nat) : Move → Option (Receipts × Nat × Post)
  | .insert now => match p.phase with
    | .inserting pass =>
      let (table, affected) := Receipts.insertReceipt table p.key token now
      some (table, token + 1,
        if affected then p.grant (some token) else p.at_ (.takingOver pass token now))
    | _ => none
  | .takeOver => match p.phase with
    | .takingOver pass mine now =>
      let (table, affected) := Receipts.takeOverReceipt table p.key mine now
      some (table, token, if affected then p.grant (some mine) else p.at_ (.reading pass))
    | _ => none
  | .read => match p.phase with
    | .reading pass => some (table, token, p.readState pass (Receipts.getReceiptState table p.key))
    | _ => none
  | .claimFails => match p.phase with
    | .inserting _ | .takingOver _ _ _ | .reading _ => some (table, token, p.grant none)
    | _ => none
  | .process => match p.phase with
    | .acquired held => some (table, token, p.at_ (.processing held))
    | _ => none
  | .return_ ok => match p.phase with
    | .processing held => some (table, token,
      { p with
        phase := if ok then .completing held else .releasing held
        committed := ok })
    | _ => none
  | .complete executed => match p.phase with
    | .completing held =>
      some (settled table (Receipts.completeReceipt table p.key) executed held, token,
        p.at_ (.answered .accepted))
    | _ => none
  | .release executed => match p.phase with
    | .releasing held =>
      some (settled table (Receipts.releaseReceipt table p.key) executed held, token,
        p.at_ (.answered .failed))
    | _ => none
  | .die => match p.phase with
    | .answered _ => none
    | _ => some (table, token, p.at_ .died)

/-! ### All instances -/

structure Endpoint where
  receipts : Receipts
  posts : List Post
  nextToken : Nat

def Endpoint.init : Endpoint := ⟨.empty, [], 0⟩

inductive Label where
  | arrive (key : MessageKey)
  | move (i : Nat) (m : Move)
  | prune (before : Nat)

def Endpoint.step (s : Endpoint) : Label → Option Endpoint
  | .arrive key => some { s with posts := s.posts ++ [.new key] }
  | .move i m => (s.posts[i]?).bind fun p =>
    (p.step s.receipts s.nextToken m).map fun (table, token, p) => ⟨table, s.posts.set i p, token⟩
  | .prune before => some { s with receipts := Receipts.pruneReceipts s.receipts before }

theorem Endpoint.move_step {s t : Endpoint} {i : Nat} {m : Move}
    (taken : s.step (.move i m) = some t) : ∃ p p', s.posts[i]? = some p ∧
      p.step s.receipts s.nextToken m = some (t.receipts, t.nextToken, p') ∧
      t.posts = s.posts.set i p' := by
  obtain ⟨p, found, rest⟩ := Option.bind_eq_some_iff.mp taken
  obtain ⟨⟨table, token, p'⟩, moved, rfl⟩ := Option.map_eq_some_iff.mp rest
  exact ⟨p, p', found, moved, rfl⟩

end Panmail.Inbound
