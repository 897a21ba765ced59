import Panmail.Events.Keys

/-!
# The Pebble event store: the writer and the retention pass

One goroutine, the writer, takes events from a queue, stages their rows in a batch and commits the
batch from time to time. It alone moves the pointer to a recipient's latest event. A retention pass
walks a snapshot of the events, deletes the expired ones in chunks, and after each chunk asks the
writer to drop the pointers that still name one of them.
-/
namespace Panmail.Events

open ByteStrings KeyValue Runs Delivery

/-- What a row holds: the JSON of an event, or a text. -/
inductive Value where
  | event (e : EmailEvent)
  | text (s : Bytes)
  deriving DecidableEq

abbrev DB := Store Bytes Value

abbrev Write := Op Bytes Value

/-- `batchLatestTs`: the pointers moved by the batch that is not committed yet. -/
abbrev BatchLatestTs := Store Bytes Bytes

def cacheKey (p : Pair) : Bytes := (Key.latestTs p).parts

/-! ### The writer -/

/-- The pointer of a recipient: from the batch if the batch has moved it, from the database
otherwise. -/
def latestTs (db : DB) (batchLatestTs : BatchLatestTs) (p : Pair) : Option Bytes :=
  match batchLatestTs.get (cacheKey p) with
  | some ts => some ts
  | none =>
    match db.get (Key.latestTs p).bytes with
    | some (.text ts) => some ts
    | _ => none

/-- `performWrite`, without the counters. -/
def performWrite (db : DB) (e : EmailEvent) (batchLatestTs : BatchLatestTs) :
    List Write × BatchLatestTs :=
  let rows : List Write :=
    [.set (eventKey e).bytes (.event e),
      .set (idKey e).bytes (.text (utf8 e.tenantID ++ colon :: tsDesc e))]
  if e.messageID = "" then (rows, batchLatestTs)
  else
    let rows := rows ++ [.set (msgEventKey e).bytes (.event e)]
    let p := pairOf e
    let old := (latestTs db batchLatestTs p).getD []
    if old = [] ∨ tsDesc e ≤ old then
      (rows ++ (if old = [] then [] else [.delete (Key.latestEvent p old).bytes]) ++
        [.set (Key.latestTs p).bytes (.text (tsDesc e)),
          .set (Key.latestEvent p (tsDesc e)).bytes (.event e)],
        batchLatestTs.set (cacheKey p) (tsDesc e))
    else (rows, batchLatestTs)

structure LatestPointer where
  pair : Pair
  tsDesc : Bytes

def performLatestExpiry (db : DB) : List LatestPointer → BatchLatestTs → List Write × BatchLatestTs
  | [], batchLatestTs => ([], batchLatestTs)
  | p :: expired, batchLatestTs =>
    match latestTs db batchLatestTs p.pair with
    | none => performLatestExpiry db expired batchLatestTs
    | some current =>
      -- only when this is the event it points at
      if current ≠ p.tsDesc then performLatestExpiry db expired batchLatestTs
      else
        let (rest, after) := performLatestExpiry db expired (batchLatestTs.set (cacheKey p.pair) [])
        (.delete (Key.latestEvent p.pair p.tsDesc).bytes ::
          .delete (Key.latestTs p.pair).bytes :: rest, after)

/-! ### Retention -/

def truncateBatchSize : Nat := 1000

/-- The zero `time.Time`, 1 January of the year 1. -/
def zeroTime : Int := -62135596800 * 10 ^ 9

structure ExpiredEvent where
  key : Bytes
  id : Bytes
  value : Value

/-- The rows that `truncateBefore` expires: those whose key counts down from above the cutoff. -/
def expiredRow (cutoff : Int) (row : Bytes × Value) : Option ExpiredEvent :=
  match row.1.splitOn colon with
  | _ :: _ :: ts :: id :: _ => if parseInt64 ts ≤ cutoff then none else some ⟨row.1, id, row.2⟩
  | _ => none

/-- What expiring events amounts to: lines for the archive, deletions, and the pointers that
the writer is asked to drop. -/
structure Expiry where
  archived : List EmailEvent
  deletes : List Write
  latest : List LatestPointer

def deleteEventRow (rec_ : ExpiredEvent) : List Write :=
  [.delete rec_.key, .delete (utf8 "event_id" ++ colon :: rec_.id)]

def deleteEventIndexes (e : EmailEvent) : List Write × Option LatestPointer :=
  if e.messageID = "" then ([], none)
  else ([.delete (msgEventKey e).bytes], some ⟨pairOf e, tsDesc e⟩)

def expireEvent (rec_ : ExpiredEvent) (archive : Bool) : Expiry :=
  match rec_.value with
  | .text _ => ⟨[], deleteEventRow rec_, []⟩
  | .event e =>
    let (indexes, pointer) := deleteEventIndexes e
    ⟨if archive then [e] else [], indexes ++ deleteEventRow rec_, pointer.toList⟩

/-- `held` are the ids of the chunk that are archived elsewhere. -/
def expireChunk (chunk : List ExpiredEvent) (held : List Bytes) : Expiry where
  archived := chunk.flatMap fun rec_ => (expireEvent rec_ (rec_.id ∉ held)).archived
  deletes := chunk.flatMap fun rec_ => (expireEvent rec_ (rec_.id ∉ held)).deletes
  latest := chunk.flatMap fun rec_ => (expireEvent rec_ (rec_.id ∉ held)).latest

/-- A retention pass: the rows its iterator reads, the expired ones not deleted yet, and the
pointers it waits for the writer to drop. -/
structure Pass where
  cutoff : Int
  scanned : List (Bytes × Value)
  remaining : List ExpiredEvent
  handed : List LatestPointer

def Pass.completed (p : Pass) : Bool := p.remaining.isEmpty && p.handed.isEmpty

theorem Pass.completed_iff {p : Pass} : p.completed = true ↔ p.remaining = [] ∧ p.handed = [] := by
  simp [Pass.completed]

/-! ### The store as a machine -/

structure EventStore where
  db : DB
  batch : List Write
  batchLatestTs : BatchLatestTs
  passes : List Pass
  archived : List EmailEvent
  /-- Every event written, for the record. -/
  written : List EmailEvent

def EventStore.init : EventStore := ⟨.empty, [], .empty, [], [], []⟩

inductive StoreAction where
  | write (e : EmailEvent)
  /-- The writer commits: the batch is full, or the ticker has ticked. -/
  | commit
  /-- The store is closed, which drains the queue and commits, and opened again. -/
  | restart
  | truncateBefore (before : Int)
  /-- A pass archives and deletes its next chunk. -/
  | expireChunk (i : Nat) (held : List Bytes)
  | expireLatest (i : Nat)

namespace EventStore

/-- The database with the batch, as it will be once the batch is committed. -/
def view (s : EventStore) : DB := s.db.commit s.batch

def commitBatch (s : EventStore) : EventStore :=
  { s with db := s.view, batch := [], batchLatestTs := .empty }

def step (s : EventStore) : StoreAction → Option EventStore
  | .write e =>
    let (rows, after) := performWrite s.db e s.batchLatestTs
    some { s with
      batch := s.batch ++ rows, batchLatestTs := after, written := s.written ++ [e] }
  | .commit => some s.commitBatch
  | .restart => if s.passes.all Pass.completed then some s.commitBatch else none
  | .truncateBefore before =>
    if before = zeroTime then none
    else
      let cutoff := int64 (maxInt64 - unixNano before)
      let scanned := s.db.scan (utf8 "events:") (utf8 "events;")
      some { s with
        passes := s.passes ++ [⟨cutoff, scanned, scanned.filterMap (expiredRow cutoff), []⟩] }
  | .expireChunk i held =>
    match s.passes[i]? with
    | none => none
    | some p =>
      if p.handed ≠ [] ∨ p.remaining = [] then none
      else
        let expiry := Events.expireChunk (p.remaining.take truncateBatchSize) held
        some { s with
          db := s.db.commit expiry.deletes
          archived := s.archived ++ expiry.archived
          passes := s.passes.set i { p with
            remaining := p.remaining.drop truncateBatchSize, handed := expiry.latest } }
  | .expireLatest i =>
    match s.passes[i]? with
    | none => none
    | some p =>
      if p.handed = [] then none
      else
        let (rows, _) := performLatestExpiry s.db p.handed s.batchLatestTs
        some { s with
          db := s.db.commit (s.batch ++ rows), batch := [], batchLatestTs := .empty
          passes := s.passes.set i { p with handed := [] } }

end EventStore

/-- The events a database holds: the bodies of the rows under their own keys. -/
def stored (db : DB) : List EmailEvent :=
  db.rows.filterMap fun r =>
    match r.2 with
    | .event e => if r.1 = (eventKey e).bytes then some e else none
    | .text _ => none

theorem mem_stored {db : DB} {e : EmailEvent} :
    e ∈ stored db ↔ db.get (eventKey e).bytes = some (.event e) := by
  rw [Store.get_iff]
  constructor
  · intro mem
    obtain ⟨⟨k, v⟩, row, body⟩ := List.mem_filterMap.mp mem
    cases v with
    | text => cases body
    | event =>
      simp only [Option.ite_none_right_eq_some, Option.some.injEq] at body
      obtain ⟨own, rfl⟩ := body
      exact own ▸ row
  · intro row
    exact List.mem_filterMap.mpr ⟨_, row, by simp⟩

end Panmail.Events
