import Mathlib.Data.List.Sort
import Panmail.Lib.Table

/-!
# The outbox table and the review queue

The two tables a message passes through between acceptance and delivery. Every definition here is
one statement of `outbox_store.go` or `quarantine.go`; what runs between two of them is the business
of `Panmail.Outbox.System`.
-/

namespace Panmail.Outbox

open Tables List Table

/-- Instants and durations, in nanoseconds. -/
abbrev Time := Nat

/-! ### The outbox -/

inductive OutboxStatus where
  | pending | deferred | failed | sending | held
  deriving DecidableEq

structure OutboxEmail where
  id : String
  tenantID : String
  request : String
  status : OutboxStatus
  retryCount : Nat
  nextRetryAt : Time
  lastError : String
  createdAt : Time
  updatedAt : Time
  deriving DecidableEq

/-- A stored row: the message and the claim on it, if any. -/
structure OutboxRow extends OutboxEmail where
  claimToken : Option String
  claimedUntil : Option Time

abbrev OutboxTable := Table fun r : OutboxRow => r.id

/-- `ORDER BY created_at ASC`. -/
def byCreation (rows : List OutboxRow) : List OutboxRow :=
  rows.insertionSort fun a b => a.createdAt ≤ b.createdAt

/-- The claim statement's condition on a row. -/
def OutboxRow.claimable (now : Time) (r : OutboxRow) : Bool :=
  decide (r.nextRetryAt ≤ now) &&
    (r.status = .pending || r.status = .deferred ||
      (r.status = .sending && match r.claimedUntil with
        | none => true
        | some until_ => decide (until_ < now)))

/-- The ids the claim's inner `SELECT` yields, passing over the rows that another transaction has
`locked`. -/
def claimIDs (t : OutboxTable) (now : Time) (limit : Nat) (locked : List String) : List String :=
  ((byCreation (t.selectWhere fun r => r.claimable now && decide (r.id ∉ locked))).take limit).map
    fun r => r.id

def OutboxRow.claim (token : String) (until_ now : Time) (r : OutboxRow) : OutboxRow :=
  { r with status := .sending, claimToken := some token, claimedUntil := some until_,
           updatedAt := now }

@[simp] theorem claim_id (token : String) (until_ now : Time) (r : OutboxRow) :
    (r.claim token until_ now).id = r.id := rfl

/-- `claim_pending_outbox.sql`, and its PostgreSQL form. -/
def claimPending (t : OutboxTable) (token : String) (until_ now : Time) (limit : Nat)
    (locked : List String) : OutboxTable :=
  let ids := claimIDs t now limit locked
  t.updateWhere (fun r => decide (r.id ∈ ids)) (OutboxRow.claim token until_ now)
    (claim_id token until_ now)

/-- `list_claimed_outbox.sql`. -/
def listClaimed (t : OutboxTable) (token : String) : List OutboxEmail :=
  (byCreation (t.selectWhere fun r => decide (r.claimToken = some token))).map
    OutboxRow.toOutboxEmail

/-- The row the renewal statement matches. -/
def OutboxRow.ownedBy (id token : String) (r : OutboxRow) : Bool :=
  r.id = id && r.claimToken = some token && r.status = .sending

/-- `renew_outbox_claim.sql`. -/
def renewClaim (t : OutboxTable) (id token : String) (until_ : Time) : OutboxTable :=
  t.updateWhere (OutboxRow.ownedBy id token)
    (fun r => { r with claimedUntil := some until_ }) fun _ => rfl

/-- `RenewClaim`'s answer: exactly one row was affected. -/
def renewed (t : OutboxTable) (id token : String) : Bool :=
  (t.selectWhere (OutboxRow.ownedBy id token)).length = 1

/-- The columns `update_outbox.sql` sets. -/
structure OutboxUpdate where
  status : OutboxStatus
  retryCount : Nat
  nextRetryAt : Time
  lastError : String
  updatedAt : Time

def OutboxUpdate.apply (u : OutboxUpdate) (r : OutboxRow) : OutboxRow :=
  { r with status := u.status, retryCount := u.retryCount, nextRetryAt := u.nextRetryAt,
           lastError := u.lastError, updatedAt := u.updatedAt,
           claimToken := none, claimedUntil := none }

@[simp] theorem apply_id (u : OutboxUpdate) (r : OutboxRow) : (u.apply r).id = r.id := rfl

/-- `update_outbox.sql`: the row is named by its id alone. -/
def updateOutbox (t : OutboxTable) (id : String) (u : OutboxUpdate) : OutboxTable :=
  t.updateWhere (fun r => decide (r.id = id)) u.apply (apply_id u)

/-- `delete_outbox.sql`. -/
def deleteOutbox (t : OutboxTable) (id : String) : OutboxTable :=
  t.deleteWhere fun r => decide (r.id = id)

/-- `prune_terminal_outbox.sql`. -/
def pruneTerminal (t : OutboxTable) (cutoff : Time) : OutboxTable :=
  t.deleteWhere fun r => r.status = .failed && decide (r.updatedAt < cutoff)

/-! ### The review queue -/

inductive Direction where
  | inbound | outbound
  deriving DecidableEq

/-- What a filter rule does to a message. A decision without one is not recorded. -/
inductive FilterAction where
  | hold | reject | tag
  deriving DecidableEq

inductive ReviewStatus where
  | pending | released | rejected | expired
  deriving DecidableEq

structure FilteredMessage where
  id : String
  tenantID : String
  direction : Direction
  action : FilterAction
  status : ReviewStatus
  messageID : String
  payloadRef : String
  reviewedBy : String
  reviewedAt : Option Time
  reviewNote : String
  createdAt : Time
  expiresAt : Option Time
  deriving DecidableEq

abbrev ReviewTable := Table FilteredMessage.id

/-- `prune_held_outbox.sql`. -/
def pruneHeld (t : OutboxTable) (reviews : ReviewTable) (cutoff : Time) : OutboxTable :=
  t.deleteWhere fun r => r.status = .held && decide (r.createdAt < cutoff) &&
    !(reviews.rows.any fun f => f.messageID = r.id && f.status = .pending)

/-- The row `reviewFiltered` matches. -/
def FilteredMessage.reviewable (tenantID id : String) (m : FilteredMessage) : Bool :=
  m.tenantID = tenantID && m.id = id && m.status = .pending

/-- `reviewFiltered`, the conditional update of `Review`. -/
def reviewFiltered (t : ReviewTable) (tenantID id : String) (status : ReviewStatus)
    (reviewedBy : String) (now : Time) (note : String) : ReviewTable :=
  t.updateWhere (FilteredMessage.reviewable tenantID id)
    (fun m => { m with status := status, reviewedBy := reviewedBy, reviewedAt := some now,
                       reviewNote := note }) fun _ => rfl

/-- Whether that update affected a row. -/
def reviewAffected (t : ReviewTable) (tenantID id : String) : Bool :=
  !(t.selectWhere (FilteredMessage.reviewable tenantID id)).isEmpty

/-- `Get`: a record of this tenant. -/
def getFiltered (t : ReviewTable) (tenantID id : String) : Option FilteredMessage :=
  (t.lookup id).filter fun m => decide (m.tenantID = tenantID)

def dueForExpiry (t : ReviewTable) (now : Time) (limit : Nat) : List String :=
  let due := t.selectWhere fun m => m.status = .pending && match m.expiresAt with
    | none => false
    | some deadline => decide (deadline ≤ now)
  ((due.insertionSort fun a b => a.expiresAt.getD 0 ≤ b.expiresAt.getD 0).take limit).map
    fun m => m.id

/-- The row the sweep's update matches. -/
def FilteredMessage.expirable (ids : List String) (m : FilteredMessage) : Bool :=
  m.status = .pending && decide (m.id ∈ ids)

/-- The middle statement of `Expire`. -/
def expireFiltered (t : ReviewTable) (ids : List String) : ReviewTable :=
  t.updateWhere (FilteredMessage.expirable ids) (fun m => { m with status := .expired })
    fun _ => rfl

/-- The last statement of `Expire`. -/
def listExpired (t : ReviewTable) (ids : List String) : List FilteredMessage :=
  t.selectWhere fun m => m.status = .expired && decide (m.id ∈ ids)

/-- `COALESCE(reviewed_at, expires_at, created_at)`. -/
def FilteredMessage.decidedAt (m : FilteredMessage) : Time :=
  (m.reviewedAt.orElse fun _ => m.expiresAt).getD m.createdAt

def pruneTerminalFiltered (t : ReviewTable) (cutoff : Time) : ReviewTable :=
  t.deleteWhere fun m => ((m.status = .released || m.status = .rejected || m.status = .expired) ||
    decide (m.action ≠ .hold)) && decide (m.decidedAt < cutoff)

/-! ### What the statements do to the row a key names -/

variable {t : OutboxTable} {id token : String} {r : OutboxRow} {now : Time}

theorem id_of_lookup (found : t.lookup id = some r) : r.id = id := by
  have named := key_of_lookup found
  exact named

theorem claimable_cases (ok : r.claimable now = true) :
    r.status = .pending ∨ r.status = .deferred ∨
      r.status = .sending ∧ ∀ u, r.claimedUntil = some u → u < now := by
  simp only [OutboxRow.claimable, Bool.and_eq_true, Bool.or_eq_true, decide_eq_true_eq] at ok
  obtain ⟨_, (pending | deferred) | ⟨sending, lapsed⟩⟩ := ok
  · exact .inl pending
  · exact .inr (.inl deferred)
  · refine .inr (.inr ⟨sending, fun u claimed => ?_⟩)
    simpa [claimed] using lapsed

theorem lapsed_of_claimable (ok : r.claimable now = true) (sending : r.status = .sending) :
    ∀ u, r.claimedUntil = some u → u < now := by
  rcases claimable_cases ok with status | status | ⟨_, lapsed⟩
  · rw [sending] at status
    cases status
  · rw [sending] at status
    cases status
  · exact lapsed

theorem mem_byCreation {rows : List OutboxRow} :
    r ∈ byCreation rows ↔ r ∈ rows := by simp [byCreation]

theorem lookup_claimPending (t : OutboxTable) (token : String) (until_ now : Time)
    (limit : Nat) (locked : List String) (id : String) :
    (claimPending t token until_ now limit locked).lookup id = t.lookup id ∨
      ∃ r, t.lookup id = some r ∧ r.claimable now = true ∧
        (claimPending t token until_ now limit locked).lookup id =
          some (r.claim token until_ now) := by
  rw [claimPending, lookup_updateWhere]
  cases found : t.lookup id with
  | none => exact .inl rfl
  | some r =>
    by_cases taken : r.id ∈ claimIDs t now limit locked
    · refine .inr ⟨r, rfl, ?_, by simp [taken]⟩
      obtain ⟨x, listed, same⟩ := mem_map.mp taken
      have selected := mem_byCreation.mp (mem_of_mem_take listed)
      obtain ⟨present, allowed⟩ := mem_selectWhere.mp selected
      have named : t.lookup r.id = some x := lookup_iff.mpr ⟨present, same⟩
      rw [id_of_lookup found, found, Option.some.injEq] at named
      simp only [Bool.and_eq_true] at allowed
      exact named ▸ allowed.1
    · exact .inl (by simp [taken])

theorem mem_listClaimed {e : OutboxEmail} : e ∈ listClaimed t token ↔
      ∃ r, t.lookup e.id = some r ∧ r.claimToken = some token ∧ r.toOutboxEmail = e := by
  constructor
  · intro listed
    obtain ⟨r, sorted, rfl⟩ := mem_map.mp listed
    obtain ⟨present, claimed⟩ := mem_selectWhere.mp (mem_byCreation.mp sorted)
    exact ⟨r, lookup_iff.mpr ⟨present, rfl⟩, of_decide_eq_true claimed, rfl⟩
  · rintro ⟨r, found, claimed, rfl⟩
    refine mem_map_of_mem (mem_byCreation.mpr (mem_selectWhere.mpr ⟨?_, ?_⟩))
    · exact mem_of_lookup found
    · exact decide_eq_true claimed

theorem nodup_listClaimed (t : OutboxTable) (token : String) :
    ((listClaimed t token).map OutboxEmail.id).Nodup := by
  have ids : (listClaimed t token).map OutboxEmail.id =
      (byCreation (t.selectWhere fun r => decide (r.claimToken = some token))).map
        fun r => r.id := by
    rw [listClaimed, map_map]
    rfl
  rw [ids]
  have sorted := perm_insertionSort (fun a b : OutboxRow => a.createdAt ≤ b.createdAt)
    (t.selectWhere fun r => decide (r.claimToken = some token))
  refine (sorted.map fun r => r.id).nodup_iff.mpr ?_
  exact t.unique.sublist (filter_sublist.map _)

theorem lookup_renewClaim (t : OutboxTable) (id token : String) (until_ : Time) (k : String) :
    (renewClaim t id token until_).lookup k = (t.lookup k).map fun r =>
      if r.ownedBy id token then { r with claimedUntil := some until_ } else r := by
  rw [renewClaim, lookup_updateWhere]

theorem ownedBy_iff :
    r.ownedBy id token = true ↔ r.id = id ∧ r.claimToken = some token ∧ r.status = .sending := by
  simp [OutboxRow.ownedBy, and_assoc]

theorem renewed_iff : renewed t id token = true ↔
      ∃ r, t.lookup id = some r ∧ r.claimToken = some token ∧ r.status = .sending := by
  rw [renewed, selectWhere_named t _ id fun r owned => (ownedBy_iff.mp owned).1]
  cases found : t.lookup id with
  | none => simp
  | some r =>
    have named : r.id = id := id_of_lookup found
    by_cases owned : r.ownedBy id token = true
    · simp [Option.filter, owned, ownedBy_iff.mp owned]
    · have other : ¬(r.claimToken = some token ∧ r.status = .sending) :=
        fun holds => owned (ownedBy_iff.mpr ⟨named, holds⟩)
      simpa [Option.filter, owned] using other

theorem lookup_updateOutbox (t : OutboxTable) (id : String) (u : OutboxUpdate) (k : String) :
    (updateOutbox t id u).lookup k = if k = id then (t.lookup k).map u.apply else t.lookup k := by
  rw [updateOutbox, lookup_updateWhere]
  cases found : t.lookup k with
  | none => simp
  | some r =>
    have named : r.id = k := id_of_lookup found
    by_cases same : k = id <;> simp [named, same]

theorem lookup_deleteOutbox (t : OutboxTable) (id k : String) :
    (deleteOutbox t id).lookup k = if k = id then none else t.lookup k := by
  rw [deleteOutbox, lookup_deleteWhere]
  cases found : t.lookup k with
  | none => simp
  | some r =>
    have named : r.id = k := id_of_lookup found
    by_cases same : k = id <;> simp [named, same, Option.filter]

theorem lookup_pruneTerminal (t : OutboxTable) (cutoff : Time) (id : String) :
    (pruneTerminal t cutoff).lookup id = t.lookup id ∨
      ∃ r, t.lookup id = some r ∧ r.status = .failed ∧
        (pruneTerminal t cutoff).lookup id = none := by
  rcases lookup_deleteWhere_cases t _ id with same | ⟨r, found, met, gone⟩
  · exact .inl same
  · simp only [Bool.and_eq_true, decide_eq_true_eq] at met
    exact .inr ⟨r, found, met.1, gone⟩

theorem lookup_pruneHeld (t : OutboxTable) (reviews : ReviewTable) (cutoff : Time) (id : String) :
    (pruneHeld t reviews cutoff).lookup id = t.lookup id ∨
      (∃ r, t.lookup id = some r ∧ r.status = .held) ∧
        (∀ m ∈ reviews.rows, m.messageID = id → m.status ≠ .pending) ∧
        (pruneHeld t reviews cutoff).lookup id = none := by
  rcases lookup_deleteWhere_cases t _ id with same | ⟨r, found, met, gone⟩
  · exact .inl same
  · have named : r.id = id := id_of_lookup found
    simp only [named, Bool.and_eq_true, decide_eq_true_eq, Bool.not_eq_true',
      any_eq_false, not_and] at met
    exact .inr ⟨⟨r, found, met.1.1⟩, met.2, gone⟩

end Panmail.Outbox
