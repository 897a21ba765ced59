import Panmail.Lib.Run
import Panmail.Lib.Table

/-!
# The webhook delivery queue

A notification is one row of `webhook_deliveries`, owed to one subscription. Workers claim due
rows under a token and a lease, post them, and record each outcome under the token. A batch is
split by subscription: the notifications of one are posted one after the other, those of
different ones side by side.
-/
namespace Panmail.Webhooks

open Tables Runs List Option

/-- Instants and durations, in nanoseconds. -/
abbrev Time := Nat

inductive DeliveryStatus where
  | pending
  | deferred
  | delivered
  | failed
  | sending
  deriving DecidableEq

def DeliveryStatus.isTerminal : DeliveryStatus → Bool
  | .delivered | .failed => true
  | _ => false

/-- A notification as a worker holds it. An empty `ClaimToken` is `none`. -/
structure WebhookDelivery where
  id : String
  tenantID : String
  webhookID : String
  event : String
  payload : String
  status : DeliveryStatus
  attemptCount : Nat
  claimToken : Option String
  nextAttemptAt : Time
  lastError : String
  createdAt : Time
  updatedAt : Time
  deriving DecidableEq

/-- A row of `webhook_deliveries`. -/
structure DeliveryRow extends WebhookDelivery where
  claimedUntil : Option Time
  deriving DecidableEq

abbrev DeliveryTable := Table fun r : DeliveryRow => r.id

/-! ### The statements -/

/-- The row that `Create` inserts for `Enqueue`. -/
def DeliveryRow.new (id tenantID webhookID event payload : String) (now : Time) : DeliveryRow where
  id := id
  tenantID := tenantID
  webhookID := webhookID
  event := event
  payload := payload
  status := .pending
  attemptCount := 0
  claimToken := none
  nextAttemptAt := now
  lastError := ""
  createdAt := now
  updatedAt := now
  claimedUntil := none

def isDue (now : Time) (r : DeliveryRow) : Bool :=
  decide (r.nextAttemptAt ≤ now) &&
    match r.status with
    | .pending | .deferred => true
    | .sending => r.claimedUntil.all (· < now)
    | .delivered | .failed => false

/-- `ORDER BY created_at, id`. -/
def precedes (x r : DeliveryRow) : Bool :=
  decide (x.createdAt < r.createdAt) || decide (x.createdAt = r.createdAt) && decide (x.id < r.id)

/-- `ROW_NUMBER() OVER (PARTITION BY webhook_id ORDER BY created_at, id)`. -/
def turn (due : List DeliveryRow) (r : DeliveryRow) : Nat :=
  due.countP (fun x => decide (x.webhookID = r.webhookID) && precedes x r) + 1

/-- `ORDER BY turn, created_at`. -/
def notAfter (due : List DeliveryRow) (x y : DeliveryRow) : Bool :=
  decide (turn due x < turn due y) ||
    decide (turn due x = turn due y) && decide (x.createdAt ≤ y.createdAt)

/-- An answer to the ranking query, before its `LIMIT`. -/
def Ranked (due : List DeliveryRow) (perSubscription : Nat) (answer : List DeliveryRow) : Prop :=
  answer.Perm (due.filter fun r => decide (turn due r ≤ perSubscription)) ∧
    answer.Pairwise fun x y => notAfter due x y = true

instance (due : List DeliveryRow) (perSubscription : Nat) (answer : List DeliveryRow) :
    Decidable (Ranked due perSubscription answer) := by
  unfold Ranked
  infer_instance

theorem turn_lt {due : List DeliveryRow} {x y : DeliveryRow} (mem : x ∈ due)
    (same : x.webhookID = y.webhookID) (older : precedes x y = true) : turn due x < turn due y := by
  have first : (decide (x.webhookID = y.webhookID) && precedes x y) = true := by simp [same, older]
  have notItself : (decide (x.webhookID = x.webhookID) && precedes x x) = false := by
    simp [precedes]
  refine Nat.succ_lt_succ (countP_lt_countP (fun z _ before => ?_) mem notItself first)
  -- what comes before the older one comes before the newer one
  simp only [precedes, Bool.and_eq_true, Bool.or_eq_true, decide_eq_true_eq] at before older ⊢
  refine ⟨before.1.trans same, ?_⟩
  rcases before.2 with earlier | ⟨equal, less⟩ <;> rcases older with later | ⟨equal', less'⟩
  · exact .inl (Nat.lt_trans earlier later)
  · exact .inl (equal' ▸ earlier)
  · exact .inl (equal ▸ later)
  · exact .inr ⟨equal.trans equal', String.lt_trans less less'⟩

/-- A claim that takes a notification takes every older one of the subscription that is due. -/
theorem Ranked.older_taken {due answer : List DeliveryRow} {perSubscription n : Nat}
    (ranked : Ranked due perSubscription answer) {x y : DeliveryRow} (mem : x ∈ due)
    (taken : y ∈ answer.take n) (same : x.webhookID = y.webhookID)
    (older : x.createdAt < y.createdAt) : x ∈ answer.take n := by
  have before := turn_lt mem same (by simp [precedes, older])
  have within := (mem_filter.mp (ranked.1.mem_iff.mp (mem_of_mem_take taken))).2
  have inside : x ∈ answer := by
    refine ranked.1.mem_iff.mpr (mem_filter.mpr ⟨mem, decide_eq_true ?_⟩)
    exact Nat.le_trans (Nat.le_of_lt before) (of_decide_eq_true within)
  rw [← take_append_drop n answer, mem_append] at inside
  refine inside.resolve_right fun later => ?_
  have sorted := ranked.2
  rw [← take_append_drop n answer, pairwise_append] at sorted
  have order := sorted.2.2 y taken x later
  simp only [notAfter, Bool.or_eq_true, Bool.and_eq_true, decide_eq_true_eq] at order
  omega

def DeliveryRow.claim (token : String) (until_ now : Time) (r : DeliveryRow) : DeliveryRow :=
  { r with status := .sending, claimToken := some token, claimedUntil := some until_,
           updatedAt := now }

def DeliveryRow.record (d : WebhookDelivery) (now : Time) (r : DeliveryRow) : DeliveryRow :=
  { r with status := d.status, attemptCount := d.attemptCount, nextAttemptAt := d.nextAttemptAt,
           lastError := d.lastError, updatedAt := now, claimToken := none, claimedUntil := none }

def DeliveryRow.deferTo (until_ now : Time) (r : DeliveryRow) : DeliveryRow :=
  { r with nextAttemptAt := until_, updatedAt := now }

namespace Queue

/-- The claim of the rows with the given ids. PostgreSQL checks the due condition again under the
rows' locks. -/
def claimUpdate (table : DeliveryTable) (ids : List String) (token : String)
    (until_ now : Time) : DeliveryTable :=
  table.updateWhere (fun r => decide (r.id ∈ ids) && isDue now r) (DeliveryRow.claim token until_ now)
    fun _ => rfl

/-- An answer to the query that reads a claim back. -/
def Listed (table : DeliveryTable) (token : String) (answer : List DeliveryRow) : Prop :=
  answer.Perm (table.selectWhere fun r => decide (r.claimToken = some token)) ∧
    answer.Pairwise fun x y => x.createdAt ≤ y.createdAt

instance (table : DeliveryTable) (token : String) (answer : List DeliveryRow) :
    Decidable (Listed table token answer) := by
  unfold Listed
  infer_instance

/-- `Update`: a copy without a token records nothing. -/
def update (table : DeliveryTable) (d : WebhookDelivery) (now : Time) : DeliveryTable :=
  match d.claimToken with
  | none => table
  | some token =>
    table.updateWhere (fun r => decide (r.id = d.id) && decide (r.claimToken = some token))
      (DeliveryRow.record d now) fun _ => rfl

def deferSubscription (table : DeliveryTable) (webhookID : String) (until_ now : Time) :
    DeliveryTable :=
  table.updateWhere (fun r => decide (r.webhookID = webhookID) &&
      (decide (r.status = .pending) || decide (r.status = .deferred)) &&
      decide (r.nextAttemptAt < until_))
    (DeliveryRow.deferTo until_ now) fun _ => rfl

def pruneTerminal (table : DeliveryTable) (olderThan : Time) : DeliveryTable :=
  table.deleteWhere fun r => r.status.isTerminal && decide (r.updatedAt < olderThan)

end Queue

/-! ### The retry schedule -/

def second : Time := 10 ^ 9

def minute : Time := 60 * second

def hour : Time := 60 * minute

def retrySchedule : List Time :=
  [10 * second, 30 * second, 2 * minute, 10 * minute, 30 * minute, 2 * hour, 6 * hour]

def nextAttempt (attempt : Nat) : Option Time :=
  if attempt < 1 ∨ attempt > retrySchedule.length then none else retrySchedule[attempt - 1]?

/-- The first attempt, and one for every entry of the schedule. -/
def maxAttempts : Nat := retrySchedule.length + 1

def retryable (status : Nat) : Bool := status = 408 || status = 429 || decide (500 ≤ status)

/-! ### An attempt -/

inductive SubscriptionRead where
  | gone
  | unreadable (err : String)
  | disabled
  | active

inductive PostResult where
  | disallowed (err : String)
  | failed (err : String)
  | status (code : Nat)

def finish (d : WebhookDelivery) (status : DeliveryStatus) (reason : String) : WebhookDelivery :=
  { d with status, lastError := reason }

def reschedule (now : Time) (d : WebhookDelivery) (reason : String) : WebhookDelivery :=
  match nextAttempt d.attemptCount with
  | none => finish d .failed reason
  | some delay => { d with status := .deferred, nextAttemptAt := now + delay, lastError := reason }

/-- The outcome of an attempt that got an answer, and whether the endpoint could not be
reached. -/
def outcome (now : Time) (d : WebhookDelivery) : PostResult → WebhookDelivery × Bool
  | .disallowed err => (finish d .failed err, false)
  | .failed err => (reschedule now d err, true)
  | .status code =>
    if 200 ≤ code ∧ code < 300 then (finish d .delivered "", false)
    else if retryable code then (reschedule now d ("endpoint returned " ++ toString code), false)
    else (finish d .failed ("endpoint returned " ++ toString code), false)

/-- A notification that was claimed and not attempted goes back as it was. -/
def released (d : WebhookDelivery) : WebhookDelivery :=
  { d with status := if d.attemptCount = 0 then .pending else .deferred }

/-! ### One subscription's share of a batch -/

inductive GroupPhase where
  | ready
  /-- `GetSubscription` is asked about the notification. -/
  | reading (d : WebhookDelivery)
  | posting (d : WebhookDelivery)
  | saving (d : WebhookDelivery) (unreachable : Bool)
  /-- The notifications not attempted are handed back, to be deferred if the endpoint is down. -/
  | releasing (until_ : Option Time)
  | deferring (until_ : Time)
  | finished

/-- The goroutine that delivers one subscription's notifications of a batch. -/
structure Group where
  webhookID : String
  rest : List WebhookDelivery
  streak : Nat
  worst : Nat
  phase : GroupPhase

inductive GroupMove where
  /-- The head of the loop. `halted`: the worker stops, or the time to start attempts is over. -/
  | next (halted : Bool) (now : Time)
  | subscription (read : SubscriptionRead) (now : Time)
  | answer (result : PostResult) (now : Time)
  /-- The statement that records the outcome, executed or not. -/
  | save (executed : Bool) (now : Time)
  | release (executed : Bool) (now : Time)
  | deferRest (executed : Bool) (now : Time)

structure Config where
  batchSize : Nat
  perSubscription : Nat
  lease : Time
  failureStreak : Nat

def defaultConfig : Config where
  batchSize := 50
  perSubscription := 10
  lease := 2 * minute
  failureStreak := 2

namespace Group

/-- How long an endpoint is left alone whose failed attempts have got this far. -/
def backOff (attempts : Nat) : Time :=
  (nextAttempt attempts).getD (retrySchedule.getLast (by decide))

def save (table : DeliveryTable) (d : WebhookDelivery) (executed : Bool) (now : Time) :
    DeliveryTable :=
  if executed then Queue.update table d now else table

def step (config : Config) (table : DeliveryTable) (g : Group) :
    GroupMove → Option (DeliveryTable × Group)
  | .next halted now =>
    match g.phase, g.rest with
    | .ready, [] => some (table, { g with phase := .finished })
    | .ready, d :: rest =>
      if halted then some (table, { g with phase := .releasing none })
      else if 0 < config.failureStreak ∧ config.failureStreak ≤ g.streak then
        let until_ := now + backOff g.worst
        some (table, { g with
          rest := g.rest.map fun d => { d with nextAttemptAt := until_ }
          phase := .releasing (some until_) })
      else
        some (table, { g with
          rest, phase := .reading { d with attemptCount := d.attemptCount + 1 } })
    | _, _ => none
  | .subscription read now =>
    match g.phase with
    | .reading d =>
      let saving (d : WebhookDelivery) := some (table, { g with phase := .saving d false })
      match read with
      | .gone => saving (finish d .failed "the webhook subscription no longer exists")
      | .unreadable err =>
        saving (reschedule now d ("the webhook subscription could not be read: " ++ err))
      | .disabled => saving (finish d .failed "the webhook subscription is disabled")
      | .active => some (table, { g with phase := .posting d })
    | _ => none
  | .answer result now =>
    match g.phase with
    | .posting d =>
      let (d, unreachable) := outcome now d result
      some (table, { g with phase := .saving d unreachable })
    | _ => none
  | .save executed now =>
    match g.phase with
    | .saving d unreachable =>
      some (save table d executed now, { g with
        streak := if unreachable then g.streak + 1 else 0
        worst := if unreachable then max g.worst d.attemptCount else g.worst
        phase := .ready })
    | _ => none
  | .release executed now =>
    match g.phase, g.rest with
    | .releasing until_, d :: rest =>
      some (save table (released d) executed now, { g with rest, phase := .releasing until_ })
    | .releasing none, [] => some (table, { g with phase := .finished })
    | .releasing (some until_), [] => some (table, { g with phase := .deferring until_ })
    | _, _ => none
  | .deferRest executed now =>
    match g.phase with
    | .deferring until_ =>
      some (if executed then Queue.deferSubscription table g.webhookID until_ now else table,
        { g with phase := .finished })
    | _ => none

inductive Stepped (config : Config) (table : DeliveryTable) (x : Group) :
    GroupMove → DeliveryTable → Group → Prop
  | finish (move : GroupMove) (ended : x.phase = .ready ∨ x.phase = .releasing none)
      (queue : x.rest = []) : Stepped config table x move table { x with phase := .finished }
  | halt (now : Time) (ready : x.phase = .ready) :
      Stepped config table x (.next true now) table { x with phase := .releasing none }
  | giveUp (halted : Bool) (now until_ : Time) (ready : x.phase = .ready) :
      Stepped config table x (.next halted now) table { x with
        rest := x.rest.map fun d => { d with nextAttemptAt := until_ }
        phase := .releasing (some until_) }
  | start (halted : Bool) (now : Time) (d : WebhookDelivery) (rest : List WebhookDelivery)
      (ready : x.phase = .ready) (queue : x.rest = d :: rest) :
      Stepped config table x (.next halted now) table
        { x with rest, phase := .reading { d with attemptCount := d.attemptCount + 1 } }
  | unposted (read : SubscriptionRead) (now : Time) (d d' : WebhookDelivery)
      (reading : x.phase = .reading d) (recorded : (∃ reason, d' = finish d .failed reason) ∨
        ∃ reason, d' = reschedule now d reason) :
      Stepped config table x (.subscription read now) table { x with phase := .saving d' false }
  | post (now : Time) (d : WebhookDelivery) (reading : x.phase = .reading d) :
      Stepped config table x (.subscription .active now) table { x with phase := .posting d }
  | answer (result : PostResult) (now : Time) (d : WebhookDelivery)
      (posting : x.phase = .posting d) :
      Stepped config table x (.answer result now) table
        { x with phase := .saving (outcome now d result).1 (outcome now d result).2 }
  | save (executed : Bool) (now : Time) (d : WebhookDelivery) (unreachable : Bool)
      (streak worst : Nat) (saving : x.phase = .saving d unreachable) :
      Stepped config table x (.save executed now) (save table d executed now)
        { x with streak, worst, phase := .ready }
  | release (executed : Bool) (now : Time) (until_ : Option Time) (d : WebhookDelivery)
      (rest : List WebhookDelivery) (releasing : x.phase = .releasing until_)
      (queue : x.rest = d :: rest) :
      Stepped config table x (.release executed now) (save table (released d) executed now)
        { x with rest, phase := .releasing until_ }
  | handBack (executed : Bool) (now until_ : Time)
      (releasing : x.phase = .releasing (some until_)) (queue : x.rest = []) :
      Stepped config table x (.release executed now) table { x with phase := .deferring until_ }
  | deferRest (executed : Bool) (now until_ : Time) (deferring : x.phase = .deferring until_) :
      Stepped config table x (.deferRest executed now)
        (if executed then Queue.deferSubscription table x.webhookID until_ now else table)
        { x with phase := .finished }

theorem stepped {config : Config} {table table' : DeliveryTable} {x y : Group} {move : GroupMove}
    (h : x.step config table move = some (table', y)) : x.Stepped config table move table' y := by
  cases move <;> simp only [step] at h <;> split at h
  next ready queue =>
    cases h
    exact .finish _ (.inl ready) queue
  next d rest ready queue =>
    split at h
    next halted =>
      cases h
      exact halted ▸ .halt _ ready
    · split at h <;> cases h
      · exact .giveUp _ _ _ ready
      · exact .start _ _ d rest ready queue
  · cases h
  next d reading =>
    split at h <;> cases h
    · exact .unposted _ _ d _ reading (.inl ⟨_, rfl⟩)
    · exact .unposted _ _ d _ reading (.inr ⟨_, rfl⟩)
    · exact .unposted _ _ d _ reading (.inl ⟨_, rfl⟩)
    · exact .post _ d reading
  all_goals cases h
  next d posting => exact .answer _ _ d posting
  next d unreachable saving => exact .save _ _ d unreachable _ _ saving
  next until_ d rest releasing queue => exact .release _ _ until_ d rest releasing queue
  next releasing queue => exact .finish _ (.inr releasing) queue
  next until_ releasing queue => exact .handBack _ _ until_ releasing queue
  next until_ deferring => exact .deferRest _ _ until_ deferring

end Group

/-- Put a notification at the end of its subscription's group. -/
def addToGroup (d : WebhookDelivery) :
    List (String × List WebhookDelivery) → List (String × List WebhookDelivery)
  | [] => [(d.webhookID, [d])]
  | (webhookID, group) :: rest =>
    if webhookID = d.webhookID then (webhookID, group ++ [d]) :: rest
    else (webhookID, group) :: addToGroup d rest

def bySubscription (due : List WebhookDelivery) : List (String × List WebhookDelivery) :=
  due.foldl (fun groups d => addToGroup d groups) []

/-- The groups of the notifications added so far: one for each subscription, with its
notifications in their order. -/
structure Grouped (due : List WebhookDelivery) (groups : List (String × List WebhookDelivery)) :
    Prop where
  once : (groups.map Prod.fst).Nodup
  covers : ∀ d ∈ due, d.webhookID ∈ groups.map Prod.fst
  group : ∀ g ∈ groups, g.2 = due.filter fun d => decide (d.webhookID = g.1)
  nonempty : ∀ g ∈ groups, g.2 ≠ []

theorem keys_addToGroup (d : WebhookDelivery) (groups : List (String × List WebhookDelivery)) :
    (addToGroup d groups).map Prod.fst =
      if d.webhookID ∈ groups.map Prod.fst then groups.map Prod.fst
      else groups.map Prod.fst ++ [d.webhookID] := by
  induction groups with
  | nil => rfl
  | cons g _ ih =>
    obtain ⟨webhookID, group⟩ := g
    rw [addToGroup]
    split
    next same => simp [same]
    next other =>
      rw [map_cons, ih, map_cons]
      have away : d.webhookID ≠ webhookID := fun same => other same.symm
      simp only [mem_cons, away, false_or]
      split <;> rfl

variable {groups : List (String × List WebhookDelivery)}

theorem mem_addToGroup {d : WebhookDelivery} (once : (groups.map Prod.fst).Nodup)
    {g : String × List WebhookDelivery} (mem : g ∈ addToGroup d groups) :
    (g ∈ groups ∧ g.1 ≠ d.webhookID) ∨
      (g.1 = d.webhookID ∧ ((∃ group, (g.1, group) ∈ groups ∧ g.2 = group ++ [d]) ∨
        (g.1 ∉ groups.map Prod.fst ∧ g.2 = [d]))) := by
  induction groups with
  | nil =>
    obtain rfl := mem_singleton.mp mem
    exact .inr ⟨rfl, .inr ⟨not_mem_nil, rfl⟩⟩
  | cons first _ ih =>
    obtain ⟨webhookID, group⟩ := first
    rw [map_cons, nodup_cons] at once
    rw [addToGroup] at mem
    split at mem
    next same =>
      subst same
      rcases mem_cons.mp mem with rfl | later
      · exact .inr ⟨rfl, .inl ⟨group, mem_cons_self, rfl⟩⟩
      · exact .inl ⟨mem_cons_of_mem _ later, fun same =>
          once.1 (mem_map.mpr ⟨g, later, same⟩)⟩
    next other =>
      rcases mem_cons.mp mem with rfl | later
      · exact .inl ⟨mem_cons_self, other⟩
      · rcases ih once.2 later with ⟨old, away⟩ | ⟨same, ⟨before, old, whole⟩ | ⟨none_, whole⟩⟩
        · exact .inl ⟨mem_cons_of_mem _ old, away⟩
        · exact .inr ⟨same, .inl ⟨before, mem_cons_of_mem _ old, whole⟩⟩
        · refine .inr ⟨same, .inr ⟨fun found => ?_, whole⟩⟩
          rcases mem_cons.mp found with first | later
          · exact other (first.symm.trans same)
          · exact none_ later

theorem Grouped.add {due : List WebhookDelivery} (grouped : Grouped due groups)
    (d : WebhookDelivery) : Grouped (due ++ [d]) (addToGroup d groups) := by
  refine ⟨?_, fun e mem => ?_, fun g mem => ?_, fun g mem => ?_⟩
  · rw [keys_addToGroup]
    split
    · exact grouped.once
    next new =>
      rw [← concat_eq_append]
      exact grouped.once.concat new
  · rw [keys_addToGroup]
    rcases mem_append.mp mem with old | new
    · have found := grouped.covers e old
      split
      · exact found
      · exact mem_append_left _ found
    · obtain rfl := mem_singleton.mp new
      split
      next found => exact found
      · exact mem_concat_self
  · rw [filter_append]
    rcases mem_addToGroup grouped.once mem with
      ⟨old, away⟩ | ⟨same, ⟨group, old, whole⟩ | ⟨none_, whole⟩⟩
    · rw [grouped.group g old]
      simp [Ne.symm away]
    · have before : group = _ := grouped.group _ old
      rw [whole, before]
      simp [same]
    · have empty : due.filter (fun e => decide (e.webhookID = g.1)) = [] := by
        refine filter_eq_nil_iff.mpr fun e inside mine => none_ ?_
        exact of_decide_eq_true mine ▸ grouped.covers e inside
      rw [whole, empty]
      simp [same]
  · rcases mem_addToGroup grouped.once mem with
      ⟨old, _⟩ | ⟨_, ⟨group, _, whole⟩ | ⟨_, whole⟩⟩
    · exact grouped.nonempty g old
    · rw [whole]
      exact append_ne_nil_of_right_ne_nil _ (cons_ne_nil _ _)
    · rw [whole]
      exact cons_ne_nil _ _

theorem grouped_bySubscription (due : List WebhookDelivery) : Grouped due (bySubscription due) := by
  have general : ∀ (rest done : List WebhookDelivery) (groups : List (String × List WebhookDelivery)),
      Grouped done groups →
      Grouped (done ++ rest) (rest.foldl (fun groups d => addToGroup d groups) groups) := by
    intro rest
    induction rest with
    | nil => simp
    | cons d _ ih =>
      intro done groups grouped
      have next := ih (done ++ [d]) _ (grouped.add d)
      rwa [append_assoc, singleton_append] at next
  exact general due [] [] ⟨nodup_nil, nofun, nofun, nofun⟩

def Group.start (group : String × List WebhookDelivery) : Group :=
  ⟨group.1, group.2, 0, 0, .ready⟩

/-- The notification that a group posts, or whose attempt has ended. -/
def Group.tries (g : Group) : List String :=
  match g.phase with
  | .posting d | .saving d _ => [d.id]
  | _ => []

/-! ### Workers -/

inductive Worker where
  | idle
  /-- In `ClaimDue`, before the claim. -/
  | stamped (now : Time) (token : String)
  /-- In `ClaimDue`, before the claim is read back. -/
  | claimed (token : String)
  | delivering (groups : List Group)

structure Service where
  table : DeliveryTable
  workers : List Worker
  tokens : List String
  created : List String
  /-- The id of every notification that has been posted, or has had an attempt without a post. -/
  attempted : List String

inductive Label where
  | create (id tenantID webhookID event payload : String) (now : Time)
  | claimStart (i : Nat) (now : Time) (token : String)
  /-- The claim, with the answer of its ranking query and the rows locked by others. -/
  | claimUpdate (i : Nat) (answer : List DeliveryRow) (locked : List String)
  | claimList (i : Nat) (answer : List DeliveryRow)
  | group (i g : Nat) (move : GroupMove)
  | endBatch (i : Nat)
  | crash (i : Nat)
  | prune (olderThan : Time)

namespace Service

def setWorker (s : Service) (i : Nat) (w : Worker) : Service :=
  { s with workers := s.workers.set i w }

/-- The ids that a claim takes of an answer to its ranking query. -/
def claimIDs (config : Config) (answer : List DeliveryRow) (locked : List String) : List String :=
  ((answer.take config.batchSize).map (·.id)).filter (· ∉ locked)

def due (s : Service) (now : Time) : List DeliveryRow := s.table.selectWhere (isDue now)

def step (config : Config) (s : Service) : Label → Option Service
  | .create id tenantID webhookID event payload now =>
    if id ∈ s.created then none
    else do
      let table ← s.table.insert? (DeliveryRow.new id tenantID webhookID event payload now)
      some { s with table, created := s.created ++ [id] }
  | .claimStart i now token =>
    match s.workers[i]? with
    | some .idle =>
      if token ∈ s.tokens then none
      else some { s.setWorker i (.stamped now token) with tokens := s.tokens ++ [token] }
    | _ => none
  | .claimUpdate i answer locked =>
    match s.workers[i]? with
    | some (.stamped now token) =>
      if Ranked (s.due now) (max config.perSubscription 1) answer then
        some { s.setWorker i (.claimed token) with
          table := Queue.claimUpdate s.table (claimIDs config answer locked) token
            (now + config.lease) now }
      else none
    | _ => none
  | .claimList i answer =>
    match s.workers[i]? with
    | some (.claimed token) =>
      if Queue.Listed s.table token answer then
        let groups := bySubscription (answer.map (·.toWebhookDelivery))
        some (s.setWorker i (.delivering (groups.map Group.start)))
      else none
    | _ => none
  | .group i g move =>
    match s.workers[i]? with
    | some (.delivering groups) => do
      let x ← groups[g]?
      let (table, y) ← x.step config s.table move
      some { s.setWorker i (.delivering (groups.set g y)) with
        table, attempted := s.attempted ++ y.tries }
    | _ => none
  | .endBatch i =>
    match s.workers[i]? with
    | some (.delivering groups) =>
      if groups.all fun g => g.phase matches .finished then some (s.setWorker i .idle) else none
    | _ => none
  | .crash i => some (s.setWorker i .idle)
  | .prune olderThan => some { s with table := Queue.pruneTerminal s.table olderThan }

inductive Stepped (config : Config) (s : Service) : Label → Service → Prop
  | create (id tenantID webhookID event payload : String) (now : Time) (table : DeliveryTable)
      (fresh : id ∉ s.created) (inserted : s.table.insert?
        (DeliveryRow.new id tenantID webhookID event payload now) = some table) :
      Stepped config s (.create id tenantID webhookID event payload now)
        { s with table, created := s.created ++ [id] }
  | claimStart (i : Nat) (now : Time) (token : String) (idle : s.workers[i]? = some .idle)
      (fresh : token ∉ s.tokens) :
      Stepped config s (.claimStart i now token)
        { s.setWorker i (.stamped now token) with tokens := s.tokens ++ [token] }
  | claimUpdate (i : Nat) (answer : List DeliveryRow) (locked : List String) (now : Time)
      (token : String) (stamped : s.workers[i]? = some (.stamped now token))
      (ranked : Ranked (s.due now) (max config.perSubscription 1) answer) :
      Stepped config s (.claimUpdate i answer locked) { s.setWorker i (.claimed token) with
        table := Queue.claimUpdate s.table (claimIDs config answer locked) token
          (now + config.lease) now }
  | claimList (i : Nat) (answer : List DeliveryRow) (token : String)
      (claimed : s.workers[i]? = some (.claimed token))
      (listed : Queue.Listed s.table token answer) :
      Stepped config s (.claimList i answer) (s.setWorker i (.delivering
        ((bySubscription (answer.map (·.toWebhookDelivery))).map Group.start)))
  | group (i g : Nat) (move : GroupMove) (groups : List Group) (x : Group)
      (table : DeliveryTable) (y : Group) (worker : s.workers[i]? = some (.delivering groups))
      (found : groups[g]? = some x) (moved : x.step config s.table move = some (table, y)) :
      Stepped config s (.group i g move) { s.setWorker i (.delivering (groups.set g y)) with
        table, attempted := s.attempted ++ y.tries }
  | endBatch (i : Nat) : Stepped config s (.endBatch i) (s.setWorker i .idle)
  | crash (i : Nat) : Stepped config s (.crash i) (s.setWorker i .idle)
  | prune (olderThan : Time) :
      Stepped config s (.prune olderThan)
        { s with table := Queue.pruneTerminal s.table olderThan }

theorem step_cases {config : Config} {s t : Service} {label : Label}
    (h : s.step config label = some t) : Stepped config s label t := by
  cases label <;> simp only [step] at h
  case create =>
    split at h
    · cases h
    next fresh =>
      simp only [bind_eq_bind, bind_eq_some_iff, some.injEq] at h
      obtain ⟨table, inserted, rfl⟩ := h
      exact .create _ _ _ _ _ _ table fresh inserted
  case group =>
    split at h
    next groups worker =>
      simp only [bind_eq_bind, bind_eq_some_iff, some.injEq] at h
      obtain ⟨x, found, ⟨table, y⟩, moved, rfl⟩ := h
      exact .group _ _ _ groups x table y worker found moved
    · cases h
  case crash | prune =>
    cases h
    constructor
  -- the others look at what the worker does
  all_goals
    split at h
    · split at h <;> cases h
      constructor <;> assumption
    · cases h

def init (n : Nat) : Service := ⟨.empty, List.replicate n .idle, [], [], []⟩

end Service

end Panmail.Webhooks
