import Panmail.Lib.Run
import Panmail.Lib.Table

/-!
# Filing Sent copies

The copies to be filed are rows of `sent_copy_jobs`. A worker reads the clock, claims up to twenty
due rows one by one, each under a token of its own, and then files them one after the other. A claim
is good for five minutes from the time the worker read, which is that of the batch and not of the
filing; after that another worker may take the row over. A filed copy is deleted and a failed one
put off, both under the worker's token.
-/
namespace Panmail.SentCopy

open Tables Runs List Table Nat

/-! ### The table -/

def second : Nat := 1000000000

def unix (t : Nat) : Nat := t / second

def workerBatchSize : Nat := 20
def claimLease : Nat := 5 * 60 * second
def maxAttempts : Nat := 10
def firstRetry : Nat := 60 * second
def maxRetry : Nat := 6 * 60 * 60 * second

structure Row where
  id : Nat
  attempts : Nat
  nextAttemptAt : Nat
  claimToken : Option Nat
  claimedAt : Nat
  deriving DecidableEq

abbrev Jobs := Table fun r : Row => r.id

/-- What `due_jobs` selects. -/
structure Candidate where
  id : Nat
  token : Option Nat
  deriving DecidableEq

def isDue (now : Nat) (r : Row) : Bool :=
  decide (r.nextAttemptAt ≤ unix now) &&
    (r.claimToken.isNone || decide (r.claimedAt < unix (now - claimLease)))

/-- An answer to `due_jobs`, before its `LIMIT`. -/
def Answer (rows : Jobs) (now : Nat) (answer : List Row) : Prop :=
  answer.Perm (rows.selectWhere (isDue now)) ∧
    answer.Pairwise fun x y => x.nextAttemptAt ≤ y.nextAttemptAt

instance (rows : Jobs) (now : Nat) (answer : List Row) : Decidable (Answer rows now answer) :=
  inferInstanceAs (Decidable (_ ∧ _))

/-- `claim_job`. -/
def Jobs.claim (rows : Jobs) (token claimedAt : Nat) (c : Candidate) : Jobs :=
  rows.updateWhere (fun r => r.id = c.id ∧ r.claimToken = c.token)
    (fun r => { r with claimToken := some token, claimedAt }) fun _ => rfl

/-- `complete_job`. -/
def Jobs.complete (rows : Jobs) (id : Nat) (token : Option Nat) : Jobs :=
  rows.deleteWhere fun r => r.id = id ∧ r.claimToken = token

/-- `reschedule_job`. -/
def Jobs.reschedule (rows : Jobs) (id : Nat) (token : Option Nat) (attempts next : Nat) : Jobs :=
  rows.updateWhere (fun r => r.id = id ∧ r.claimToken = token)
    (fun r => { r with claimToken := none, claimedAt := 0, attempts, nextAttemptAt := next })
    fun _ => rfl

/-! ### A worker -/

structure Job where
  id : Nat
  attempts : Nat
  claimToken : Option Nat
  deriving DecidableEq

inductive Result where
  | filed | failed | permanent
  deriving DecidableEq

/-- Where a worker is in `RunOnce`. The first field is the time it read at the start. -/
inductive Phase where
  | idle
  | begun (now : Nat)
  | claiming (now : Nat) (candidates : List Candidate) (claimed : List Job)
  /-- A row is claimed and not read back. -/
  | reading (now : Nat) (id token : Nat) (candidates : List Candidate) (claimed : List Job)
  | working (now : Nat) (jobs : List Job)
  | filing (now : Nat) (job : Job) (jobs : List Job) (since : Nat)
  /-- `file` has returned, at the given time, and the row is not written. -/
  | recording (now : Nat) (job : Job) (jobs : List Job) (result : Result) (at_ : Nat)
  deriving DecidableEq

def doubled : Nat → Nat → Nat
  | 0, d => d
  | n + 1, d => if d < maxRetry then doubled n (d * 2) else d

def retryDelay (attempts : Nat) : Nat := min (doubled (attempts - 1) firstRetry) maxRetry

/-- The statement with which `process` ends. -/
def Jobs.record (rows : Jobs) (job : Job) (result : Result) (at_ : Nat) : Jobs :=
  match result with
  | .filed | .permanent => rows.complete job.id job.claimToken
  | .failed =>
    if job.attempts + 1 ≥ maxAttempts then rows.complete job.id job.claimToken
    else rows.reschedule job.id job.claimToken (job.attempts + 1)
      (unix (at_ + retryDelay (job.attempts + 1)))

/-- How a statement ends. A lost one was run, and its answer did not arrive. -/
inductive Reply where
  | ok | failed | lost

inductive Label where
  | tick (d : Nat)
  /-- `EnqueueJob`, with the time it was called at. -/
  | enqueue (created : Nat)
  | begin_ (i : Nat)
  /-- `due_jobs`, or its failure. -/
  | select (i : Nat) (answer : Option (List Row))
  | claim (i : Nat) (reply : Reply)
  | read (i : Nat) (ok : Bool)
  | work (i : Nat)
  | file (i : Nat)
  | fileEnd (i : Nat) (result : Result)
  | record (i : Nat) (applied : Bool)
  /-- `RunOnce` returns: there is no job left, or the context is done. -/
  | stop (i : Nat)

structure State where
  now : Nat
  rows : Jobs
  workers : List Phase
  /-- The worker that drew each token; a token is its position. -/
  draws : List Nat
  nextId : Nat
  /-- History: the jobs whose filing succeeded, the latest first. -/
  filed : List Nat

def State.move (s : State) (i : Nat) (p : Phase) : State := { s with workers := s.workers.set i p }

def State.step (s : State) : Label → Option State
  | .tick d => some { s with now := s.now + d }
  | .enqueue created =>
    if created ≤ s.now then
      (s.rows.insert? ⟨s.nextId, 0, unix created, none, 0⟩).map fun rows =>
        { s with rows, nextId := s.nextId + 1 }
    else none
  | .begin_ i =>
    match s.workers[i]? with
    | some .idle => some (s.move i (.begun s.now))
    | _ => none
  | .select i answer =>
    match s.workers[i]?, answer with
    | some (.begun now), some answer =>
      if Answer s.rows now answer then
        some (s.move i (.claiming now
          ((answer.take workerBatchSize).map fun r => ⟨r.id, r.claimToken⟩) []))
      else none
    | some (.begun _), none => some (s.move i .idle)
    | _, _ => none
  | .claim i reply =>
    match s.workers[i]? with
    | some (.claiming now (c :: rest) claimed) =>
      let drawn := { s with draws := s.draws ++ [i] }
      let written := { drawn with rows := s.rows.claim s.draws.length (unix now) c }
      match reply with
      | .failed => some (drawn.move i (.working now claimed))
      | .lost => some (written.move i (.working now claimed))
      | .ok =>
        -- the number of rows affected
        if (s.rows.lookup c.id).any (·.claimToken = c.token) then
          some (written.move i (.reading now c.id s.draws.length rest claimed))
        else some (written.move i (.claiming now rest claimed))
    | _ => none
  | .read i ok =>
    match s.workers[i]? with
    | some (.reading now id _ rest claimed) =>
      match ok, s.rows.lookup id with
      | true, some r => some (s.move i (.claiming now rest (claimed ++ [⟨r.id, r.attempts, r.claimToken⟩])))
      | _, _ => some (s.move i (.working now claimed))
    | _ => none
  | .work i =>
    match s.workers[i]? with
    | some (.claiming now [] claimed) => some (s.move i (.working now claimed))
    | _ => none
  | .file i =>
    match s.workers[i]? with
    | some (.working now (job :: jobs)) => some (s.move i (.filing now job jobs s.now))
    | _ => none
  | .fileEnd i result =>
    match s.workers[i]? with
    | some (.filing now job jobs _) =>
      let moved := s.move i (.recording now job jobs result s.now)
      if result = .filed then some { moved with filed := job.id :: s.filed } else some moved
    | _ => none
  | .record i applied =>
    match s.workers[i]? with
    | some (.recording now job jobs result at_) =>
      let moved := s.move i (.working now jobs)
      if applied then some { moved with rows := s.rows.record job result at_ } else some moved
    | _ => none
  | .stop i =>
    match s.workers[i]? with
    | some (.working _ _) => some (s.move i .idle)
    | _ => none

def State.start (workers now : Nat) : State where
  now := now
  rows := .empty
  workers := List.replicate workers .idle
  draws := []
  nextId := 0
  filed := []

/-! ### What a worker has in hand -/

def Phase.started : Phase → Option Nat
  | .idle => none
  | .begun now | .claiming now _ _ | .reading now _ _ _ _ | .working now _ | .filing now _ _ _
  | .recording now _ _ _ _ => some now

def Phase.candidates : Phase → List Candidate
  | .claiming _ candidates _ | .reading _ _ _ candidates _ => candidates
  | _ => []

/-- The jobs it has claimed and not finished, with the token it goes by. -/
def Phase.held : Phase → List Candidate
  | .idle | .begun _ => []
  | .claiming _ _ claimed => claimed.map fun j => ⟨j.id, j.claimToken⟩
  | .reading _ id token _ claimed => ⟨id, some token⟩ :: claimed.map fun j => ⟨j.id, j.claimToken⟩
  | .working _ jobs => jobs.map fun j => ⟨j.id, j.claimToken⟩
  | .filing _ job jobs _ | .recording _ job jobs _ _ =>
    (job :: jobs).map fun j => ⟨j.id, j.claimToken⟩

def Phase.filingSince : Phase → Option Nat
  | .filing _ _ _ since => some since
  | _ => none

def Phase.result : Phase → Option Result
  | .recording _ _ _ result _ => some result
  | _ => none

/-- No filing takes as long as the lease. -/
def State.Prompt (s : State) : Label → Prop
  | .tick d => ∀ p ∈ s.workers, ∀ since ∈ p.filingSince, s.now + d < since + claimLease
  | _ => True

/-- Every `RunOnce` ends within the lease from the time it read at its start, and a copy that was
filed is deleted. -/
def State.InTime (s : State) : Label → Prop
  | .tick d => ∀ p ∈ s.workers, ∀ now ∈ p.started, s.now + d ≤ now + claimLease
  | .record i applied => ∀ p ∈ s.workers[i]?, p.result = some .filed → applied = true
  | _ => True

instance (s : State) (l : Label) : Decidable (s.Prompt l) := by
  cases l <;> dsimp only [State.Prompt] <;> infer_instance

instance (s : State) (l : Label) : Decidable (s.InTime l) := by
  cases l <;> dsimp only [State.InTime] <;> infer_instance

/-! ### What the statements do to a row -/

theorem lookup_claim (rows : Jobs) (token claimedAt id : Nat) (c : Candidate) :
    (rows.claim token claimedAt c).lookup id = (rows.lookup id).map fun r =>
      if id = c.id ∧ r.claimToken = c.token then { r with claimToken := some token, claimedAt }
      else r := by
  rw [Jobs.claim, lookup_updateWhere]
  cases found : rows.lookup id with
  | none => rfl
  | some r =>
    have named : r.id = id := key_of_lookup found
    simp [named]

theorem lookup_complete (rows : Jobs) (job id : Nat) (token : Option Nat) :
    (rows.complete job token).lookup id =
      (rows.lookup id).filter fun r => !decide (id = job ∧ r.claimToken = token) := by
  rw [Jobs.complete, lookup_deleteWhere]
  cases found : rows.lookup id with
  | none => rfl
  | some r =>
    have named : r.id = id := key_of_lookup found
    simp [Option.filter, named]

theorem lookup_reschedule (rows : Jobs) (job id attempts next : Nat) (token : Option Nat) :
    (rows.reschedule job token attempts next).lookup id = (rows.lookup id).map fun r =>
      if id = job ∧ r.claimToken = token then
        { r with claimToken := none, claimedAt := 0, attempts, nextAttemptAt := next }
      else r := by
  rw [Jobs.reschedule, lookup_updateWhere]
  cases found : rows.lookup id with
  | none => rfl
  | some r =>
    have named : r.id = id := key_of_lookup found
    simp [named]

/-- The statement that ends a job leaves other rows alone, and a row it leaves behind in place of
the job's is unclaimed or as it was. -/
theorem lookup_record (rows : Jobs) (job : Job) (result : Result) (at_ id : Nat) {r : Row}
    (found : (rows.record job result at_).lookup id = some r) :
    rows.lookup id = some r ∨ id = job.id ∧ r.claimToken = none := by
  have completed (found : (rows.complete job.id job.claimToken).lookup id = some r) :
      rows.lookup id = some r := by
    rw [lookup_complete] at found
    exact (Option.filter_eq_some_iff.mp found).1
  cases result with
  | filed | permanent => exact .inl (completed found)
  | failed =>
    rw [Jobs.record] at found
    split at found
    · exact .inl (completed found)
    · rw [lookup_reschedule] at found
      obtain ⟨old, before, rfl⟩ := Option.map_eq_some_iff.mp found
      split
      next chosen => exact .inr ⟨chosen.1, rfl⟩
      · exact .inl before

theorem lookup_record_other (rows : Jobs) (job : Job) (result : Result) (at_ : Nat) {id : Nat}
    (other : id ≠ job.id) : (rows.record job result at_).lookup id = rows.lookup id := by
  have completed : (rows.complete job.id job.claimToken).lookup id = rows.lookup id := by
    rw [lookup_complete]
    cases rows.lookup id <;> simp [Option.filter, other]
  cases result with
  | filed | permanent => exact completed
  | failed =>
    rw [Jobs.record]
    split
    · exact completed
    · rw [lookup_reschedule]
      simp [other]

/-! ### The invariant -/

/-- Worker `i` is within its lease, each job it has in hand is claimed by it, each candidate it has
not come to was free or had run out, and no two of them are one. -/
structure State.Holding (s : State) (i : Nat) (p : Phase) : Prop where
  past : ∀ now ∈ p.started, now ≤ s.now
  within : ∀ now ∈ p.started, s.now ≤ now + claimLease
  held : ∀ h ∈ p.held, ∃ k r, h.token = some k ∧ s.draws[k]? = some i ∧
    s.rows.lookup h.id = some r ∧ r.claimToken = some k ∧ ∀ now ∈ p.started, r.claimedAt = unix now
  ended : ∀ c ∈ p.candidates, ∀ k, c.token = some k → k < s.draws.length ∧
    ∀ r, s.rows.lookup c.id = some r → r.claimToken = some k →
      ∀ now ∈ p.started, r.claimedAt < unix (now - claimLease)
  apart : ((p.candidates ++ p.held).map Candidate.id).Nodup

structure State.Inv (s : State) : Prop where
  rows : ∀ id r, s.rows.lookup id = some r → id < s.nextId ∧ ∀ k ∈ r.claimToken, k < s.draws.length
  workers : ∀ (i : Nat) p, s.workers[i]? = some p → s.Holding i p
  /-- A copy that was filed has no row, or its worker is about to delete it. -/
  filed : ∀ id ∈ s.filed, id < s.nextId ∧ (s.rows.lookup id = none ∨
    ∃ (i : Nat) (now : Nat) (job : Job) (jobs : List Job) (at_ : Nat), s.workers[i]? =
      some (.recording now job jobs .filed at_) ∧ job.id = id)
  once : s.filed.Nodup

variable {i : Nat} {p q : Phase} {s t : State}

/-- The worker that holds a job is the one that drew the token of its row. -/
theorem State.Holding.unique {j : Nat} (first : s.Holding i p) (second : s.Holding j q)
    {h g : Candidate} (left : h ∈ p.held) (right : g ∈ q.held) (same : h.id = g.id) : i = j := by
  obtain ⟨k, r, _, drawn, found, token, _⟩ := first.held h left
  obtain ⟨k', r', _, drawn', found', token', _⟩ := second.held g right
  rw [← same, found] at found'
  cases found'
  cases token.symm.trans token'
  exact Option.some.inj (drawn.symm.trans drawn')

/-- Rows that change outside of what a worker has in hand, to none, unclaimed ones or ones with new
tokens, are nothing to the worker. -/
theorem State.Holding.frame (holding : s.Holding i p) (now : t.now = s.now)
    (draws : s.draws <+: t.draws) (kept : ∀ h ∈ p.held, t.rows.lookup h.id = s.rows.lookup h.id)
    (changed : ∀ id r k, t.rows.lookup id = some r → r.claimToken = some k →
      s.rows.lookup id = some r ∨ s.draws.length ≤ k) : t.Holding i p where
  past n started := now ▸ holding.past n started
  within n started := now ▸ holding.within n started
  held h mem := by
    obtain ⟨k, r, token, drawn, found, claimed, claimedAt⟩ := holding.held h mem
    refine ⟨k, r, token, ?_, (kept h mem).trans found, claimed, claimedAt⟩
    obtain ⟨more, extended⟩ := draws
    exact extended ▸ getElem?_append_of drawn
  ended c mem k token := by
    obtain ⟨bound, before⟩ := holding.ended c mem k token
    refine ⟨Nat.lt_of_lt_of_le bound draws.length_le, fun r found claimed => ?_⟩
    rcases changed c.id r k found claimed with same | new
    · exact before r same claimed
    · exact absurd bound (Nat.not_lt_of_le new)
  apart := holding.apart

theorem State.Holding.sub (holding : s.Holding i p) (started : q.started = p.started)
    (held : q.held ⊆ p.held) (candidates : q.candidates ⊆ p.candidates)
    (apart : ((q.candidates ++ q.held).map Candidate.id).Nodup) : s.Holding i q where
  past n := started ▸ holding.past n
  within n := started ▸ holding.within n
  held h mem := started ▸ holding.held h (held mem)
  ended c mem := started ▸ holding.ended c (candidates mem)
  apart := apart

theorem State.Holding.idle (s : State) (i : Nat) : s.Holding i .idle := by
  constructor <;> simp [Phase.started, Phase.held, Phase.candidates]

open State

/-! ### Steps that leave the table alone -/

section
variable {c : Candidate}

section
variable (inv : s.Inv)
include inv

/-- A copy that was filed stays without a row, or about to lose it, while another worker moves. -/
theorem State.Inv.filed_set (here : s.workers[i]? = some p) (done : p.result ≠ some .filed)
    (workers : t.workers = s.workers.set i q)
    (gone : ∀ id, s.rows.lookup id = none → t.rows.lookup id = none) {id : Nat}
    (mem : id ∈ s.filed) : t.rows.lookup id = none ∨
      ∃ (i : Nat) (now : Nat) (job : Job) (jobs : List Job) (at_ : Nat), t.workers[i]? =
        some (.recording now job jobs .filed at_) ∧ job.id = id := by
  obtain ⟨_, absent | ⟨j, now, job, jobs, at_, entry, named⟩⟩ := inv.filed id mem
  · exact .inl (gone id absent)
  · have other : i ≠ j := by
      rintro rfl
      cases here.symm.trans entry
      exact done rfl
    refine .inr ⟨j, now, job, jobs, at_, ?_, named⟩
    rw [workers, getElem?_set_ne other, entry]

theorem State.Inv.move (here : s.workers[i]? = some p) (done : p.result ≠ some .filed)
    (next : s.Holding i q) : (s.move i q).Inv where
  rows := inv.rows
  workers j p' at_ := by
    rcases getElem?_set_cases at_ with ⟨rfl, rfl⟩ | ⟨_, old⟩
    · exact { next with }
    · exact { inv.workers j p' old with }
  filed id mem :=
    ⟨(inv.filed id mem).1,
      inv.filed_set (t := s.move i q) here done rfl (fun _ absent => absent) mem⟩
  once := inv.once

theorem tick_step {d : Nat} (inTime : s.InTime (.tick d)) (taken : s.step (.tick d) = some t) :
    t.Inv := by
  cases taken
  refine ⟨inv.rows, fun i p at_ => ?_, inv.filed, inv.once⟩
  have holding := inv.workers i p at_
  refine ⟨?_, ?_, holding.held, holding.ended, holding.apart⟩
  · exact fun now started => le_add_right_of_le (holding.past now started)
  · exact inTime p (mem_of_getElem? at_)

theorem candidates_over {now : Nat} {answer : List Row} (here : s.workers[i]? = some (.begun now))
    (fits : Answer s.rows now answer) : s.Holding i (.claiming now
      ((answer.take workerBatchSize).map fun r => ⟨r.id, r.claimToken⟩) []) := by
  have holding := inv.workers i _ here
  have listed (r : Row) (mem : r ∈ answer.take workerBatchSize) :
      s.rows.lookup r.id = some r ∧ isDue now r = true := by
    have chosen := fits.1.mem_iff.mp (mem_of_mem_take mem)
    obtain ⟨stored, due⟩ := mem_selectWhere.mp chosen
    exact ⟨lookup_iff.mpr ⟨stored, rfl⟩, due⟩
  refine ⟨holding.past, holding.within, by simp [Phase.held], ?_, ?_⟩
  · intro c mem k token
    obtain ⟨r, chosen, rfl⟩ := mem_map.mp mem
    obtain ⟨found, due⟩ := listed r chosen
    refine ⟨(inv.rows r.id r found).2 k token, ?_⟩
    rintro r' found' claimed now' started
    cases found.symm.trans found'
    cases started
    -- a claimed row is due only when its lease has run out
    simpa [isDue, claimed] using And.right (Bool.and_eq_true_iff.mp due)
  · have ids : (answer.map Row.id).Nodup := by
      refine (fits.1.map Row.id).nodup_iff.mpr ?_
      exact s.rows.unique.sublist (filter_sublist.map _)
    simp only [Phase.candidates, Phase.held, map_nil, append_nil, map_map]
    exact ids.sublist ((take_sublist _ _).map _)

theorem select_step {answer : Option (List Row)} (taken : s.step (.select i answer) = some t) :
    t.Inv := by
  simp only [step] at taken
  split at taken
  next now rows here =>
    split at taken <;> cases taken
    next fits =>
      exact inv.move here (by simp [Phase.result]) (candidates_over inv here fits)
  next here =>
    cases taken
    exact inv.move here (by simp [Phase.result]) (.idle s i)
  · cases taken

theorem read_step {ok : Bool} (taken : s.step (.read i ok) = some t) : t.Inv := by
  simp only [step] at taken
  split at taken
  next now id token rest claimed here =>
    have holding := inv.workers i _ here
    have going : s.Holding i (.working now claimed) := by
      refine holding.sub rfl (by simp [Phase.held]) (by simp [Phase.candidates]) ?_
      refine holding.apart.sublist (List.Sublist.map _ ?_)
      exact (sublist_cons_self _ _).trans (sublist_append_right _ _)
    split at taken
    next r found =>
      cases taken
      refine inv.move here (by simp [Phase.result]) ?_
      -- nobody else has taken the row: it still has the worker's own token
      obtain ⟨k, r', token', drawn, found', claimed', claimedAt⟩ :=
        holding.held ⟨id, some token⟩ (by simp [Phase.held])
      cases token'
      cases found.symm.trans found'
      have same : (⟨r.id, r.claimToken⟩ : Candidate) = ⟨id, some token⟩ := by
        rw [claimed', show r.id = id from key_of_lookup found]
      refine holding.sub rfl ?_ (by simp [Phase.candidates]) ?_
      · simp only [Phase.held, map_append, map_cons, map_nil, same]
        intro h mem
        rcases mem_append.mp mem with old | new
        · exact mem_cons_of_mem _ old
        · cases mem_singleton.mp new
          exact mem_cons_self
      · refine (List.Perm.nodup_iff ?_).mp holding.apart
        simp only [Phase.candidates, Phase.held, map_append, map_cons, map_nil, same]
        exact (perm_append_singleton _ _).symm.append_left _
    · cases taken
      exact inv.move here (by simp [Phase.result]) going
  · cases taken

/-- A worker begins, takes up its batch or the next job of it, or is done with it. -/
theorem quiet_step {l : Label} (quiet : l = .begin_ i ∨ l = .work i ∨ l = .file i ∨ l = .stop i)
    (taken : s.step l = some t) : t.Inv := by
  rcases quiet with rfl | rfl | rfl | rfl <;> simp only [step] at taken <;>
    split at taken <;> cases taken <;> rename_i here <;>
    refine inv.move here (by simp [Phase.result]) ?_
  · constructor <;> simp [Phase.started, Phase.held, Phase.candidates]
  · exact { inv.workers i _ here with }
  · exact { inv.workers i _ here with }
  · exact .idle s i

/-- A job that a worker has filed was not filed before: its row was there, and no other worker is
about to delete it. -/
theorem fileEnd_step {result : Result} (taken : s.step (.fileEnd i result) = some t) : t.Inv := by
  simp only [step] at taken
  split at taken
  next now job jobs since here =>
    have holding := inv.workers i _ here
    have moved : (s.move i (.recording now job jobs result s.now)).Inv :=
      inv.move here (by simp [Phase.result])
        { holding with }
    split at taken
    next filed =>
      cases taken
      subst filed
      have mine : (⟨job.id, job.claimToken⟩ : Candidate) ∈ (Phase.filing now job jobs since).held := by
        simp [Phase.held]
      obtain ⟨k, r, _, _, found, _, _⟩ := holding.held _ mine
      refine ⟨moved.rows, fun j p at_ => ?_, ?_, ?_⟩
      · exact { moved.workers j p at_ with }
      · intro id mem
        rcases mem_cons.mp mem with rfl | old
        · exact ⟨(inv.rows job.id r found).1,
            .inr ⟨i, now, job, jobs, s.now, getElem?_set_here _ here, rfl⟩⟩
        · exact moved.filed id old
      · refine nodup_cons.mpr ⟨fun again => ?_, inv.once⟩
        obtain ⟨_, gone | ⟨j, now', job', jobs', at_, entry, named⟩⟩ := inv.filed job.id again
        · exact nomatch gone.symm.trans found
        · have theirs : (⟨job'.id, job'.claimToken⟩ : Candidate) ∈
              (Phase.recording now' job' jobs' .filed at_).held := by simp [Phase.held]
          cases holding.unique (inv.workers j _ entry) mine theirs named.symm
          exact nomatch here.symm.trans entry
    · cases taken
      exact moved
  · cases taken

end

/-! ### Steps that write to the table -/

theorem enqueue_step {created : Nat} (inv : s.Inv) (taken : s.step (.enqueue created) = some t) :
    t.Inv := by
  simp only [step] at taken
  split at taken
  · obtain ⟨rows, inserted, rfl⟩ := Option.map_eq_some_iff.mp taken
    have lookup (id : Nat) (old : id < s.nextId) : rows.lookup id = s.rows.lookup id := by
      rw [lookup_insert? inserted, if_neg (Nat.ne_of_gt old)]
    refine ⟨?_, fun i p at_ => ?_, ?_, inv.once⟩
    · intro id r found
      rcases lookup_insert?_cases inserted found with ⟨rfl, rfl⟩ | old
      · exact ⟨lt_succ_self _, fun k none_ => nomatch none_⟩
      · exact ⟨lt_succ_of_lt (inv.rows id r old).1, (inv.rows id r old).2⟩
    · have holding := inv.workers i p at_
      refine holding.frame rfl (prefix_refl _) ?_ ?_
      · intro h mem
        obtain ⟨_, r, _, _, found, _, _⟩ := holding.held h mem
        exact lookup h.id (inv.rows h.id r found).1
      · intro id r k found claimed
        rcases lookup_insert?_cases inserted found with ⟨_, rfl⟩ | old
        · cases claimed
        · exact .inl old
    · intro id mem
      obtain ⟨bound, rest⟩ := inv.filed id mem
      exact ⟨lt_succ_of_lt bound, rest.imp_left (lookup id bound).trans⟩
  · cases taken

theorem started_of_held {h : Candidate} (mem : h ∈ p.held) : ∃ now, p.started = some now := by
  cases p with
  | idle => cases mem
  | begun now | claiming now | reading now | working now | filing now | recording now =>
    exact ⟨now, rfl⟩

/-- A candidate that still is as it was selected is in nobody's hands: its holder's time was up when
the rows were selected. -/
theorem free_of_candidate (inv : s.Inv) (here : s.workers[i]? = some p)
    (candidate : c ∈ p.candidates) {r : Row} (found : s.rows.lookup c.id = some r)
    (same : r.claimToken = c.token) {j : Nat} (at_ : s.workers[j]? = some q) :
    ∀ h ∈ q.held, h.id ≠ c.id := by
  intro h mem named
  have mine := inv.workers i p here
  have theirs := inv.workers j q at_
  obtain ⟨k, r', _, _, found', claimed, claimedAt⟩ := theirs.held h mem
  rw [named, found] at found'
  cases found'
  obtain ⟨later, begun⟩ := started_of_held mem
  obtain ⟨now, started⟩ : ∃ now, p.started = some now := by
    cases p with
    | idle | begun | working | filing | recording => cases candidate
    | claiming now | reading now => exact ⟨now, rfl⟩
  have ran := (mine.ended c candidate k (same.symm.trans claimed)).2 r found claimed now started
  have own := claimedAt later begun
  have within := theirs.within later begun
  have past := mine.past now started
  have ordered : unix (now - claimLease) ≤ unix later := Nat.div_le_div_right (by omega)
  omega

/-- The table after a claim, whether it reached the table or not. -/
def Jobs.ClaimedFrom (before after : Jobs) (token claimedAt : Nat) (c : Candidate) : Prop :=
  after = before ∨ after = before.claim token claimedAt c

theorem Jobs.ClaimedFrom.lookup {before after : Jobs} {token claimedAt : Nat}
    (claimed : before.ClaimedFrom after token claimedAt c) (id : Nat) :
    after.lookup id = before.lookup id ∨
      ∃ r, before.lookup id = some r ∧ id = c.id ∧ r.claimToken = c.token ∧
        after.lookup id = some { r with claimToken := some token, claimedAt } := by
  rcases claimed with rfl | rfl
  · exact .inl rfl
  · rw [lookup_claim]
    cases before.lookup id with
    | none => exact .inl rfl
    | some r =>
      by_cases chosen : id = c.id ∧ r.claimToken = c.token
      · exact .inr ⟨r, rfl, chosen.1, chosen.2, by simp [chosen]⟩
      · exact .inl (by simp [chosen])

section
variable {rows : Jobs} {claimedAt : Nat}

/-- A claim is nothing to the workers: the row it takes is in nobody's hands, and the token is
new. -/
theorem State.Inv.claimed_frame (inv : s.Inv) (here : s.workers[i]? = some p)
    (candidate : c ∈ p.candidates) (claimed : s.rows.ClaimedFrom rows s.draws.length claimedAt c)
    {j : Nat} (at_ : s.workers[j]? = some q) :
    State.Holding { s with draws := s.draws ++ [i], rows } j q := by
  refine (inv.workers j q at_).frame rfl (prefix_append _ _) ?_ ?_
  · intro h mem
    rcases claimed.lookup h.id with same | ⟨r, found, named, token, _⟩
    · exact same
    · exact absurd named
        (free_of_candidate inv here candidate (named ▸ found) token at_ h mem)
  · intro id r k found token
    rcases claimed.lookup id with same | ⟨old, _, _, _, new⟩
    · exact .inl (same.symm.trans found)
    · cases new.symm.trans found
      cases token
      exact .inr (Nat.le_refl _)

theorem State.Inv.claim (inv : s.Inv) (here : s.workers[i]? = some p) (done : p.result ≠ some .filed)
    (candidate : c ∈ p.candidates) (claimed : s.rows.ClaimedFrom rows s.draws.length claimedAt c)
    (next : State.Holding { s with draws := s.draws ++ [i], rows } i q) :
    ({ s with draws := s.draws ++ [i], rows, workers := s.workers.set i q } : State).Inv := by
  refine ⟨?_, ?_, ?_, inv.once⟩
  · intro id r found
    simp only [length_append, length_singleton]
    rcases claimed.lookup id with same | ⟨old, before, _, _, new⟩
    · obtain ⟨bound, tokens⟩ := inv.rows id r (same.symm.trans found)
      exact ⟨bound, fun k token => lt_succ_of_lt (tokens k token)⟩
    · cases new.symm.trans found
      refine ⟨(inv.rows id old before).1, fun k token => ?_⟩
      cases token
      exact lt_succ_self _
  · intro j p' at_
    rcases getElem?_set_cases at_ with ⟨rfl, rfl⟩ | ⟨_, entry⟩
    · exact { next with }
    · exact { inv.claimed_frame here candidate claimed entry with }
  · intro id mem
    refine ⟨(inv.filed id mem).1, inv.filed_set here done rfl ?_ mem⟩
    intro id' absent
    rcases claimed.lookup id' with same | ⟨r, found, _⟩
    · exact same.trans absent
    · exact nomatch absent.symm.trans found

end

theorem claim_step {reply : Reply} (inv : s.Inv) (taken : s.step (.claim i reply) = some t) :
    t.Inv := by
  simp only [step] at taken
  split at taken
  next now c rest jobs here =>
    have candidate : c ∈ (Phase.claiming now (c :: rest) jobs).candidates := mem_cons_self
    have done : (Phase.claiming now (c :: rest) jobs).result ≠ some .filed := by simp [Phase.result]
    have framed {rows : Jobs} (claimed : s.rows.ClaimedFrom rows s.draws.length (unix now) c) :=
      inv.claimed_frame here candidate claimed here
    -- without the row the worker goes on with what it had
    have going {rows : Jobs} (claimed : s.rows.ClaimedFrom rows s.draws.length (unix now) c) :
        State.Holding { s with draws := s.draws ++ [i], rows } i (.working now jobs) := by
      refine (framed claimed).sub rfl (fun _ mem => mem) (by simp [Phase.candidates]) ?_
      exact (framed claimed).apart.sublist ((sublist_append_right _ _).map _)
    split at taken
    · cases taken
      have unwritten : s.rows.ClaimedFrom s.rows s.draws.length (unix now) c := .inl rfl
      exact inv.claim here done candidate unwritten (going unwritten)
    · cases taken
      exact inv.claim here done candidate (.inr rfl) (going (.inr rfl))
    · split at taken
      next hit =>
        cases taken
        refine inv.claim here done candidate (.inr rfl) ?_
        have before := framed (.inr rfl)
        obtain ⟨r, found, token⟩ : ∃ r, s.rows.lookup c.id = some r ∧ r.claimToken = c.token := by
          cases found : s.rows.lookup c.id with
          | none => simp [found] at hit
          | some r => exact ⟨r, rfl, by simpa [found] using hit⟩
        refine ⟨before.past, before.within, ?_, ?_, ?_⟩
        · intro h mem
          rcases mem_cons.mp mem with rfl | old
          · refine ⟨s.draws.length, { r with claimToken := some s.draws.length, claimedAt := unix now },
              rfl, by simp, ?_, rfl, ?_⟩
            · rw [lookup_claim, found]
              simp [token]
            · intro now' started
              cases started
              rfl
          · exact before.held h old
        · exact fun c' mem => before.ended c' (mem_cons_of_mem _ mem)
        · refine (List.Perm.nodup_iff ?_).mp before.apart
          simp only [Phase.candidates, Phase.held, map_append, map_cons]
          exact perm_middle.symm
      · cases taken
        refine inv.claim here done candidate (.inr rfl) ?_
        refine (framed (.inr rfl)).sub rfl (fun _ mem => mem)
          (fun _ mem => mem_cons_of_mem _ mem) ?_
        exact (framed (.inr rfl)).apart.sublist ((sublist_cons_self _ _).map _)
  · cases taken

theorem record_step {applied : Bool} (inv : s.Inv) (inTime : s.InTime (.record i applied))
    (taken : s.step (.record i applied) = some t) : t.Inv := by
  simp only [step] at taken
  split at taken
  next now job jobs result at_ here =>
    have holding := inv.workers i _ here
    have mine : (⟨job.id, job.claimToken⟩ : Candidate) ∈
        (Phase.recording now job jobs result at_).held := by simp [Phase.held]
    obtain ⟨fresh, apart⟩ := nodup_cons.mp holding.apart
    have going : s.Holding i (.working now jobs) :=
      holding.sub rfl (by simp [Phase.held]) (by simp [Phase.candidates]) apart
    cases applied with
    | false =>
      cases taken
      refine inv.move here (fun filed => ?_) going
      -- a copy that was filed is recorded while the claim lasts
      cases inTime _ here filed
    | true =>
      cases taken
      obtain ⟨k, r, token, drawn, found, claimed, _⟩ := holding.held _ mine
      -- the statement claims no row
      have changed (id : Nat) (r' : Row) (k' : Nat)
          (found' : (s.rows.record job result at_).lookup id = some r')
          (token' : r'.claimToken = some k') :
          s.rows.lookup id = some r' ∨ s.draws.length ≤ k' := by
        rcases lookup_record s.rows job result at_ id found' with same | ⟨_, free⟩
        · exact .inl same
        · exact nomatch free.symm.trans token'
      refine ⟨?_, ?_, ?_, inv.once⟩
      · intro id r' found'
        rcases lookup_record s.rows job result at_ id found' with same | ⟨rfl, free⟩
        · exact inv.rows id r' same
        · refine ⟨(inv.rows job.id r found).1, fun k' token' => ?_⟩
          exact nomatch free.symm.trans token'
      · intro j p' entry
        rcases getElem?_set_cases entry with ⟨rfl, rfl⟩ | ⟨other, old⟩
        · refine going.frame rfl (prefix_refl _) ?_ changed
          -- the other jobs in hand have rows of their own
          intro h mem
          refine lookup_record_other s.rows job result at_ fun same => fresh ?_
          have inside := mem_map_of_mem (f := Candidate.id) mem
          rw [same] at inside
          exact inside
        · have theirs := inv.workers j p' old
          refine theirs.frame rfl (prefix_refl _) ?_ changed
          intro h mem
          refine lookup_record_other s.rows job result at_ fun same => other ?_
          exact theirs.unique holding mem mine same
      · intro id mem
        obtain ⟨bound, absent | ⟨j, now', job', jobs', at', entry, named⟩⟩ := inv.filed id mem
        · refine ⟨bound, .inl ?_⟩
          cases after : (s.rows.record job result at_).lookup id with
          | none => rfl
          | some =>
            rcases lookup_record s.rows job result at_ id after with same | ⟨rfl, _⟩
            · exact nomatch absent.symm.trans same
            · exact nomatch absent.symm.trans found
        · refine ⟨bound, ?_⟩
          by_cases same : i = j
          · subst same
            -- the job just recorded is the one filed, and its row is deleted
            cases here.symm.trans entry
            subst named
            left
            show (s.rows.complete job.id job.claimToken).lookup job.id = none
            rw [lookup_complete, found]
            have own : r.claimToken = job.claimToken := claimed.trans token.symm
            simp [Option.filter, own]
          · refine .inr ⟨j, now', job', jobs', at', ?_, named⟩
            simp only [move]
            rw [getElem?_set_ne same, entry]
  · cases taken

end

/-! ### Whole runs -/

theorem State.Inv.step {l : Label} (inv : s.Inv) (inTime : s.InTime l) (taken : s.step l = some t) :
    t.Inv := by
  cases l with
  | tick => exact tick_step inv inTime taken
  | enqueue => exact enqueue_step inv taken
  | select => exact select_step inv taken
  | claim => exact claim_step inv taken
  | read => exact read_step inv taken
  | fileEnd => exact fileEnd_step inv taken
  | begin_ i | work i | file i | stop i => exact quiet_step (i := i) inv (by simp) taken
  | record => exact record_step inv inTime taken

theorem start_inv (workers now : Nat) : (start workers now).Inv := by
  refine ⟨?_, ?_, ?_, nodup_nil⟩
  · intro id r found
    cases found
  · intro i p at_
    cases eq_of_mem_replicate (mem_of_getElem? at_)
    exact .idle _ i
  · intro id mem
    cases mem

/-- A statement that ends a job takes a row only for the worker that drew the token of that row. -/
def State.ByHolder (s : State) : Prop :=
  ∀ (i : Nat) now job jobs result at_, s.workers[i]? = some (.recording now job jobs result at_) →
    ∀ r, s.rows.lookup job.id = some r → r.claimToken = job.claimToken →
      ∃ k, r.claimToken = some k ∧ s.draws[k]? = some i

/-- Any number of workers, with any interleaving of their steps, file a copy at most once, and a job
is completed or put off only by the worker whose claim is on its row, where every batch is worked
through within the lease and a copy that was filed is deleted. -/
theorem filed_once {workers now : Nat} {labels : List Label} {t : State}
    (inTime : AllSteps State.step State.InTime (State.start workers now) labels)
    (run : exec State.step (State.start workers now) labels = some t) :
    t.filed.Nodup ∧ t.ByHolder := by
  have inv : t.Inv := invariant_along State.step State.InTime State.Inv
    (fun _ _ _ holds inv taken => inv.step holds taken) _ t labels (start_inv workers now) inTime run
  refine ⟨inv.once, ?_⟩
  intro i now job jobs result at_ here r found same
  have mine : (⟨job.id, job.claimToken⟩ : Candidate) ∈
      (Phase.recording now job jobs result at_).held := by simp [Phase.held]
  obtain ⟨k, r', _, drawn, found', claimed, _⟩ := (inv.workers i _ here).held _ mine
  cases found.symm.trans found'
  exact ⟨k, claimed, drawn⟩

namespace Sample

def row (id : Nat) (token : Option Nat) (claimedAt : Nat) : Row := ⟨id, 0, 1000, token, claimedAt⟩

def claims : List Label :=
  [.enqueue (1000 * second), .enqueue (1000 * second), .begin_ 0,
    .select 0 (some [row 0 none 0, row 1 none 0]), .claim 0 .ok, .read 0 true, .claim 0 .ok,
    .read 0 true, .work 0]

def files (i : Nat) : List Label := [.file i, .fileEnd i .filed, .record i true]

/-- The first copy takes almost five minutes; while the first worker files the second one, the
second worker takes it over. -/
def slowBatch : List Label :=
  claims ++ [.file 0, .tick (299 * second), .fileEnd 0 .filed, .record 0 true, .file 0,
    .tick (2 * second), .begin_ 1, .select 1 (some [row 1 (some 1) 1000]), .claim 1 .ok,
    .read 1 true, .work 1] ++ files 1 ++ [.fileEnd 0 .filed]

/-- The second worker takes the copy over before the first has read its row back. -/
def lateRead : List Label :=
  [.enqueue (1000 * second), .begin_ 0, .select 0 (some [row 0 none 0]), .claim 0 .ok,
    .tick (301 * second), .begin_ 1, .select 1 (some [row 0 (some 0) 1000]), .claim 1 .ok,
    .read 0 true, .work 0, .file 0, .fileEnd 0 .failed]

end Sample

open Sample in
/-- One of two workers files two copies within the lease. -/
theorem filed_once_batch :
    (exec State.step (State.start 2 (1000 * second)) (claims ++ files 0 ++ files 0)).isSome ∧
      ∀ t, exec State.step (State.start 2 (1000 * second)) (claims ++ files 0 ++ files 0) = some t →
        t.filed.Nodup ∧ t.ByHolder :=
  ⟨by decide, fun _ run => filed_once (by decide) run⟩

open Sample in
/-- No filing takes as long as the lease, and the second copy is filed twice. A worker that reads its
row back late puts a job off under the token of another. -/
theorem filed_twice : (AllSteps State.step State.Prompt (State.start 2 (1000 * second)) slowBatch ∧
      (exec State.step (State.start 2 (1000 * second)) slowBatch).map State.filed =
        some [1, 1, 0]) ∧
    (AllSteps State.step State.Prompt (State.start 2 (1000 * second)) lateRead ∧
      (exec State.step (State.start 2 (1000 * second)) lateRead).map (fun s =>
        (s.workers[0]?, (s.rows.lookup 0).map Row.claimToken, s.draws)) =
        some (some (.recording (1000 * second) ⟨0, 0, some 1⟩ [] .failed (1301 * second)),
          some (some 1), [0, 1]) ∧
      (exec State.step (State.start 2 (1000 * second)) (lateRead ++ [.record 0 true])).map (fun s =>
        (s.rows.lookup 0).map Row.claimToken) = some (some none)) := by decide

end Panmail.SentCopy
