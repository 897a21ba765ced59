import Mathlib.Algebra.BigOperators.Group.List.Basic
import Panmail.Events.Postgres

/-!
# Expiring events from the shared store

Every instance expires events on its own: `TruncateBefore` prunes the instance's local store and
then, in batches, selects expired rows of the shared table, writes them to the instance's
archives and deletes them by id. Nothing keeps two instances off the same rows.
-/
namespace Panmail.Events.Postgres

open Runs Delivery List

def archiveBatch : Nat := 5000

namespace EventTable

/-- `heldEvents`: the given ids that are in the table. -/
def heldEvents (table : EventTable) (ids : List String) : List String :=
  (table.rows.map EmailEvent.id).filter (· ∈ ids)

def deleteIDs (table : EventTable) (ids : List String) : EventTable where
  rows := table.rows.filter (·.id ∉ ids)
  unique := table.unique.sublist (filter_sublist.map _)
  wellFormed := fun e mem => table.wellFormed e (mem_of_mem_filter mem)

/-- An answer to `WHERE timestamp < $1 ORDER BY timestamp`; rows with one timestamp come in any
order. -/
def Expired (table : EventTable) (before : Int) (answer : List EmailEvent) : Prop :=
  answer.Perm (table.rows.filter fun e => decide (e.timestamp < micros before)) ∧
    answer.Pairwise fun e e' => e.timestamp ≤ e'.timestamp

instance (table : EventTable) (before : Int) (answer : List EmailEvent) :
    Decidable (table.Expired before answer) := by
  unfold Expired
  infer_instance

variable {table : EventTable}

theorem Expired.subset {before : Int} {answer : List EmailEvent}
    (expired : table.Expired before answer) (mem : e ∈ answer) : e ∈ table.rows :=
  mem_of_mem_filter (expired.1.mem_iff.mp mem)

theorem insert_keeps {x : EmailEvent} (mem : x ∈ table.rows) : x ∈ (table.insert e).rows := by
  rw [insert]
  split
  · exact mem_append_left _ mem
  · exact mem

theorem flush_keeps {batch : List EmailEvent} {x : EmailEvent} (mem : x ∈ table.rows) :
    x ∈ (table.flush batch).rows := by
  rw [flush]
  split
  · generalize batch.map recorded = rows
    induction rows generalizing table with
    | nil => exact mem
    | cons _ _ ih => exact ih (insert_keeps mem)
  · exact mem

end EventTable

/-! ### The pass of an instance -/

inductive Phase where
  | idle
  /-- In the local store's `truncateBefore`, between two chunks. -/
  | pruning (before : Int) (expired : List EmailEvent)
  /-- In `expireChunk`: the chunk, the events of it yet to be archived, and those after it. -/
  | expiring (before : Int) (chunk todo rest : List EmailEvent)
  /-- In `archiveAndDeleteEvents`, before a `SELECT`. -/
  | selecting (before : Int)
  /-- In `ArchiveEvents`: the batch, and the events of it yet to be archived. -/
  | archiving (before : Int) (batch todo : List EmailEvent)
  deriving DecidableEq

structure Instance where
  /-- The events of the local store, in the order of their keys. -/
  events : List EmailEvent
  phase : Phase

/-- What the instances share, and what they have written to their disks. -/
structure Shared where
  table : EventTable
  archive : List EmailEvent
  /-- Every row the table has had. -/
  past : List EmailEvent
  /-- The events handed to an archive, once for every select or local chunk that handed it over. -/
  handed : List EmailEvent

variable {s t : Shared} {x y : Instance} {e : EmailEvent}

inductive Move where
  /-- `Write` mirrors an event to the local store. -/
  | mirror (e : EmailEvent)
  | begin (before : Int)
  | chunk
  /-- The next event of the chunk or of the batch goes to the archive. -/
  | archive
  | commit
  /-- The select, with the order in which the database finds the rows. -/
  | select (answer : List EmailEvent)
  | delete
  /-- The pass ends early: an error of any statement or write, the pass's timeout, a crash. -/
  | fail

def Instance.step (s : Shared) (x : Instance) : Move → Option (Shared × Instance)
  | .mirror e => some (s, { x with events := x.events ++ [e] })
  | .begin before =>
    match x.phase with
    | .idle =>
      let expired := x.events.filter fun e => decide ((e.timestamp : Int) < before)
      some (s, { x with phase := .pruning before expired })
    | _ => none
  | .chunk =>
    match x.phase with
    | .pruning before [] => some (s, { x with phase := .selecting before })
    | .pruning before expired =>
      let chunk := expired.take truncateBatchSize
      let held := s.table.heldEvents (chunk.map EmailEvent.id)
      let todo := chunk.filter fun e => decide (e.id ∉ held)
      some ({ s with handed := s.handed ++ todo },
        { x with phase := .expiring before chunk todo (expired.drop truncateBatchSize) })
    | _ => none
  | .archive =>
    match x.phase with
    | .expiring before chunk (e :: todo) rest =>
      some ({ s with archive := s.archive ++ [e] },
        { x with phase := .expiring before chunk todo rest })
    | .archiving before batch (e :: todo) =>
      -- an event with no tenant has no archive to go to
      some ({ s with archive := if e.tenantID = "" then s.archive else s.archive ++ [e] },
        { x with phase := .archiving before batch todo })
    | _ => none
  | .commit =>
    match x.phase with
    | .expiring before chunk [] rest =>
      some (s, { events := x.events.filter (· ∉ chunk), phase := .pruning before rest })
    | _ => none
  | .select answer =>
    match x.phase with
    | .selecting before =>
      if s.table.Expired before answer then
        let batch := answer.take archiveBatch
        some ({ s with handed := s.handed ++ batch },
          { x with phase := if batch = [] then .idle else .archiving before batch batch })
      else none
    | _ => none
  | .delete =>
    match x.phase with
    | .archiving before batch [] =>
      some ({ s with table := s.table.deleteIDs (batch.map EmailEvent.id) },
        -- a short batch means that the cutoff is exhausted
        { x with phase := if batch.length < archiveBatch then .idle else .selecting before })
    | _ => none
  | .fail => some (s, { x with phase := .idle })

/-! ### Any number of instances -/

structure Cluster extends Shared where
  instances : List Instance

inductive Label where
  | flush (batch : List EmailEvent)
  | instance_ (i : Nat) (move : Move)

def IDsName (events : List EmailEvent) : Prop :=
  ∀ e ∈ events, ∀ e' ∈ events, e.id = e'.id → e = e'

instance (events : List EmailEvent) : Decidable (IDsName events) := by
  unfold IDsName
  infer_instance

namespace Cluster

def step (s : Cluster) : Label → Option Cluster
  | .flush batch =>
    let table := s.table.flush batch
    let past := s.past ++ table.rows
    if IDsName past then some { s with table, past } else none
  | .instance_ i move => do
    let x ← s.instances[i]?
    let (shared, next) ← x.step s.toShared move
    some { toShared := shared, instances := s.instances.set i next }

structure Starts (s : Cluster) : Prop where
  past : s.past = s.table.rows
  archive : s.archive = []
  handed : s.handed = []
  idle : ∀ x ∈ s.instances, x.phase = .idle

def archivedTimes (s : Cluster) (id : String) : Nat := s.archive.countP (·.id = id)

def handedTimes (s : Cluster) (id : String) : Nat := s.handed.countP (·.id = id)

end Cluster

/-! ### What one step of an instance does -/

def Phase.todo : Phase → List EmailEvent
  | .expiring _ _ todo _ | .archiving _ _ todo => todo
  | _ => []

/-- The events of the batch at hand are rows the table has had, and those the pass is done with
are archived. -/
def Phase.Batched (s : Shared) : Phase → Prop
  | .archiving _ batch todo => ∀ e ∈ batch, e ∈ s.past ∧ (e ∈ todo ∨ e ∈ s.archive)
  | _ => True

/-- The step of an instance from `s` and `x` to `t` and `y`. -/
structure Stepped (s : Shared) (x : Instance) (t : Shared) (y : Instance) : Prop where
  past : t.past = s.past
  archive : s.archive ⊆ t.archive
  rows : t.table.rows ⊆ s.table.rows
  /-- Only the `DELETE` at the end of a batch takes rows away. -/
  removed : ∀ e ∈ s.table.rows, e ∈ t.table.rows ∨
    ∃ before batch, x.phase = .archiving before batch [] ∧ ∃ e' ∈ batch, e'.id = e.id
  /-- What becomes archived, or remains to be, was handed over in this step or before. -/
  counted : ∀ id : String,
    t.archive.countP (·.id = id) + y.phase.todo.countP (·.id = id) + s.handed.countP (·.id = id) ≤
      s.archive.countP (·.id = id) + x.phase.todo.countP (·.id = id) +
        t.handed.countP (·.id = id)

theorem stepped_alone (fewer : y.phase.todo = [] ∨ y.phase.todo = x.phase.todo) : Stepped s x s y where
  past := rfl
  archive := List.Subset.refl _
  rows := List.Subset.refl _
  removed := fun _ mem => .inl mem
  counted := fun id => by
    rcases fewer with none_ | same
    · simp only [none_, countP_nil]
      omega
    · rw [same]

theorem stepped_hand {events : List EmailEvent}
    (fewer : y.phase.todo = [] ∨ y.phase.todo = events) :
    Stepped s x { s with handed := s.handed ++ events } y where
  past := rfl
  archive := List.Subset.refl _
  rows := List.Subset.refl _
  removed := fun _ mem => .inl mem
  counted := fun id => by
    rcases fewer with none_ | same
    · simp only [none_, countP_nil, countP_append]
      omega
    · simp only [same, countP_append]
      omega

theorem stepped_archive {archive : List EmailEvent} (todo : x.phase.todo = e :: y.phase.todo)
    (written : archive = s.archive ∨ archive = s.archive ++ [e]) :
    Stepped s x { s with archive } y where
  past := rfl
  archive := by
    rcases written with rfl | rfl
    · exact List.Subset.refl _
    · exact subset_append_left _ _
  rows := List.Subset.refl _
  removed := fun _ mem => .inl mem
  counted := fun id => by
    rcases written with rfl | rfl <;>
    simp only [todo, countP_cons, countP_append, countP_nil] <;>
    omega

theorem stepped_delete {before : Int} {batch : List EmailEvent}
    (archived : x.phase = .archiving before batch []) (done : y.phase.todo = []) :
    Stepped s x { s with table := s.table.deleteIDs (batch.map EmailEvent.id) } y where
  past := rfl
  archive := List.Subset.refl _
  rows := filter_sublist.subset
  removed := fun e mem => by
    by_cases inside : e.id ∈ batch.map EmailEvent.id
    · exact .inr ⟨before, batch, archived, mem_map.mp inside⟩
    · exact .inl (mem_filter.mpr ⟨mem, by simpa using inside⟩)
  counted := fun id => by
    rw [done, countP_nil]
    dsimp only
    omega

open Instance

theorem Instance.stepped {move : Move} (h : x.step s move = some (t, y)) : Stepped s x t y := by
  cases move with
  | mirror =>
    cases h
    exact stepped_alone (.inr rfl)
  | begin =>
    simp only [step] at h
    split at h <;> cases h
    exact stepped_alone (.inl rfl)
  | chunk =>
    simp only [step] at h
    split at h <;> cases h
    · exact stepped_alone (.inl rfl)
    · exact stepped_hand (.inr rfl)
  | archive =>
    simp only [step] at h
    split at h <;> cases h
    next phase => exact stepped_archive (by rw [phase]; rfl) (.inr rfl)
    next phase =>
      refine stepped_archive (by rw [phase]; rfl) ?_
      split
      · exact .inl rfl
      · exact .inr rfl
  | commit =>
    simp only [step] at h
    split at h <;> cases h
    exact stepped_alone (.inl rfl)
  | select =>
    simp only [step] at h
    split at h <;> try cases h
    split at h <;> cases h
    refine stepped_hand ?_
    split
    · exact .inl rfl
    · exact .inr rfl
  | delete =>
    simp only [step] at h
    split at h <;> cases h
    next phase =>
      refine stepped_delete phase ?_
      split <;> rfl
  | fail =>
    cases h
    exact stepped_alone (.inl rfl)

/-! ### What holds in every state -/

/-- Of the rows the table has had, every one is in it or archived. -/
structure Kept (s : Shared) : Prop where
  formed : ∀ e ∈ s.past, Row e
  named : IDsName s.past
  current : s.table.rows ⊆ s.past
  kept : ∀ e ∈ s.past, e ∈ s.table.rows ∨ e ∈ s.archive

theorem Row.tenantID_ne (row : Row e) : e.tenantID ≠ "" := by
  intro empty
  have form := row.tenantID
  rw [empty] at form
  cases length_of_isUUID form

theorem Phase.Batched.mono {phase : Phase} (batched : phase.Batched s) (past : s.past ⊆ t.past)
    (archive : s.archive ⊆ t.archive) : phase.Batched t := by
  cases phase with
  | archiving =>
    intro e mem
    obtain ⟨row, at_⟩ := batched e mem
    exact ⟨past row, at_.imp_right fun written => archive written⟩
  | _ => trivial

section
variable {move : Move} (kept : Kept s) (batched : x.phase.Batched s)
  (h : x.step s move = some (t, y))
include kept batched h

theorem Instance.batched_step : y.phase.Batched t := by
  cases move with
  | mirror =>
    cases h
    exact batched
  | archive =>
    simp only [step] at h
    split at h <;> cases h
    · trivial
    next before batch e todo phase =>
      rw [phase] at batched
      intro x mem
      obtain ⟨row, at_⟩ := batched x mem
      refine ⟨row, ?_⟩
      -- a row of the table has a tenant, so its line is written
      rw [mem_cons] at at_
      rcases at_ with (rfl | later) | written
      · rw [if_neg (kept.formed x row).tenantID_ne]
        exact .inr (mem_concat_self)
      · exact .inl later
      · refine .inr ?_
        split
        · exact written
        · exact mem_append_left _ written
  | select =>
    simp only [step] at h
    split at h <;> try cases h
    split at h <;> cases h
    next expired =>
    split
    · trivial
    · exact fun e mem => ⟨kept.current (expired.subset (mem_of_mem_take mem)), .inl mem⟩
  | delete =>
    simp only [step] at h
    split at h <;> cases h
    split <;> trivial
  | _ =>
    simp only [step] at h
    repeat' split at h
    all_goals cases h
    all_goals trivial

theorem Kept.step : Kept t := by
  have stepped := stepped h
  refine ⟨stepped.past ▸ kept.formed, stepped.past ▸ kept.named, ?_, ?_⟩
  · rw [stepped.past]
    exact fun e mem => kept.current (stepped.rows mem)
  · rw [stepped.past]
    intro e row
    rcases kept.kept e row with present | written
    · rcases stepped.removed e present with stays | ⟨before, batch, phase, e', inside, same⟩
      · exact .inl stays
      · rw [phase] at batched
        obtain ⟨row', at_⟩ := batched e' inside
        rw [kept.named e' row' e row same] at at_
        rcases at_ with none_ | written
        · cases none_
        · exact .inr (stepped.archive written)
    · exact .inr (stepped.archive written)

end

theorem Kept.flush (kept : Kept s) (batch : List EmailEvent)
    (named : IDsName (s.past ++ (s.table.flush batch).rows)) :
    Kept { s with table := s.table.flush batch, past := s.past ++ (s.table.flush batch).rows } := by
  refine ⟨fun e mem => ?_, named, subset_append_right _ _, fun e mem => ?_⟩
  · rcases mem_append.mp mem with old | new
    · exact kept.formed e old
    · exact (s.table.flush batch).wellFormed e new
  · rcases mem_append.mp mem with old | new
    · exact (kept.kept e old).imp_left EventTable.flush_keeps
    · exact .inl new

namespace Cluster

def todoTimes (s : Cluster) (id : String) : Nat :=
  (s.instances.map fun x => x.phase.todo.countP (·.id = id)).sum

structure Safe (s : Cluster) : Prop where
  kept : Kept s.toShared
  batched : ∀ x ∈ s.instances, x.phase.Batched s.toShared
  counted : ∀ id, s.archivedTimes id + s.todoTimes id ≤ s.handedTimes id

theorem Starts.safe {s : Cluster} (start : s.Starts) : s.Safe where
  kept := by
    refine ⟨?_, ?_, ?_, ?_⟩ <;> rw [start.past]
    · exact s.table.wellFormed
    · exact inj_on_of_nodup_map s.table.unique
    · exact List.Subset.refl _
    · exact fun e mem => .inl mem
  batched := fun x mem => by
    rw [start.idle x mem]
    trivial
  counted := fun id => by
    have none_ : s.todoTimes id = 0 := by
      refine sum_eq_zero fun n mem => ?_
      obtain ⟨x, inside, rfl⟩ := mem_map.mp mem
      rw [start.idle x inside]
      rfl
    simp [archivedTimes, start.archive, none_]

theorem Safe.step {s t : Cluster} {label : Label} (safe : s.Safe) (h : s.step label = some t) :
    t.Safe := by
  cases label with
  | flush batch =>
    simp only [Cluster.step] at h
    split at h <;> cases h
    next named =>
      exact ⟨safe.kept.flush batch named,
        fun x mem => (safe.batched x mem).mono (subset_append_left _ _)
          (List.Subset.refl _), safe.counted⟩
  | instance_ =>
    simp only [Cluster.step, Option.bind_eq_bind, Option.bind_eq_some_iff] at h
    obtain ⟨x, found, ⟨shared, y⟩, moved, same⟩ := h
    cases same
    have stepped := stepped moved
    have mine := safe.batched x (mem_of_getElem? found)
    refine ⟨safe.kept.step mine moved, ?_, fun id => ?_⟩
    · refine forall_mem_set (fun z mem => ?_) (batched_step safe.kept mine moved)
      exact (safe.batched z mem).mono (by rw [stepped.past]; exact List.Subset.refl _) stepped.archive
    · have before := safe.counted id
      have change := stepped.counted id
      have moved_ := sum_set_add (fun z : Instance => z.phase.todo.countP (·.id = id)) y found
      simp only [archivedTimes, handedTimes, todoTimes] at before ⊢
      omega

variable {labels : List Label}

theorem Safe.run {s t : Cluster} (safe : s.Safe) (run : exec Cluster.step s labels = some t) :
    t.Safe :=
  invariant Cluster.step Safe (fun _ _ _ safe h => safe.step h) s t labels safe run

theorem past_run {s t : Cluster} (run : exec step s labels = some t) : s.past ⊆ t.past := by
  refine related step (fun s t => s.past ⊆ t.past) (fun _ => List.Subset.refl _)
    (fun _ _ _ first second => List.Subset.trans first second) ?_ s t labels run
  intro s label t h
  cases label with
  | flush =>
    simp only [step] at h
    split at h <;> cases h
    exact subset_append_left _ _
  | instance_ =>
    simp only [step, Option.bind_eq_bind, Option.bind_eq_some_iff] at h
    obtain ⟨x, found, ⟨shared, y⟩, moved, same⟩ := h
    cases same
    rw [(stepped moved).past]
    exact List.Subset.refl _

/-- However the passes interleave and fail, a row that is gone is in an archive, at most once for
each time a select or chunk handed it over. -/
theorem archived_of_deleted {s u t : Cluster} {first rest : List Label} (start : s.Starts)
    (reached : exec step s first = some u) (run : exec step u rest = some t) {e : EmailEvent}
    (row : e ∈ u.table.rows) (gone : e ∉ t.table.rows) :
    e ∈ t.archive ∧ 1 ≤ t.archivedTimes e.id ∧ t.archivedTimes e.id ≤ t.handedTimes e.id := by
  have before := start.safe.run reached
  have after := before.run run
  have archived : e ∈ t.archive :=
    (after.kept.kept e (past_run run (before.kept.current row))).resolve_left gone
  refine ⟨archived, countP_pos_iff.mpr ⟨e, archived, decide_eq_true rfl⟩, ?_⟩
  exact Nat.le_trans (Nat.le_add_right _ _) (after.counted e.id)

/-! ### Two instances on one row -/

def twoInstances : Cluster where
  table := ⟨[oldestOne], by decide, by decide⟩
  archive := []
  past := [oldestOne]
  handed := []
  instances := [⟨[], .idle⟩, ⟨[], .idle⟩]

theorem starts_twoInstances : twoInstances.Starts := by
  refine ⟨rfl, rfl, rfl, ?_⟩
  decide

def soloPass (i : Nat) : List Label :=
  [.begin 5000, .chunk, .select [oldestOne], .archive, .delete].map (.instance_ i)

theorem archived_of_soloPass :
    ∃ t, exec step twoInstances (soloPass 0) = some t ∧ oldestOne ∈ t.archive ∧
      t.archivedTimes oldestOne.id = 1 := by
  have runs : ∃ t ∈ exec step twoInstances (soloPass 0),
      oldestOne ∉ t.table.rows ∧ t.handedTimes oldestOne.id = 1 := by decide
  obtain ⟨t, run, gone, once⟩ := runs
  obtain ⟨archived, least, most⟩ := archived_of_deleted starts_twoInstances
    (exec_nil step twoInstances) run (by decide : oldestOne ∈ twoInstances.table.rows) gone
  exact ⟨t, run, archived, Nat.le_antisymm (once ▸ most) least⟩

/-- Both instances select the event before either deletes it, and both archive it. -/
theorem archived_twice :
    ∃ labels t, exec step twoInstances labels = some t ∧ oldestOne ∈ twoInstances.table.rows ∧
      oldestOne ∉ t.table.rows ∧ t.archivedTimes oldestOne.id = 2 := by
  have runs : ∃ t ∈ exec step twoInstances
      ([.begin 5000, .chunk, .select [oldestOne], .archive].map (.instance_ 0) ++
        soloPass 1 ++ [.instance_ 0 .delete]),
      oldestOne ∉ t.table.rows ∧ t.archivedTimes oldestOne.id = 2 := by decide
  obtain ⟨t, run, gone, twice⟩ := runs
  exact ⟨_, t, run, by decide, gone, twice⟩

end Cluster

end Panmail.Events.Postgres
