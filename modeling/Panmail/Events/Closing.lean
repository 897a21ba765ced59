import Panmail.Events.Counters

/-!
# Closing the Pebble event store

A write puts its operation on a channel and returns; the writer's goroutine takes operations off the
channel, stages their rows and commits them in batches. `Close` flags the store as closed, tells the
goroutine to stop, and waits until it has emptied the channel and committed what it had.
-/
namespace Panmail.Events

open ByteStrings KeyValue Runs Delivery List Option

/-! ### The operations -/

inductive WriterOp where
  /-- An event, and the encoding of its metadata, if that has one. -/
  | writeOp (event : EmailEvent) (metadata : Option String)
  /-- A message, as the rows of its encoding, if it has one. -/
  | messageOp (rows : Option (List Write))
  /-- A resource point, as the row of its encoding, if it has one. -/
  | resourceOp (row : Option Write)
  | latestExpiryOp (expired : List LatestPointer)

variable {rows : List Write} {start : DB} {i : Nat}

namespace WriterOp

/-- `json.Marshal` succeeds: a time of the years 0 to 9999, and metadata that JSON has a text for.
-/
def marshals : WriterOp → Bool
  | .writeOp e metadata => decide (Dated e.timestamp) && metadata.isSome
  | .messageOp rows => rows.isSome
  | .resourceOp row => row.isSome
  | .latestExpiryOp _ => true

def perform (db : DB) (batchLatestTs : BatchLatestTs) :
    WriterOp → Option (List Write × BatchLatestTs)
  | .writeOp e metadata => if Dated e.timestamp && metadata.isSome
      then some (performWrite db e batchLatestTs) else none
  | .messageOp rows => rows.map fun rows => (rows, batchLatestTs)
  | .resourceOp row => row.map fun row => ([row], batchLatestTs)
  | .latestExpiryOp expired => some (performLatestExpiry db expired batchLatestTs)

def Performs (op : WriterOp) (rows : List Write) : Prop :=
  ∃ db batchLatestTs after, op.perform db batchLatestTs = some (rows, after)

def isExpiry : WriterOp → Bool
  | .latestExpiryOp _ => true
  | _ => false

theorem perform_of_marshals {op : WriterOp} (encodes : op.marshals = true) (db : DB)
    (batchLatestTs : BatchLatestTs) : ∃ rows after, op.perform db batchLatestTs = some (rows, after) := by
  cases op with
  | writeOp => exact ⟨_, _, if_pos encodes⟩
  | messageOp rows =>
    obtain ⟨rows, rfl⟩ := isSome_iff_exists.mp encodes
    exact ⟨_, _, rfl⟩
  | resourceOp row =>
    obtain ⟨row, rfl⟩ := isSome_iff_exists.mp encodes
    exact ⟨_, _, rfl⟩
  | latestExpiryOp => exact ⟨_, _, rfl⟩

theorem Performs.event {e : EmailEvent} {metadata : Option String}
    (performs : (writeOp e metadata).Performs rows) :
    Op.set (eventKey e).bytes (Value.event e) ∈ rows := by
  obtain ⟨db, ts, after, performed⟩ := performs
  simp only [perform, ite_none_right_eq_some, some.injEq] at performed
  have same := congrArg Prod.fst performed.2
  dsimp only at same
  rw [← same, performWrite]
  split
  · simp
  · dsimp only
    split <;> simp

end WriterOp

/-! ### The writer's goroutine -/

inductive WorkerPhase where
  | serving
  | draining
  | exited
  deriving DecidableEq

structure Worker where
  db : DB
  /-- The calls whose rows are in the batch, and their rows. -/
  batch : List (Nat × List Write)
  batchLatestTs : BatchLatestTs
  count : Nat
  phase : WorkerPhase
  /-- The calls whose `done` channel is closed. -/
  done : List Nat
  log : List (Option Nat × List Write)

open Worker

variable {w : Worker}

namespace Worker

def commit (w : Worker) : Worker :=
  if w.count = 0 then w
  else { w with
    db := w.db.commit (w.batch.flatMap Prod.snd)
    log := w.log ++ w.batch.map fun (i, rows) => (some i, rows)
    batch := []
    batchLatestTs := .empty
    count := 0 }

/-- An operation that cannot be encoded stages nothing: the error is dropped. -/
def stage (w : Worker) (i : Nat) (op : WriterOp) : Worker :=
  match op.perform w.db w.batchLatestTs with
  | some (rows, after) =>
    { w with batch := w.batch ++ [(i, rows)], batchLatestTs := after, count := w.count + 1 }
  | none => { w with count := w.count + 1 }

def apply (w : Worker) (i : Nat) (op : WriterOp) : Worker :=
  let staged := w.stage i op
  if op.isExpiry then { staged.commit with done := staged.done ++ [i] }
  else if staged.count ≥ 500 then staged.commit
  else staged

/-- The call's rows are in the batch or committed. -/
def Has (w : Worker) (i : Nat) (rows : List Write) : Prop :=
  (i, rows) ∈ w.batch ∨ (some i, rows) ∈ w.log

/-- An operation that can be encoded has its rows here, and one that is awaited is done. -/
structure Handled (w : Worker) (i : Nat) (op : WriterOp) : Prop where
  has : op.marshals = true → ∃ rows, op.Performs rows ∧ w.Has i rows
  done : op.isExpiry = true → i ∈ w.done

/-- A batch that counts no operation is empty, and the database is what the log makes of the one at
the start. -/
structure Sound (start : DB) (w : Worker) : Prop where
  counted : w.count = 0 → w.batch = []
  logged : w.db = start.commit (w.log.flatMap Prod.snd)

theorem Sound.commit (sound : w.Sound start) : w.commit.Sound start := by
  rw [Worker.commit]
  split
  · exact sound
  · refine ⟨fun _ => rfl, ?_⟩
    have rows : (w.batch.map fun (i, rows) => (some i, rows)).flatMap Prod.snd =
        w.batch.flatMap Prod.snd := by rw [flatMap_map]
    rw [flatMap_append, rows, commit_append, ← sound.logged]

theorem batch_commit (counted : w.count = 0 → w.batch = []) : w.commit.batch = [] := by
  rw [commit]
  split
  next none_ => exact counted none_
  · rfl

theorem Has.commit (has : w.Has i rows) : w.commit.Has i rows := by
  rw [Worker.commit]
  split
  · exact has
  · refine .inr (mem_append.mpr ?_)
    rcases has with staged | committed
    · exact .inr (mem_map.mpr ⟨_, staged, rfl⟩)
    · exact .inl committed

theorem frame_commit (w : Worker) : w.commit.phase = w.phase ∧ w.commit.done = w.done := by
  rw [commit]
  split <;> exact ⟨rfl, rfl⟩

theorem Sound.stage (sound : w.Sound start) (i : Nat) (op : WriterOp) :
    (w.stage i op).Sound start := by
  rw [Worker.stage]
  split <;> exact ⟨fun none_ => absurd none_ (Nat.succ_ne_zero _), sound.logged⟩

variable {j : Nat} {op : WriterOp}

theorem Has.stage (has : w.Has j rows) (i : Nat) (op : WriterOp) : (w.stage i op).Has j rows := by
  rw [Worker.stage]
  split
  · exact has.imp_left fun staged => mem_append_left _ staged
  · exact has

theorem Handled.mono {w' : Worker} (handled : w.Handled i op)
    (has : ∀ rows, w.Has i rows → w'.Has i rows) (done : i ∈ w.done → i ∈ w'.done) :
    w'.Handled i op :=
  ⟨fun encodes => (handled.has encodes).imp fun rows own => own.imp_right (has rows),
    fun expiry => done (handled.done expiry)⟩

theorem Handled.commit (handled : w.Handled i op) : w.commit.Handled i op :=
  handled.mono (fun _ => Has.commit) fun done => (frame_commit w).2.symm ▸ done

theorem stage_has (encodes : op.marshals = true) :
    ∃ rows, op.Performs rows ∧ (w.stage i op).Has i rows := by
  obtain ⟨rows, after, performed⟩ :=
    WriterOp.perform_of_marshals encodes w.db w.batchLatestTs
  refine ⟨rows, ⟨_, _, _, performed⟩, .inl ?_⟩
  rw [stage, performed]
  exact mem_concat_self

theorem frame_stage (w : Worker) (i : Nat) (op : WriterOp) :
    (w.stage i op).phase = w.phase ∧ (w.stage i op).done = w.done := by
  rw [stage]
  split <;> exact ⟨rfl, rfl⟩

theorem apply_eq (w : Worker) (i : Nat) (op : WriterOp) :
    ∃ w', (w' = w.stage i op ∨ w' = (w.stage i op).commit) ∧ w.apply i op =
      { w' with done := if op.isExpiry then w.done ++ [i] else w.done } := by
  have staged := frame_stage w i op
  have committed := frame_commit (w.stage i op)
  rw [apply, ← staged.2]
  split
  · exact ⟨_, .inr rfl, rfl⟩
  · split
    · exact ⟨_, .inr rfl, by rw [← committed.2]⟩
    · exact ⟨_, .inl rfl, rfl⟩

theorem Sound.apply (sound : w.Sound start) (i : Nat) (op : WriterOp) :
    (w.apply i op).Sound start := by
  have staged := sound.stage i op
  obtain ⟨w', rfl | rfl, applied⟩ := apply_eq w i op <;> rw [applied]
  · exact ⟨staged.counted, staged.logged⟩
  · exact ⟨staged.commit.counted, staged.commit.logged⟩

theorem apply_of_stage (staged : (w.stage i op).Has j rows) : (w.apply i op).Has j rows := by
  obtain ⟨w', rfl | rfl, applied⟩ := apply_eq w i op <;> rw [applied]
  · exact staged
  · exact staged.commit

theorem done_apply (w : Worker) (i : Nat) (op : WriterOp) :
    (w.apply i op).done = if op.isExpiry then w.done ++ [i] else w.done := by
  obtain ⟨_, _, applied⟩ := apply_eq w i op
  rw [applied]

theorem handled_apply (w : Worker) (i : Nat) (op : WriterOp) : (w.apply i op).Handled i op := by
  refine ⟨fun encodes => ?_, fun expiry => ?_⟩
  · obtain ⟨rows, performs, staged⟩ := stage_has encodes
    exact ⟨rows, performs, apply_of_stage staged⟩
  · rw [done_apply, if_pos expiry]
    exact mem_concat_self

theorem Handled.apply (handled : w.Handled j op) (i : Nat) (other : WriterOp) :
    (w.apply i other).Handled j op := by
  refine handled.mono (fun _ has => apply_of_stage (has.stage i other)) fun done => ?_
  rw [done_apply]
  split
  · exact mem_append_left _ done
  · exact done

theorem phase_apply (w : Worker) (i : Nat) (op : WriterOp) : (w.apply i op).phase = w.phase := by
  obtain ⟨w', rfl | rfl, applied⟩ := apply_eq w i op <;> rw [applied]
  · exact (frame_stage w i op).1
  · exact (frame_commit _).1.trans (frame_stage w i op).1

end Worker

/-! ### Callers and `Close` -/

inductive WriteResult where
  | ok
  | errClosed
  | ctxErr
  deriving DecidableEq

/-- Where a call of `enqueue`, or of `expireLatest` around it, is. -/
inductive CallerPhase where
  | calling
  /-- Holds the lock for reading. -/
  | checking
  /-- Past the check, in the `select` on the channel and the context. -/
  | sending
  /-- About to release the lock. -/
  | leaving (result : WriteResult)
  /-- `expireLatest` waits for its operation to be committed. -/
  | awaiting
  | returned (result : WriteResult)
  deriving DecidableEq

namespace CallerPhase

def holds : CallerPhase → Bool
  | .checking | .sending | .leaving _ => true
  | _ => false

def accepted : CallerPhase → Bool
  | .leaving .ok | .awaiting | .returned .ok => true
  | _ => false

def isReturned : CallerPhase → Bool
  | .returned _ => true
  | _ => false

/-- How many steps a call still has to take once the goroutine has exited. -/
def left : CallerPhase → Nat
  | .calling | .sending => 3
  | .checking | .leaving .ok => 2
  | .leaving _ | .awaiting => 1
  | .returned _ => 0

/-- The call has the closed error, or has not got to where it is decided. -/
def refused : CallerPhase → Bool
  | .calling | .checking | .leaving .errClosed | .returned .errClosed => true
  | _ => false

end CallerPhase

structure Caller where
  op : WriterOp
  phase : CallerPhase
  /-- The call started after a call of `Close` had returned. -/
  late : Bool

/-- How far the function inside `closeOnce` is. -/
inductive CloseStage where
  | idle
  /-- `Lock` is called: no new reader gets in. -/
  | locking
  | locked
  | flagged
  | unlocked
  | stopped
  | waited
  | done
  deriving DecidableEq

namespace CloseStage

def isFlagged : CloseStage → Bool
  | .idle | .locking | .locked => false
  | _ => true

def isStopped : CloseStage → Bool
  | .stopped | .waited | .done => true
  | _ => false

def isWaited : CloseStage → Bool
  | .waited | .done => true
  | _ => false

def excludes : CloseStage → Bool
  | .locking | .locked | .flagged => true
  | _ => false

end CloseStage

inductive CloserPhase where
  | calling
  | inside
  | returned
  deriving DecidableEq

structure Service where
  worker : Worker
  opChan : List (Nat × WriterOp)
  closed : Bool
  stopCh : Bool
  stage : CloseStage
  callers : List Caller
  closers : List CloserPhase

inductive ServiceLabel where
  | call (op : WriterOp)
  | proceed (i : Nat)
  | cancel (i : Nat)
  | close
  | enter (j : Nat)
  | advance
  | leave (j : Nat)
  | receive
  | tick
  | stop
  | drain
  | finish
  /-- A retention pass commits a batch of its own. -/
  | prune (writes : List Write)

open CallerPhase Service

variable {s t : Service} {c : Caller} {label : ServiceLabel}

namespace Service

def opChanSize : Nat := 20000

def setPhase (s : Service) (i : Nat) (c : Caller) (phase : CallerPhase) : Service :=
  { s with callers := s.callers.set i { c with phase } }

def proceed (s : Service) (i : Nat) (c : Caller) : Option Service :=
  match c.phase with
  | .calling => if s.stage.excludes then none else some (s.setPhase i c .checking)
  | .checking =>
    if s.closed then some (s.setPhase i c (.leaving .errClosed))
    else some (s.setPhase i c .sending)
  | .sending =>
    if s.opChan.length < opChanSize then
      some { s.setPhase i c (.leaving .ok) with opChan := s.opChan ++ [(i, c.op)] }
    else none
  | .leaving .ok =>
    if c.op.isExpiry then some (s.setPhase i c .awaiting) else some (s.setPhase i c (.returned .ok))
  | .leaving result => some (s.setPhase i c (.returned result))
  | .awaiting => if i ∈ s.worker.done then some (s.setPhase i c (.returned .ok)) else none
  | .returned _ => none

def cancel (s : Service) (i : Nat) (c : Caller) : Option Service :=
  match c.phase with
  | .sending => some (s.setPhase i c (.leaving .ctxErr))
  | .awaiting => some (s.setPhase i c (.returned .ctxErr))
  | _ => none

def advance (s : Service) : Option Service :=
  match s.stage with
  | .locking =>
    if s.callers.all fun c => !c.phase.holds then some { s with stage := .locked } else none
  | .locked => some { s with stage := .flagged, closed := true }
  | .flagged => some { s with stage := .unlocked }
  | .unlocked => some { s with stage := .stopped, stopCh := true }
  | .stopped => if s.worker.phase = .exited then some { s with stage := .waited } else none
  | .waited => some { s with stage := .done }
  | .idle | .done => none

def take (s : Service) (phase : WorkerPhase) : Option Service :=
  match s.opChan with
  | (i, op) :: rest =>
    if s.worker.phase = phase then some { s with worker := s.worker.apply i op, opChan := rest }
    else none
  | [] => none

def step (s : Service) : ServiceLabel → Option Service
  | .call op =>
    some { s with callers := s.callers ++ [⟨op, .calling, decide (.returned ∈ s.closers)⟩] }
  | .proceed i => s.callers[i]?.bind fun c => s.proceed i c
  | .cancel i => s.callers[i]?.bind fun c => s.cancel i c
  | .close => some { s with closers := s.closers ++ [.calling] }
  | .enter j =>
    -- the first call to come in runs the function, the others wait for it
    if s.closers[j]? = some .calling then
      some { s with
        closers := s.closers.set j .inside
        stage := if s.stage = .idle then .locking else s.stage }
    else none
  | .advance => s.advance
  | .leave j =>
    if s.closers[j]? = some .inside ∧ s.stage = .done then
      some { s with closers := s.closers.set j .returned }
    else none
  | .receive => s.take .serving
  | .tick => if s.worker.phase = .serving then some { s with worker := s.worker.commit } else none
  | .stop =>
    if s.worker.phase = .serving ∧ s.stopCh then
      some { s with worker := { s.worker with phase := .draining } }
    else none
  | .drain => s.take .draining
  | .finish =>
    if s.worker.phase = .draining ∧ s.opChan = [] then
      some { s with worker := { s.worker.commit with phase := .exited } }
    else none
  | .prune writes =>
    if s.stage = .done then none
    else some { s with worker := { s.worker with
      db := s.worker.db.commit writes, log := s.worker.log ++ [(none, writes)] } }

def open_ (db : DB) : Service where
  worker := ⟨db, [], .empty, 0, .serving, [], []⟩
  opChan := []
  closed := false
  stopCh := false
  stage := .idle
  callers := []
  closers := []

/-! ### What a step does -/

def isProceed (i : Nat) : ServiceLabel → Bool
  | .proceed j => decide (j = i)
  | _ => false

/-- A step of a call that does not put its operation on the channel. -/
structure Turn (s : Service) (i : Nat) (c : Caller) (label : ServiceLabel) (phase : CallerPhase) :
    Prop where
  mine : ∀ j, isProceed j label = true → i = j
  inside : s.stage.excludes = true → phase.holds = true → c.phase.holds = true
  sends : s.closed = true → phase ≠ .sending
  refused : s.closed = true → c.phase.refused = true → phase.refused = true
  accepted : phase.accepted = true → c.phase.accepted = true
  waits : phase = .awaiting → c.op.isExpiry = true
  /-- The call's own step brings it closer to its end, and the end of its context not away. -/
  left : s.closed = true → c.phase ≠ .sending →
    phase.left + (if isProceed i label then 1 else 0) ≤ c.phase.left

inductive Stepped (s : Service) : ServiceLabel → Service → Prop where
  | call (op : WriterOp) : Stepped s (.call op)
      { s with callers := s.callers ++ [⟨op, .calling, decide (.returned ∈ s.closers)⟩] }
  | turn {label : ServiceLabel} {i : Nat} {c : Caller} {phase : CallerPhase}
      (found : s.callers[i]? = some c) (turn : Turn s i c label phase) :
      Stepped s label (s.setPhase i c phase)
  | send {i : Nat} {c : Caller} (found : s.callers[i]? = some c) (sending : c.phase = .sending) :
      Stepped s (.proceed i)
        { s.setPhase i c (.leaving .ok) with opChan := s.opChan ++ [(i, c.op)] }
  | close : Stepped s .close { s with closers := s.closers ++ [.calling] }
  | enter (j : Nat) : Stepped s (.enter j) { s with
      closers := s.closers.set j .inside
      stage := if s.stage = .idle then .locking else s.stage }
  | advance {stage : CloseStage} {closed stopCh : Bool}
      (h : s.advance = some { s with stage, closed, stopCh }) :
      Stepped s .advance { s with stage, closed, stopCh }
  | leave (j : Nat) (done : s.stage = .done) :
      Stepped s (.leave j) { s with closers := s.closers.set j .returned }
  | take {label : ServiceLabel} {i : Nat} {op : WriterOp} {rest : List (Nat × WriterOp)}
      (queue : s.opChan = (i, op) :: rest) (running : s.worker.phase ≠ .exited) :
      Stepped s label { s with worker := s.worker.apply i op, opChan := rest }
  | tick (serving : s.worker.phase = .serving) : Stepped s .tick { s with worker := s.worker.commit }
  | stop (serving : s.worker.phase = .serving) (told : s.stopCh = true) :
      Stepped s .stop { s with worker := { s.worker with phase := .draining } }
  | finish (draining : s.worker.phase = .draining) (empty : s.opChan = []) :
      Stepped s .finish { s with worker := { s.worker.commit with phase := .exited } }
  | prune (writes : List Write) : Stepped s (.prune writes) { s with worker := { s.worker with
      db := s.worker.db.commit writes, log := s.worker.log ++ [(none, writes)] } }

theorem stepped_proceed (found : s.callers[i]? = some c) (h : s.proceed i c = some t) :
    Stepped s (.proceed i) t := by
  rw [proceed] at h
  split at h
  case h_3 sending =>
    obtain ⟨_, h⟩ := ite_none_right_eq_some.mp h
    cases h
    exact .send found sending
  case' h_5 result _ _ => cases result
  all_goals try split at h
  all_goals cases h
  all_goals
    refine .turn found ?_
    constructor <;> simp_all [isProceed, holds, refused,
      accepted, left]

theorem stepped_cancel (found : s.callers[i]? = some c) (h : s.cancel i c = some t) :
    Stepped s (.cancel i) t := by
  rw [cancel] at h
  split at h <;> cases h
  all_goals
    refine .turn found ?_
    constructor <;> simp_all [isProceed, holds, refused,
      accepted, left]

theorem stepped_take {phase : WorkerPhase} (h : s.take phase = some t)
    (running : phase ≠ .exited) : Stepped s label t := by
  rw [take] at h
  split at h
  next queue =>
    split at h <;> cases h
    next at_ => exact .take queue (at_ ▸ running)
  · cases h

theorem step_cases (h : s.step label = some t) : Stepped s label t := by
  cases label with
  | call op =>
    cases h
    exact .call op
  | proceed =>
    obtain ⟨c, found, h⟩ := bind_eq_some_iff.mp h
    exact stepped_proceed found h
  | cancel =>
    obtain ⟨c, found, h⟩ := bind_eq_some_iff.mp h
    exact stepped_cancel found h
  | close =>
    cases h
    exact .close
  | advance =>
    have h' := h
    simp only [step, advance] at h'
    repeat' split at h'
    all_goals cases h'
    all_goals exact .advance h
  | receive | drain => exact stepped_take h nofun
  | enter j =>
    obtain ⟨_, ⟨⟩⟩ := ite_none_right_eq_some.mp h
    exact .enter j
  | leave j =>
    obtain ⟨at_, ⟨⟩⟩ := ite_none_right_eq_some.mp h
    exact .leave j at_.2
  | tick =>
    obtain ⟨serving, ⟨⟩⟩ := ite_none_right_eq_some.mp h
    exact .tick serving
  | stop =>
    obtain ⟨at_, ⟨⟩⟩ := ite_none_right_eq_some.mp h
    exact .stop at_.1 at_.2
  | finish =>
    obtain ⟨at_, ⟨⟩⟩ := ite_none_right_eq_some.mp h
    exact .finish at_.1 at_.2
  | prune writes =>
    obtain ⟨_, ⟨⟩⟩ := ite_none_left_eq_some.mp h
    exact .prune writes

/-! ### The order of things -/

/-- What `Close` and the lock keep in order. -/
structure Ordered (s : Service) : Prop where
  flagged : s.closed = s.stage.isFlagged
  stopped : s.stopCh = s.stage.isStopped
  serving : s.stopCh = false → s.worker.phase = .serving
  exited : s.stage.isWaited = true → s.worker.phase = .exited
  left : .returned ∈ s.closers → s.stage = .done
  /-- `Lock` is held with no reader inside. -/
  alone : s.stage = .locked → ∀ c ∈ s.callers, c.phase.holds = false
  /-- Once the store is flagged as closed, no call is left that may still send. -/
  sealed : s.closed = true → ∀ c ∈ s.callers, c.phase ≠ .sending
  late : ∀ c ∈ s.callers, c.late = true → s.stage = .done ∧ c.phase.refused = true

variable {worker : Worker} {opChan : List (Nat × WriterOp)}

section
variable (ordered : s.Ordered)
include ordered

/-- What a step does to the parts that `Close` and the lock keep in order, if it is a step of the
goroutine or of retention. -/
theorem Ordered.work
    (phase : worker.phase = s.worker.phase ∨ s.stopCh = true ∧ s.worker.phase ≠ .exited) :
    Ordered { s with worker, opChan } where
  flagged := ordered.flagged
  stopped := ordered.stopped
  serving := fun running => by
    rcases phase with same | ⟨stopped, _⟩
    · exact same.trans (ordered.serving running)
    · cases running.symm.trans stopped
  exited := fun waited => by
    rcases phase with same | ⟨_, running⟩
    · exact same.trans (ordered.exited waited)
    · exact absurd (ordered.exited waited) running
  left := ordered.left
  alone := ordered.alone
  sealed := ordered.sealed
  late := ordered.late

theorem Ordered.setPhase (phase : CallerPhase) (found : s.callers[i]? = some c)
    (inside : s.stage = .locked → phase.holds = false) (sends : s.closed = true → phase ≠ .sending)
    (refused : c.late = true → s.stage = .done → c.phase.refused = true → phase.refused = true) :
    Ordered { s.setPhase i c phase with opChan } := by
  have mem := mem_of_getElem? found
  refine ⟨ordered.flagged, ordered.stopped, ordered.serving, ordered.exited, ordered.left,
    fun locked => ?_, fun flagged => ?_, ?_⟩
  · exact forall_mem_set (ordered.alone locked) (inside locked)
  · exact forall_mem_set (ordered.sealed flagged) (sends flagged)
  · refine forall_mem_set ordered.late fun late => ?_
    obtain ⟨done, was⟩ := ordered.late c mem late
    exact ⟨done, refused late done was⟩

theorem Ordered.turn {phase : CallerPhase} (found : s.callers[i]? = some c)
    (turn : Turn s i c label phase) : (s.setPhase i c phase).Ordered := by
  refine ordered.setPhase phase found (fun locked => ?_) turn.sends fun _ done => turn.refused ?_
  · by_contra holds
    have was := turn.inside (by rw [locked]; rfl) (Bool.eq_true_of_not_eq_false holds)
    cases was.symm.trans (ordered.alone locked c (mem_of_getElem? found))
  · rw [ordered.flagged, done]
    rfl

theorem Ordered.send (found : s.callers[i]? = some c) (sending : c.phase = .sending) :
    Ordered { s.setPhase i c (.leaving .ok) with opChan } := by
  refine ordered.setPhase (.leaving .ok) found (fun locked => ?_) (fun _ => nofun)
    fun _ _ was => by rw [sending] at was; cases was
  have out := ordered.alone locked c (mem_of_getElem? found)
  rw [sending] at out
  cases out

theorem Ordered.setStage (stage : CloseStage) {closed stopCh : Bool} (working : s.stage ≠ .done)
    (flagged : closed = stage.isFlagged) (stopped : stopCh = stage.isStopped)
    (serving : stopCh = false → s.stopCh = false)
    (exited : stage.isWaited = true → s.worker.phase = .exited)
    (alone : stage = .locked → ∀ c ∈ s.callers, c.phase.holds = false)
    (sealed : closed = true → ∀ c ∈ s.callers, c.phase ≠ .sending) :
    Ordered { s with stage, closed, stopCh } where
  flagged := flagged
  stopped := stopped
  serving := fun running => ordered.serving (serving running)
  exited := exited
  -- no call of `Close` has returned while it is at work, and so no call is late
  left := fun left => absurd (ordered.left left) working
  alone := alone
  sealed := sealed
  late := fun c mem late => absurd (ordered.late c mem late).1 working

theorem Ordered.toStage (stage : CloseStage) {was : CloseStage} (at_ : s.stage = was)
    (flags : was ≠ .done ∧ was.isFlagged = stage.isFlagged ∧ was.isStopped = stage.isStopped)
    (exited : stage.isWaited = true → s.worker.phase = .exited)
    (alone : stage = .locked → ∀ c ∈ s.callers, c.phase.holds = false) :
    Ordered { s with stage } := by
  subst at_
  exact ordered.setStage stage flags.1 (ordered.flagged.trans flags.2.1)
    (ordered.stopped.trans flags.2.2) id exited alone ordered.sealed

theorem Ordered.advance (h : s.advance = some t) : t.Ordered := by
  rw [Service.advance] at h
  split at h
  next stage =>
    split at h <;> cases h
    next free =>
      exact ordered.toStage .locked stage (by decide) nofun
        fun _ c mem => by simpa using all_eq_true.mp free c mem
  next stage =>
    cases h
    refine ordered.setStage .flagged (by rw [stage]; nofun) rfl
      (ordered.stopped.trans (by rw [stage]; rfl)) id nofun nofun fun _ c mem sending => ?_
    -- the lock was taken when no reader was inside, and a call that may send is one
    have out := ordered.alone stage c mem
    rw [sending] at out
    cases out
  next stage =>
    cases h
    exact ordered.toStage .unlocked stage (by decide) nofun nofun
  next stage =>
    cases h
    exact ordered.setStage .stopped (by rw [stage]; nofun)
      (ordered.flagged.trans (by rw [stage]; rfl)) rfl nofun nofun nofun ordered.sealed
  next stage =>
    split at h <;> cases h
    next exited =>
      exact ordered.toStage .waited stage (by decide) (fun _ => exited) nofun
  next stage =>
    cases h
    exact ordered.toStage .done stage (by decide) (fun _ => ordered.exited (by rw [stage]; rfl)) nofun
  all_goals cases h

theorem Ordered.stopped_of (working : s.worker.phase ≠ .serving) : s.stopCh = true := by
  by_contra running
  exact working (ordered.serving (Bool.eq_false_iff.mpr running))

theorem Ordered.step (h : s.step label = some t) : t.Ordered := by
  cases step_cases h with
  | call =>
    exact ⟨ordered.flagged, ordered.stopped, ordered.serving, ordered.exited, ordered.left,
      fun locked => forall_mem_concat (ordered.alone locked) rfl,
      fun flagged => forall_mem_concat (ordered.sealed flagged) nofun,
      forall_mem_concat ordered.late fun late =>
        ⟨ordered.left (of_decide_eq_true late), rfl⟩⟩
  | turn found turn => exact ordered.turn found turn
  | send found sending => exact ordered.send found sending
  | close =>
    refine { ordered with left := fun left => ordered.left ?_ }
    rcases mem_append.mp left with old | new
    · exact old
    · cases mem_singleton.mp new
  | enter j =>
    have left : .returned ∈ s.closers.set j .inside → .returned ∈ s.closers := fun mem => by
      rcases mem_or_eq_of_mem_set mem with old | new
      · exact old
      · cases new
    by_cases idle : s.stage = .idle
    · rw [if_pos idle]
      have locking := ordered.toStage .locking idle (by decide) nofun nofun
      exact { locking with left := fun mem => locking.left (left mem) }
    · rw [if_neg idle]
      exact { ordered with left := fun mem => ordered.left (left mem) }
  | advance h => exact ordered.advance h
  | leave _ done => exact { ordered with left := fun _ => done }
  | take => exact ordered.work (.inl (phase_apply ..))
  | tick => exact ordered.work (.inl (frame_commit _).1)
  | stop serving told => exact ordered.work (.inr ⟨told, by rw [serving]; nofun⟩)
  | finish draining =>
    exact ordered.work
      (.inr ⟨ordered.stopped_of (by rw [draining]; nofun), by rw [draining]; nofun⟩)
  | prune => exact ordered.work (.inl rfl)

theorem Ordered.closed_of_exited (exited : s.worker.phase = .exited) : s.closed = true := by
  have stopped := ordered.stopped_of (by rw [exited]; nofun)
  rw [ordered.flagged]
  rw [ordered.stopped] at stopped
  revert stopped
  cases s.stage <;> decide

end

/-! ### Where an accepted operation is -/

/-- The operation is on the channel, or the goroutine has taken it. -/
def Held (s : Service) (i : Nat) (op : WriterOp) : Prop :=
  (i, op) ∈ s.opChan ∨ s.worker.Handled i op

structure Tracked (s : Service) : Prop where
  accepted : ∀ i c, s.callers[i]? = some c → c.phase.accepted = true → s.Held i c.op
  waits : ∀ c ∈ s.callers, c.phase = .awaiting → c.op.isExpiry = true
  emptied : s.worker.phase = .exited → s.opChan = [] ∧ s.worker.batch = []

section
variable (tracked : s.Tracked)
include tracked

theorem Tracked.setPhase (phase : CallerPhase) (found : s.callers[i]? = some c)
    (was : phase.accepted = true → c.phase.accepted = true)
    (waits : phase = .awaiting → c.op.isExpiry = true) : (s.setPhase i c phase).Tracked := by
  refine ⟨fun j d entry accepted => ?_, forall_mem_set tracked.waits waits, tracked.emptied⟩
  rcases getElem?_set_cases entry with ⟨rfl, rfl⟩ | ⟨_, old⟩
  · exact tracked.accepted _ c found (was accepted)
  · exact tracked.accepted j d old accepted

theorem Tracked.send (ordered : s.Ordered) (found : s.callers[i]? = some c)
    (sending : c.phase = .sending) :
    Tracked { s.setPhase i c (.leaving .ok) with opChan := s.opChan ++ [(i, c.op)] } := by
  refine ⟨fun j d entry accepted => ?_, forall_mem_set tracked.waits nofun, fun exited => ?_⟩
  · rcases getElem?_set_cases entry with ⟨rfl, rfl⟩ | ⟨_, old⟩
    · exact .inl mem_concat_self
    · exact (tracked.accepted j d old accepted).imp_left (mem_append_left _)
  · exact absurd sending
      (ordered.sealed (ordered.closed_of_exited exited) c (mem_of_getElem? found))

theorem Tracked.work (held : ∀ i op, s.Held i op → Held { s with worker, opChan } i op)
    (emptied : worker.phase = .exited → opChan = [] ∧ worker.batch = []) :
    Tracked { s with worker, opChan } :=
  ⟨fun i c found accepted => held i c.op (tracked.accepted i c found accepted), tracked.waits,
    emptied⟩

theorem Tracked.take {op : WriterOp} {rest : List (Nat × WriterOp)}
    (queue : s.opChan = (i, op) :: rest) (running : s.worker.phase ≠ .exited) :
    Tracked { s with worker := s.worker.apply i op, opChan := rest } := by
  refine tracked.work (fun j other held => ?_)
    fun exited => absurd ((phase_apply ..).symm.trans exited) running
  rcases held with queued | handled
  · rw [queue, mem_cons, Prod.mk.injEq] at queued
    rcases queued with ⟨rfl, rfl⟩ | later
    · exact .inr (handled_apply ..)
    · exact .inl later
  · exact .inr (handled.apply i op)

theorem Tracked.step (ordered : s.Ordered) (counted : s.worker.count = 0 → s.worker.batch = [])
    (h : s.step label = some t) : t.Tracked := by
  cases step_cases h with
  | call op =>
    refine ⟨fun i c entry accepted => ?_, forall_mem_concat tracked.waits nofun, tracked.emptied⟩
    rcases getElem?_concat_cases entry with old | rfl
    · exact tracked.accepted i c old accepted
    · cases accepted
  | turn found turn => exact tracked.setPhase _ found turn.accepted turn.waits
  | send found sending => exact tracked.send ordered found sending
  | take queue running => exact tracked.take queue running
  | tick serving =>
    refine tracked.work (fun i op held => held.imp_right Handled.commit) fun exited => ?_
    rw [(frame_commit _).1, serving] at exited
    cases exited
  | stop => exact tracked.work (fun i op held => held.imp_right (·.mono (fun _ => id) id)) nofun
  | finish _ empty =>
    exact tracked.work (fun i op held => held.imp_right (·.commit.mono (fun _ => id) id))
      fun _ => ⟨empty, batch_commit counted⟩
  | prune =>
    exact tracked.work (fun i op held => held.imp_right
      (·.mono (fun _ has => has.imp_right (mem_append_left _)) id)) tracked.emptied
  | _ => exact { tracked with }

end

theorem sound_step (sound : s.worker.Sound start) (h : s.step label = some t) : t.worker.Sound start := by
  cases step_cases h with
  | take => exact sound.apply _ _
  | tick => exact sound.commit
  | stop => exact ⟨sound.counted, sound.logged⟩
  | finish => exact ⟨sound.commit.counted, sound.commit.logged⟩
  | prune =>
    refine ⟨sound.counted, ?_⟩
    rw [flatMap_append, commit_append, ← sound.logged]
    simp
  | _ => exact sound

/-- What a write's caller relies on. -/
structure Safe (start : DB) (s : Service) : Prop where
  ordered : s.Ordered
  tracked : s.Tracked
  sound : s.worker.Sound start

theorem no_callers (db : DB) (c : Caller) : c ∉ (open_ db).callers := not_mem_nil

theorem safe_open (db : DB) : (open_ db).Safe db where
  ordered :=
    { flagged := rfl
      stopped := rfl
      serving := fun _ => rfl
      exited := fun waited => absurd waited Bool.false_ne_true
      left := fun returned => absurd returned not_mem_nil
      alone := fun _ c mem => absurd mem (no_callers db c)
      sealed := fun _ c mem => absurd mem (no_callers db c)
      late := fun c mem => absurd mem (no_callers db c) }
  tracked :=
    { accepted := fun _ c found => absurd (mem_of_getElem? found) (no_callers db c)
      waits := fun c mem => absurd mem (no_callers db c)
      emptied := fun _ => ⟨rfl, rfl⟩ }
  sound := ⟨fun _ => rfl, rfl⟩

theorem Safe.step (safe : s.Safe start) (h : s.step label = some t) : t.Safe start :=
  ⟨safe.ordered.step h, safe.tracked.step safe.ordered safe.sound.counted h,
    sound_step safe.sound h⟩

/-! ### A goroutine that has exited -/

theorem Safe.not_sending (safe : s.Safe start) (exited : s.worker.phase = .exited)
    (mem : c ∈ s.callers) : c.phase ≠ .sending :=
  safe.ordered.sealed (safe.ordered.closed_of_exited exited) c mem

section
variable (safe : s.Safe start) (exited : s.worker.phase = .exited) (found : s.callers[i]? = some c)
include safe exited found

theorem Safe.proceeds (at_ : c.phase.isReturned = false) : (s.step (.proceed i)).isSome = true := by
  have mem := mem_of_getElem? found
  rw [Service.step, found, bind_some, Service.proceed]
  split
  · have stopped := safe.ordered.stopped_of (by rw [exited]; nofun)
    have free : s.stage.excludes = false := by
      rw [safe.ordered.stopped] at stopped
      revert stopped
      cases s.stage <;> decide
    rw [free]
    rfl
  · split <;> rfl
  next sending => exact absurd sending (safe.not_sending exited mem)
  · split <;> rfl
  · rfl
  next awaiting =>
    have held := safe.tracked.accepted i c found (by rw [awaiting]; rfl)
    rw [Held, (safe.tracked.emptied exited).1] at held
    have handled := held.resolve_left not_mem_nil
    rw [if_pos (handled.done (safe.tracked.waits c mem awaiting))]
    rfl
  next returned =>
    rw [returned] at at_
    cases at_

/-- Once the goroutine has exited, a call's own steps bring it closer to its end, and no other
step takes it away from there. -/
theorem Safe.left_step (h : s.step label = some t) :
    t.worker.phase = .exited ∧ ∃ d, t.callers[i]? = some d ∧
      d.phase.left + (if isProceed i label then 1 else 0) ≤ c.phase.left := by
  have bound := (List.getElem?_eq_some_iff.mp found).1
  cases step_cases h with
  | call => exact ⟨exited, c, (getElem?_append_left bound).trans found, Nat.le_refl _⟩
  | @turn _ j c' phase found' turn =>
    refine ⟨exited, ?_⟩
    by_cases same : j = i
    · subst same
      cases found.symm.trans found'
      exact ⟨_, getElem?_set_self bound, turn.left (safe.ordered.closed_of_exited exited)
        (safe.not_sending exited (mem_of_getElem? found))⟩
    · refine ⟨c, (getElem?_set_ne same).trans found, ?_⟩
      rw [if_neg fun own => same (turn.mine i own)]
      exact Nat.le_refl _
  | send found' sending =>
    exact absurd sending (safe.not_sending exited (mem_of_getElem? found'))
  -- the goroutine takes no step any more
  | take _ running => exact absurd exited running
  | tick serving | stop serving | finish serving => cases serving.symm.trans exited
  | _ => exact ⟨exited, c, found, Nat.le_refl _⟩

theorem Safe.returns {labels : List ServiceLabel} (run : exec Service.step s labels = some t) :
    ∃ d, t.callers[i]? = some d ∧ d.phase.left + labels.countP (isProceed i) ≤ c.phase.left := by
  induction labels generalizing s c with
  | nil =>
    cases run
    exact ⟨c, found, Nat.le_refl _⟩
  | cons _ rest ih =>
    obtain ⟨u, first, rest⟩ := (exec_cons ..).mp run
    obtain ⟨exited, d, entry, less⟩ := safe.left_step exited found first
    obtain ⟨d', last, least⟩ := ih (safe.step first) exited entry rest
    refine ⟨d', last, ?_⟩
    rw [countP_cons]
    omega

end

/-! ### What `Close` promises -/

structure CloseSafety (start : DB) (s : Service) : Prop where
  /-- When a `Close` has returned, a write that can be encoded and returned no error is committed,
  and the database is what the commits made of it. -/
  committed : .returned ∈ s.closers →
    s.worker.db = start.commit (s.worker.log.flatMap Prod.snd) ∧
    ∀ i c, s.callers[i]? = some c → c.op.marshals = true → c.phase = .returned .ok →
      ∃ rows, c.op.Performs rows ∧ (some i, rows) ∈ s.worker.log
  /-- A write that started after a `Close` had returned gets the closed error. -/
  refused : ∀ c ∈ s.callers, c.late = true → ∀ result, c.phase = .returned result →
    result = .errClosed
  /-- Once the goroutine has exited, the next step of a write can always be taken. -/
  unblocked : s.worker.phase = .exited → ∀ i c, s.callers[i]? = some c →
    c.phase.isReturned = false → (s.step (.proceed i)).isSome = true
  /-- And the third such step, at the latest, ends it. -/
  returns : s.worker.phase = .exited → ∀ labels t, exec step s labels = some t →
    ∀ i c, s.callers[i]? = some c → 3 ≤ labels.countP (isProceed i) →
      ∃ d, t.callers[i]? = some d ∧ d.phase.isReturned = true

theorem Safe.closeSafety (safe : s.Safe start) : s.CloseSafety start where
  committed := fun left => by
    refine ⟨safe.sound.logged, fun i c found encodes returned => ?_⟩
    have done := safe.ordered.left left
    have exited := safe.ordered.exited (by rw [done]; rfl)
    obtain ⟨queue, batch⟩ := safe.tracked.emptied exited
    -- the channel and the batch are empty, so the rows are committed
    have held := safe.tracked.accepted i c found (by rw [returned]; rfl)
    rw [Held, queue] at held
    obtain ⟨rows, performs, staged | logged⟩ := (held.resolve_left not_mem_nil).has encodes
    · rw [batch] at staged
      cases staged
    · exact ⟨rows, performs, logged⟩
  refused := fun c mem late result returned => by
    have refused := (safe.ordered.late c mem late).2
    rw [returned] at refused
    cases result with
    | errClosed => rfl
    | _ => cases refused
  unblocked := fun exited i c found => safe.proceeds exited found
  returns := fun exited labels t run i c found three => by
    obtain ⟨d, last, least⟩ := safe.returns exited found run
    refine ⟨d, last, ?_⟩
    have most : c.phase.left ≤ 3 := by
      cases c.phase with
      | leaving result => cases result <;> decide
      | returned => exact Nat.zero_le 3
      | _ => decide
    have ended : d.phase.left = 0 := by omega
    revert ended
    cases d.phase with
    | leaving result => cases result <;> exact nofun
    | returned => exact fun _ => rfl
    | _ => exact nofun

/-- In every run `Close` keeps its promises, to every write of what can be encoded. -/
theorem closeSafety_of_run {db : DB} {labels : List ServiceLabel} {t : Service}
    (run : exec step (open_ db) labels = some t) : t.CloseSafety db := by
  have safe : t.Safe db := invariant step (fun s => s.Safe db) (fun s label t safe h => safe.step h)
    (open_ db) t labels (safe_open db) run
  exact safe.closeSafety

/-! ### A write that is accepted and dropped -/

/-- One write, then `Close`, both to their ends. -/
def writeThenClose (e : EmailEvent) (metadata : Option String) : List ServiceLabel :=
  [.call (.writeOp e metadata), .proceed 0, .proceed 0, .proceed 0, .proceed 0, .close, .enter 0,
    .advance, .advance, .advance, .advance, .stop, .drain, .finish, .advance, .advance, .leave 0]

def delivered : EmailEvent := ⟨"e", "t", "", "", "", .delivered, "a@x.org", "Hi", 0, ""⟩

theorem committed_at_close :
    ∃ t, exec step (open_ .empty) (writeThenClose delivered (some "null")) = some t ∧
      .returned ∈ t.closers ∧ ∃ rows, (some 0, rows) ∈ t.worker.log ∧
        Op.set (eventKey delivered).bytes (Value.event delivered) ∈ rows := by
  have runs : ∃ t ∈ exec step (open_ .empty) (writeThenClose delivered (some "null")),
      .returned ∈ t.closers ∧ ∃ c ∈ t.callers[0]?, c.phase = .returned .ok ∧ c.op.marshals = true ∧
        (match c.op with
        | .writeOp e _ => decide (e = delivered)
        | _ => false) = true := by decide
  obtain ⟨t, run, left, ⟨op, phase, late⟩, found, returned, encodes, written⟩ := runs
  have safe := closeSafety_of_run run
  cases op with
  | writeOp =>
    obtain rfl := of_decide_eq_true written
    obtain ⟨rows, performs, logged⟩ := (safe.committed left).2 0 _ found encodes returned
    exact ⟨t, run, left, rows, logged, performs.event⟩
  | _ => cases written

/-- The metadata has no JSON text: the write returns no error, `Close` returns, and nothing has been
written. -/
theorem dropped_at_close :
    ∃ t, exec step (open_ .empty) (writeThenClose delivered none) = some t ∧
      .returned ∈ t.closers ∧ t.callers.map Caller.phase = [.returned .ok] ∧
      t.worker.log = [] ∧ t.worker.db.get (eventKey delivered).bytes = none := by
  decide

end Service

end Panmail.Events
