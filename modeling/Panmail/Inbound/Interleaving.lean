import Panmail.Inbound.Process

/-!
# Concurrent calls of `Process`

The poller and the IDLE sessions call `Process` for the same mailbox, so calls that carry one
message run side by side. A call looks the message up, records the bounces one after another,
screens the message, writes it and announces it, and others may run between any two of these steps.
So a call may look the message up after another did, and before that one has written.
-/
namespace Panmail.Inbound

open Runs List Bool Option

/-! ### The steps of a call -/

inductive Phase where
  | called
  /-- In `recordBounce`, with the events still to record. -/
  | recording (todo : List Effect)
  | screening
  /-- Before `Write`, with what follows a write that succeeds. -/
  | writing (after : List Effect)
  | written (after : List Effect)
  /-- Returned from the lookup, for a message already seen. -/
  | skipped
  | returned (ok : Bool)
  deriving DecidableEq

structure Running where
  call : Call
  phase : Phase
  /-- What the call has done so far. -/
  done : List Effect

def Call.start (c : Call) : Running := ⟨c, .called, []⟩

def announcement (u : Usecase) (c : Call) : List Effect :=
  if u.announces then [.webhook c.email.tenantID c.email] else []

/-- What follows the answer of `Screen`. -/
def Running.screen (u : Usecase) (r : Running) : Running :=
  match r.call.decision with
  | some (.reject, d) =>
    { r with phase := .returned true, done := r.done ++ r.call.record .reject d }
  | some (.hold, d) => { r with phase := .writing (r.call.record .hold d) }
  | some (.tag, d) =>
    { r with phase := .writing (announcement u r.call), done := r.done ++ r.call.record .tag d }
  | some _ | none => { r with phase := .writing (announcement u r.call) }

def Call.finds (db : InboundDB) (c : Call) : Bool :=
  c.email.id ≠ "" && !c.lookupFails && db.holds c.email.tenantID c.email.id

def Running.step (u : Usecase) (db : InboundDB) (r : Running) : Option (InboundDB × Running) :=
  match r.phase with
  | .called =>
    if r.call.finds db then some (db, { r with phase := .skipped })
    else some (db, { r with phase := .recording (recordBounce u r.call) })
  | .recording [] => some (db, { r with phase := .screening })
  | .recording (e :: todo) => some (db, { r with phase := .recording todo, done := r.done ++ [e] })
  | .screening => some (db, r.screen u)
  | .writing after =>
    if r.call.writeFails then some (db, { r with phase := .returned false })
    else some (db.write r.call.stored, { r with phase := .written after })
  | .written after => some (db, { r with phase := .returned true, done := r.done ++ after })
  | .skipped | .returned _ => none

def Phase.result : Phase → Option Bool
  | .skipped => some true
  | .returned ok => some ok
  | _ => none

structure Calls where
  db : InboundDB
  running : List Running

def Calls.start (db : InboundDB) (calls : List Call) : Calls := ⟨db, calls.map Call.start⟩

def Calls.step (u : Usecase) (s : Calls) (i : Nat) : Option Calls :=
  s.running[i]?.bind fun r => (r.step u s.db).map fun next => ⟨next.1, s.running.set i next.2⟩

theorem Calls.step_cases {u : Usecase} {s t : Calls} {i : Nat} (taken : s.step u i = some t) :
    ∃ r db new, s.running[i]? = some r ∧ r.step u s.db = some (db, new) ∧
      t = ⟨db, s.running.set i new⟩ := by
  obtain ⟨r, here, rest⟩ := bind_eq_some_iff.mp taken
  obtain ⟨⟨db, new⟩, next, rfl⟩ := map_eq_some_iff.mp rest
  exact ⟨r, db, new, here, next, rfl⟩

open Calls

/-! ### A call that runs alone -/

section
variable {u : Usecase} {db : InboundDB} {c : Call}

theorem exec_recording (todo done : List Effect) :
    exec (step u) ⟨db, [⟨c, .recording todo, done⟩]⟩ (List.replicate (todo.length + 1) 0) =
      some ⟨db, [⟨c, .screening, done ++ todo⟩]⟩ := by
  induction todo generalizing done with
  | nil => simp [exec, step, Running.step]
  | cons e todo ih =>
    have first : (⟨db, [⟨c, .recording (e :: todo), done⟩]⟩ : Calls).step u 0 =
        some ⟨db, [⟨c, .recording todo, done ++ [e]⟩]⟩ := rfl
    rw [length_cons, replicate_succ, exec, first, bind_some, ih,
      append_assoc]
    rfl

theorem exec_screening (unseen : ¬ c.finds db = true) : ∃ n,
    exec (step u) ⟨db, [⟨c, .screening, recordBounce u c⟩]⟩ (List.replicate n 0) =
      some ⟨(process u db c).1, [⟨c, .returned (process u db c).2.2, (process u db c).2.1⟩]⟩ := by
  have body : process u db c = _ := if_neg unseen
  rw [body]
  -- whatever was noted, a write and what follows it end the call
  have ends (after done : List Effect) : exec (step u) ⟨db, [⟨c, .writing after, done⟩]⟩
      (List.replicate (if c.writeFails then 1 else 2) 0) =
      if c.writeFails then some ⟨db, [⟨c, .returned false, done⟩]⟩
      else some ⟨db.write c.stored, [⟨c, .returned true, done ++ after⟩]⟩ := by
    cases fails : c.writeFails with
    | _ => simp [exec, step, Running.step, fails]
  have screens (next : Running)
      (same : Running.screen u ⟨c, .screening, recordBounce u c⟩ = next) :
      (⟨db, [⟨c, .screening, recordBounce u c⟩]⟩ : Calls).step u 0 = some ⟨db, [next]⟩ := by
    simp [step, Running.step, same]
  cases decided : c.decision with
  | none =>
    refine ⟨(if c.writeFails then 1 else 2) + 1, ?_⟩
    rw [replicate_succ, exec, screens _ (by rw [Running.screen, decided]), bind_some, ends]
    cases fails : c.writeFails <;> simp [deliver, fails, announcement]
  | some decision =>
    obtain ⟨action, d⟩ := decision
    cases action with
    | reject =>
      refine ⟨1, ?_⟩
      rw [replicate_one, exec, screens _ (by rw [Running.screen, decided])]
      rfl
    | hold | tag | allow | unknown text =>
      refine ⟨(if c.writeFails then 1 else 2) + 1, ?_⟩
      rw [replicate_succ, exec, screens _ (by rw [Running.screen, decided]), bind_some,
        ends]
      cases fails : c.writeFails <;> simp [deliver, fails, announcement]

theorem exec_alone : ∃ n phase, exec (step u) (start db [c]) (List.replicate n 0) =
      some ⟨(process u db c).1, [⟨c, phase, (process u db c).2.1⟩]⟩ ∧
    phase.result = some (process u db c).2.2 := by
  by_cases found : c.finds db = true
  · refine ⟨1, .skipped, ?_⟩
    have skipped : process u db c = (db, [], true) := if_pos found
    simp [exec, step, start, Call.start, Running.step, found, skipped, Phase.result]
  · have looked : (start db [c]).step u 0 =
        some ⟨db, [⟨c, .recording (recordBounce u c), []⟩]⟩ := by
      simp [step, start, Call.start, Running.step, found]
    obtain ⟨n, rest⟩ := exec_screening (u := u) found
    refine ⟨1 + ((recordBounce u c).length + 1 + n), .returned (process u db c).2.2, ?_, rfl⟩
    rw [replicate_add, replicate_add]
    refine (exec_append _ _ _ _ _).mpr ⟨_, ?_, (exec_append _ _ _ _ _).mpr
      ⟨_, exec_recording (recordBounce u c) [], rest⟩⟩
    rw [replicate_one, exec, looked]
    rfl

end

/-! ### Which calls act -/

def Call.stopped (c : Call) : Bool :=
  match c.decision with
  | some (.reject, _) | some (.hold, _) => true
  | _ => false

namespace Running

def entered (r : Running) : Bool :=
  match r.phase with
  | .called | .skipped => false
  | _ => true

/-- The call did not find the message, and has not tried to write it. -/
def between (r : Running) : Bool :=
  match r.phase with
  | .recording _ | .screening | .writing _ => true
  | _ => false

def stored (r : Running) : Bool :=
  match r.phase with
  | .written _ | .returned true => true
  | _ => false

/-- What the call has done is what it is to do, up to where it is. -/
def Due (u : Usecase) (r : Running) : Prop :=
  match r.phase with
  | .called | .skipped => r.done = []
  | .recording todo => r.done ++ todo = recordBounce u r.call
  | .screening => r.done = recordBounce u r.call
  | .writing after => r.done ++ after = recordBounce u r.call ++ r.call.rest u
  | .written after =>
    r.call.writeFails = false ∧ r.done ++ after = recordBounce u r.call ++ r.call.rest u
  | .returned ok => r.call.writeFails = !ok ∧
    (ok = true → r.done = recordBounce u r.call ++ r.call.rest u)

end Running

/-- The call carries the message, which no filter rule stops. -/
structure Call.Passes (tenantID id : String) (c : Call) : Prop where
  carries : c.Carries tenantID id
  unstopped : c.stopped = false

section
variable {u : Usecase} {tenantID id : String} {db db' : InboundDB} {r r' : Running} {c : Call}

theorem Running.screen_unstopped (done : List Effect) (unstopped : c.stopped = false) :
    ∃ noted, Running.screen u ⟨c, .screening, done⟩ =
        ⟨c, .writing (announcement u c), done ++ noted⟩ ∧ noted ++ announcement u c = c.rest u := by
  unfold Call.stopped at unstopped
  unfold Running.screen Call.rest
  cases decided : c.decision with
  | none => exact ⟨[], by simp, rfl⟩
  | some decision =>
    obtain ⟨action, d⟩ := decision
    rw [decided] at unstopped
    cases action with
    | tag => exact ⟨c.record .tag d, rfl, rfl⟩
    | reject | hold => cases unstopped
    | allow | unknown text => exact ⟨[], by simp, rfl⟩

/-- What a step of a call that nothing stops is. -/
inductive Moves (u : Usecase) (db : InboundDB) (c : Call) : Running → InboundDB × Running → Prop
  | found (done : List Effect) (answered : c.lookupFails = false)
      (held : db.holds c.email.tenantID c.email.id = true) :
    Moves u db c ⟨c, .called, done⟩ (db, ⟨c, .skipped, done⟩)
  | missed (done : List Effect)
      (unseen : c.lookupFails = true ∨ db.holds c.email.tenantID c.email.id = false) :
    Moves u db c ⟨c, .called, done⟩ (db, ⟨c, .recording (recordBounce u c), done⟩)
  | recorded (done : List Effect) :
    Moves u db c ⟨c, .recording [], done⟩ (db, ⟨c, .screening, done⟩)
  | records (e : Effect) (todo done : List Effect) :
    Moves u db c ⟨c, .recording (e :: todo), done⟩ (db, ⟨c, .recording todo, done ++ [e]⟩)
  | screens (done noted : List Effect) (due : noted ++ announcement u c = c.rest u) :
    Moves u db c ⟨c, .screening, done⟩ (db, ⟨c, .writing (announcement u c), done ++ noted⟩)
  | fails (after done : List Effect) (failed : c.writeFails = true) :
    Moves u db c ⟨c, .writing after, done⟩ (db, ⟨c, .returned false, done⟩)
  | writes (after done : List Effect) (answered : c.writeFails = false) :
    Moves u db c ⟨c, .writing after, done⟩ (db.write c.stored, ⟨c, .written after, done⟩)
  | ends (after done : List Effect) :
    Moves u db c ⟨c, .written after, done⟩ (db, ⟨c, .returned true, done ++ after⟩)

theorem Running.step_moves (named : id ≠ "") (passes : r.call.Passes tenantID id)
    (taken : r.step u db = some (db', r')) : Moves u db r.call r (db', r') := by
  obtain ⟨c, phase, done⟩ := r
  simp only at passes
  cases phase with
  | called =>
    have finds : c.finds db = (!c.lookupFails && db.holds c.email.tenantID c.email.id) := by
      simp [Call.finds, passes.carries.2, named]
    simp only [Running.step, finds] at taken
    split at taken
    next held =>
      cases taken
      obtain ⟨answered, held⟩ := (and_eq_true _ _).mp held
      exact .found done (by simpa using answered) held
    next unseen =>
      cases taken
      refine .missed done ?_
      cases failed : c.lookupFails with
      | true => exact .inl rfl
      | false => exact .inr (by simpa [failed] using unseen)
  | recording todo =>
    cases todo with
    | nil =>
      cases taken
      exact .recorded done
    | cons e todo =>
      cases taken
      exact .records e todo done
  | screening =>
    obtain ⟨noted, screened, due⟩ :=
      Running.screen_unstopped (u := u) done passes.unstopped
    simp only [Running.step, screened, some.injEq] at taken
    cases taken
    exact .screens done noted due
  | writing after =>
    simp only [Running.step] at taken
    split at taken
    next failed =>
      cases taken
      exact .fails after done failed
    next answered =>
      cases taken
      exact .writes after done (by simpa using answered)
  | written after =>
    cases taken
    exact .ends after done
  | skipped | returned ok => cases taken

theorem Moves.call (moves : Moves u db c r (db', r')) : r'.call = r.call := by
  cases moves <;> rfl

theorem Moves.due (moves : Moves u db c r (db', r')) (before : r.Due u) : r'.Due u := by
  cases moves with
  | found => exact before
  | missed done =>
    have none_ : done = [] := before
    simp [Running.Due, none_]
  | recorded | records => simpa [Running.Due] using before
  | screens done _ due =>
    have recorded : done = recordBounce u c := before
    simp [Running.Due, ← due, recorded]
  | fails _ _ failed => simpa [Running.Due] using failed
  | writes _ _ answered => exact ⟨answered, before⟩
  | ends => exact ⟨before.1, fun _ => before.2⟩

/-- What a step does to where the call is, seen from the others. -/
inductive Passage (tenantID id : String) (db db' : InboundDB) (r r' : Running) : Prop
  | finds (called : r.phase = .called) (answered : r.call.lookupFails = false)
      (held : db.holds tenantID id = true) (away : r'.phase = .skipped) (same : db' = db)
  | enters (called : r.phase = .called)
      (unseen : r.call.lookupFails = true ∨ db.holds tenantID id = false)
      (inside : r'.between = true ∧ r'.entered = true ∧ r'.stored = false) (same : db' = db)
  | stays (entered : r.entered = true ∧ r'.entered = true) (same : db' = db)
      (unwritten : r'.stored = r.stored)
  | writes (entered : r.entered = true ∧ r'.entered = true) (outside : r.stored = false)
      (written : r'.stored = true) (held : db'.holds tenantID id = true)

theorem Moves.passage (moves : Moves u db c r (db', r')) (passes : c.Passes tenantID id) :
    Passage tenantID id db db' r r' := by
  have carries := passes.carries
  cases moves with
  | found _ answered held =>
    rw [carries.1, carries.2] at held
    exact .finds rfl answered held rfl rfl
  | missed _ unseen =>
    rw [carries.1, carries.2] at unseen
    exact .enters rfl unseen ⟨rfl, rfl, rfl⟩ rfl
  | recorded done | records e todo done | screens done noted due | fails after done failed
  | ends after done => exact .stays ⟨rfl, rfl⟩ rfl rfl
  | writes =>
    refine .writes ⟨rfl, rfl⟩ rfl rfl ?_
    rw [← carries.1, ← carries.2]
    exact InboundDB.holds_write db c.stored

end

/-! ### Every run -/

/-- What holds in every state that calls with one message reach. -/
structure Calls.Kept (u : Usecase) (tenantID id : String) (s : Calls) : Prop where
  passes : ∀ r ∈ s.running, r.call.Passes tenantID id
  due : ∀ r ∈ s.running, r.Due u
  /-- The message is stored where one of the calls has written it. -/
  held : s.db.holds tenantID id = true ↔ ∃ r ∈ s.running, r.stored = true
  /-- A call is skipped for a message that one of them has written. -/
  seen : ∀ r ∈ s.running, r.phase = .skipped → s.db.holds tenantID id = true

/-- At most one call did not find the message, and its write succeeds. -/
structure Calls.Sole (s : Calls) : Prop where
  one : s.running.countP Running.entered ≤ 1
  writes : ∀ r ∈ s.running, r.entered = true → r.call.writeFails = false

/-- A step that looks the message up: no other call has looked it up and not written it, a stored
message is found, and the write of one that is not stored will succeed. -/
def Calls.Exclusive (tenantID id : String) (s : Calls) (i : Nat) : Prop :=
  ∀ r, s.running[i]? = some r → r.phase = .called →
    (∀ q ∈ s.running, q.between = false) ∧
    (r.call.lookupFails = true → s.db.holds tenantID id = false) ∧
    (r.call.writeFails = true → s.db.holds tenantID id = true)

instance (tenantID id : String) (s : Calls) (i : Nat) : Decidable (s.Exclusive tenantID id i) := by
  unfold Exclusive
  infer_instance

section
variable {u : Usecase} {tenantID id : String} {s t : Calls} {i : Nat} {db : InboundDB}
  {r : Running}

theorem Calls.step_passage (named : id ≠ "") (kept : s.Kept u tenantID id)
    (taken : s.step u i = some t) :
    ∃ r r', s.running[i]? = some r ∧ t.running = s.running.set i r' ∧ r'.call = r.call ∧
      r'.Due u ∧ Passage tenantID id s.db t.db r r' := by
  obtain ⟨r, db, r', here, step, rfl⟩ := step_cases taken
  have mem := mem_of_getElem? here
  have moves := Running.step_moves named (kept.passes r mem) step
  exact ⟨r, r', here, rfl, moves.call, moves.due (kept.due r mem),
    moves.passage (kept.passes r mem)⟩

theorem Calls.Kept.start {calls : List Call} (passes : ∀ c ∈ calls, c.Passes tenantID id)
    (absent : db.holds tenantID id = false) : (Calls.start db calls).Kept u tenantID id := by
  have started : ∀ r ∈ (Calls.start db calls).running, ∃ c ∈ calls, r = c.start := by
    intro r mem
    obtain ⟨c, called, rfl⟩ := mem_map.mp mem
    exact ⟨c, called, rfl⟩
  constructor
  case passes =>
    intro r mem
    obtain ⟨c, called, rfl⟩ := started r mem
    exact passes c called
  case due =>
    intro r mem
    obtain ⟨c, _, rfl⟩ := started r mem
    rfl
  case held =>
    constructor
    · intro held
      cases absent.symm.trans held
    · rintro ⟨r, mem, stored⟩
      obtain ⟨c, _, rfl⟩ := started r mem
      cases stored
  case seen =>
    intro r mem skipped
    obtain ⟨c, _, rfl⟩ := started r mem
    cases skipped

theorem Passage.held {db' : InboundDB} {r' : Running} (passage : Passage tenantID id db db' r r')
    (held : db.holds tenantID id = true) : db'.holds tenantID id = true := by
  cases passage with
  | finds _ _ _ _ same | enters _ _ _ same | stays _ same _ => exact same ▸ held
  | writes _ _ _ after => exact after

theorem Calls.Kept.step (named : id ≠ "") (kept : s.Kept u tenantID id)
    (taken : s.step u i = some t) : t.Kept u tenantID id := by
  obtain ⟨r, r', here, running, call, due, passage⟩ := step_passage named kept taken
  have mem := mem_of_getElem? here
  constructor
  case passes =>
    rw [running]
    exact forall_mem_set kept.passes (call ▸ kept.passes r mem)
  case due =>
    rw [running]
    exact forall_mem_set kept.due due
  case seen =>
    rw [running]
    refine forall_mem_set (fun q other skipped => passage.held (kept.seen q other skipped)) ?_
    intro skipped
    cases passage with
    | finds _ _ held _ same => exact same ▸ held
    | enters _ _ inside => simp [Running.between, skipped] at inside
    | stays entered _ _ | writes entered _ _ _ => simp [Running.entered, skipped] at entered
  case held =>
    rw [running]
    constructor
    · intro after
      cases passage with
      | finds called _ _ _ same | enters called _ _ same =>
        refine exists_mem_set here (fun stored => ?_) (kept.held.mp (same ▸ after))
        simp [Running.stored, called] at stored
      | stays _ same unwritten =>
        exact exists_mem_set here (fun stored => unwritten ▸ stored) (kept.held.mp (same ▸ after))
      | writes _ _ written => exact ⟨r', mem_set_here r' here, written⟩
    · rintro ⟨q, later, stored⟩
      rcases mem_set_other later with rfl | ⟨j, _, old⟩
      · cases passage with
        | finds _ _ held _ same => exact same ▸ held
        | enters _ _ inside => cases inside.2.2.symm.trans stored
        | stays _ same unwritten => exact same ▸ kept.held.mpr ⟨r, mem, unwritten ▸ stored⟩
        | writes _ _ _ after => exact after
      · exact passage.held (kept.held.mpr ⟨q, mem_of_getElem? old, stored⟩)

theorem Running.entered_of_between (inside : r.between = true) : r.entered = true := by
  obtain ⟨call, phase, done⟩ := r
  cases phase <;> first | rfl | cases inside

theorem Running.entered_of_stored (stored : r.stored = true) :
    r.entered = true ∧ r.between = false := by
  obtain ⟨call, phase, done⟩ := r
  cases phase <;> first | exact ⟨rfl, rfl⟩ | cases stored

/-- A call that did not find the message is before its write, or has written, or has failed to. -/
theorem Running.between_or_stored (due : r.Due u) (entered : r.entered = true)
    (writes : r.call.writeFails = false) : r.between = true ∨ r.stored = true := by
  obtain ⟨call, phase, done⟩ := r
  cases phase with
  | called | skipped => cases entered
  | recording todo | screening | writing after => exact .inl rfl
  | written => exact .inr rfl
  | returned ok =>
    cases ok with
    | true => exact .inr rfl
    | false => cases writes.symm.trans due.1

theorem Calls.Sole.not_between (sole : s.Sole) {w : Running} (writer : w ∈ s.running)
    (stored : w.stored = true) : ∀ q ∈ s.running, q.between = false := by
  intro q mem
  by_contra inside
  simp only [not_eq_false] at inside
  obtain ⟨j, first⟩ := getElem?_of_mem mem
  obtain ⟨k, second⟩ := getElem?_of_mem writer
  have same := countP_le_one_iff.mp sole.one j k q w first second
    (Running.entered_of_between inside) (Running.entered_of_stored stored).1
  subst same
  cases first.symm.trans second
  cases (Running.entered_of_stored stored).2.symm.trans inside

/-- Nobody has entered where nobody is between lookup and write and nothing is stored. -/
theorem Calls.Sole.not_entered (sole : s.Sole) (kept : s.Kept u tenantID id)
    (absent : s.db.holds tenantID id = false) (outside : ∀ q ∈ s.running, q.between = false) :
    s.running.countP Running.entered = 0 := by
  refine countP_eq_zero.mpr fun q mem entered => ?_
  rcases Running.between_or_stored (kept.due q mem) entered (sole.writes q mem entered) with
    inside | stored
  · cases (outside q mem).symm.trans inside
  · cases absent.symm.trans (kept.held.mpr ⟨q, mem, stored⟩)

/-- One call at most acts after a step exactly when that was so before it, and the step lets no
second call in. -/
theorem Calls.sole_step (named : id ≠ "") (kept : s.Kept u tenantID id)
    (taken : s.step u i = some t) : t.Sole ↔ s.Sole ∧ s.Exclusive tenantID id i := by
  obtain ⟨r, r', here, running, call, due, passage⟩ := step_passage named kept taken
  have mem := mem_of_getElem? here
  have counted := countP_set_add Running.entered r' here
  rw [← running] at counted
  have outside (called : r.phase = .called) : r.entered = false := by simp [Running.entered, called]
  -- a call that is where it was, in or out, leaves it as it was whether one at most acts
  have unchanged (same : r'.entered = r.entered) : t.Sole ↔ s.Sole := by
    rw [same] at counted
    have writes : (∀ q ∈ t.running, q.entered = true → q.call.writeFails = false) ↔
        ∀ q ∈ s.running, q.entered = true → q.call.writeFails = false := by
      rw [running]
      exact forall_mem_set_iff here (by rw [same, call])
    have number : t.running.countP Running.entered = s.running.countP Running.entered := by omega
    exact ⟨fun sole => ⟨number ▸ sole.one, writes.mp sole.writes⟩,
      fun sole => ⟨number ▸ sole.one, writes.mpr sole.writes⟩⟩
  cases passage with
  | finds called answered held away =>
    rw [unchanged (by simp [Running.entered, called, away])]
    refine (and_iff_left_of_imp fun sole q same _ => ?_).symm
    cases here.symm.trans same
    obtain ⟨w, writer, stored⟩ := kept.held.mp held
    refine ⟨sole.not_between writer stored, fun failed => ?_, fun _ => held⟩
    cases answered.symm.trans failed
  | enters called unseen inside =>
    simp only [outside called, inside.2.1, toNat_false, toNat_true] at counted
    constructor
    · intro sole
      -- the call that enters is the one that may, so nobody was there before it
      have nobody : s.running.countP Running.entered = 0 := by
        have := sole.one
        omega
      have none_ := countP_eq_zero.mp nobody
      have absent : s.db.holds tenantID id = false := by
        rw [eq_false_iff]
        intro held
        obtain ⟨w, writer, stored⟩ := kept.held.mp held
        exact none_ w writer (Running.entered_of_stored stored).1
      have writes : r'.call.writeFails = false :=
        sole.writes r' (running ▸ mem_set_here r' here) inside.2.1
      refine ⟨⟨by omega, fun q other entered => absurd entered (none_ q other)⟩, fun q same _ => ?_⟩
      cases here.symm.trans same
      refine ⟨fun q other => ?_, fun _ => absent, fun fails => ?_⟩
      · exact eq_false_iff.mpr fun inside => none_ q other (Running.entered_of_between inside)
      · rw [call] at writes
        cases writes.symm.trans fails
    · rintro ⟨sole, exclusive⟩
      obtain ⟨empty, lookup, write⟩ := exclusive r here called
      have absent : s.db.holds tenantID id = false := unseen.elim lookup fun absent => absent
      have nobody := sole.not_entered kept absent empty
      have writes : r.call.writeFails = false :=
        eq_false_iff.mpr fun fails => false_ne_true (absent.symm.trans (write fails))
      refine ⟨by omega, ?_⟩
      rw [running]
      exact forall_mem_set sole.writes fun _ => call ▸ writes
  | stays entered _ _ | writes entered _ _ _ =>
    rw [unchanged (entered.2.trans entered.1.symm)]
    refine (and_iff_left fun q same called => ?_).symm
    cases here.symm.trans same
    cases (outside called).symm.trans entered.1

theorem Calls.Sole.start (db : InboundDB) (calls : List Call) : (Calls.start db calls).Sole := by
  have nobody : ∀ r ∈ (Calls.start db calls).running, r.entered = false := by
    intro r mem
    obtain ⟨c, _, rfl⟩ := mem_map.mp mem
    rfl
  refine ⟨?_, fun r mem entered => ?_⟩
  · rw [countP_eq_zero.mpr fun r mem => by simp [nobody r mem]]
    exact Nat.zero_le 1
  · cases (nobody r mem).symm.trans entered

end

def Calls.Complete (s : Calls) : Prop := ∀ r ∈ s.running, r.phase.result ≠ none

/-- One call recorded the bounces and fired the webhook, and every other returned from its lookup.
-/
def Calls.OneActs (u : Usecase) (s : Calls) : Prop :=
  ∃ (i : Nat) (r : Running), s.running[i]? = some r ∧ r.phase = .returned true ∧
    r.done = recordBounce u r.call ++ r.call.rest u ∧ announcement u r.call <:+ r.done ∧
    ∀ (j : Nat) (q : Running), j ≠ i → s.running[j]? = some q → q.phase = .skipped ∧ q.done = []

section
variable {u : Usecase} {tenantID id : String} {s : Calls}

theorem Calls.skipped_of_not_entered {r : Running} (due : r.Due u) (returned : r.phase.result ≠ none)
    (outside : r.entered = false) : r.phase = .skipped ∧ r.done = [] := by
  obtain ⟨call, phase, done⟩ := r
  cases phase with
  | skipped => exact ⟨rfl, due⟩
  | called => exact absurd rfl returned
  | recording todo | screening | writing after | written after | returned ok => cases outside

theorem Calls.oneActs_iff (kept : s.Kept u tenantID id) (complete : s.Complete)
    (some_ : s.running ≠ []) : s.OneActs u ↔ s.Sole := by
  constructor
  · rintro ⟨i, r, here, returned, _, _, others⟩
    have away (j : Nat) (q : Running) (entry : s.running[j]? = some q) (entered : q.entered = true) :
        j = i := by
      by_contra other
      have skipped := (others j q other entry).1
      simp [Running.entered, skipped] at entered
    refine ⟨countP_le_one_iff.mpr fun j k p q first second left right =>
      (away j p first left).trans (away k q second right).symm, fun q mem entered => ?_⟩
    obtain ⟨j, entry⟩ := getElem?_of_mem mem
    cases away j q entry entered
    cases here.symm.trans entry
    have due := kept.due r mem
    rw [Running.Due, returned] at due
    exact due.1
  · intro sole
    -- some call entered: one that was skipped found what another wrote
    have entered : ∃ r ∈ s.running, r.entered = true := by
      obtain ⟨r, rest, shape⟩ := exists_cons_of_ne_nil some_
      have mem : r ∈ s.running := shape ▸ mem_cons_self
      cases inside : r.entered with
      | true => exact ⟨r, mem, inside⟩
      | false =>
        have skipped := skipped_of_not_entered (kept.due r mem) (complete r mem) inside
        obtain ⟨w, writer, stored⟩ := kept.held.mp (kept.seen r mem skipped.1)
        exact ⟨w, writer, (Running.entered_of_stored stored).1⟩
    obtain ⟨r, mem, inside⟩ := entered
    obtain ⟨i, here⟩ := getElem?_of_mem mem
    have due := kept.due r mem
    have writes := sole.writes r mem inside
    have returned : r.phase = .returned true := by
      have result := complete r mem
      obtain ⟨call, phase, done⟩ := r
      cases phase with
      | called | skipped => cases inside
      | recording todo | screening | writing after | written after => exact absurd rfl result
      | returned ok =>
        cases ok with
        | true => rfl
        | false => cases writes.symm.trans due.1
    rw [Running.Due, returned] at due
    have done := due.2 rfl
    refine ⟨i, r, here, returned, done, ?_, fun j q other entry => ?_⟩
    · obtain ⟨noted, _, rest⟩ := Running.screen_unstopped (u := u) []
        (kept.passes r mem).unstopped
      rw [done, ← rest]
      exact ⟨recordBounce u r.call ++ noted, by simp⟩
    · have second := mem_of_getElem? entry
      refine skipped_of_not_entered (kept.due q second) (complete q second) ?_
      refine eq_false_iff.mpr fun also => other ?_
      exact countP_le_one_iff.mp sole.one j i q r entry here also inside

end

/-- However calls with a new message interleave, one acts and the others do nothing exactly when no
call looks the message up while another has looked and not written, no lookup fails to find a stored
message, and no write fails. -/
theorem one_acts_iff (u : Usecase) (db : InboundDB) (tenantID id : String) (named : id ≠ "")
    (absent : db.holds tenantID id = false) {calls : List Call} (some_ : calls ≠ [])
    (passes : ∀ c ∈ calls, c.Passes tenantID id) {as : List Nat} {t : Calls}
    (reached : exec (Calls.step u) (Calls.start db calls) as = some t) (complete : t.Complete) :
    t.OneActs u ↔
      AllSteps (Calls.step u) (Calls.Exclusive tenantID id) (Calls.start db calls) as := by
  have initial : (Calls.start db calls).Kept u tenantID id := Calls.Kept.start passes absent
  have kept := invariant (Calls.step u) (Calls.Kept u tenantID id)
    (fun s i t before taken => before.step named taken) _ t as initial reached
  have length : t.running.length = calls.length := by
    refine invariant (Calls.step u) (fun s => s.running.length = calls.length) ?_ _ t as
      (by simp [Calls.start]) reached
    intro s i t before taken
    obtain ⟨r, db, r', _, _, rfl⟩ := Calls.step_cases taken
    simpa using before
  have nonempty : t.running ≠ [] := by
    intro empty
    rw [empty, length_nil] at length
    exact some_ (length_eq_zero_iff.mp length.symm)
  rw [Calls.oneActs_iff kept complete nonempty]
  have exact_ := holds_iff_along (Calls.step u) (Calls.Exclusive tenantID id)
    (Calls.Kept u tenantID id) Calls.Sole (fun s i t before taken => before.step named taken)
    (fun s i t before taken => Calls.sole_step named before taken) _ t as initial reached
  rw [exact_, and_iff_right (Calls.Sole.start db calls)]

theorem reportCall_passes (n : Nat) :
    ∀ c ∈ List.replicate n (reportCall none), c.Passes "tenant" "id" := by
  intro c mem
  rw [eq_of_mem_replicate mem]
  exact ⟨⟨rfl, rfl⟩, rfl⟩

/-- Two calls, the second after the first has written. -/
theorem one_acts_in_turn : ∃ t : Calls, exec (Calls.step exampleUsecase)
      (Calls.start .empty (List.replicate 2 (reportCall none))) (List.replicate 6 0 ++ [1]) = some t ∧
    t.OneActs exampleUsecase := by
  have runs : (∃ t ∈ exec (Calls.step exampleUsecase)
      (Calls.start .empty (List.replicate 2 (reportCall none))) (List.replicate 6 0 ++ [1]),
        ∀ r ∈ t.running, r.phase.result ≠ none) ∧
      AllSteps (Calls.step exampleUsecase) (Calls.Exclusive "tenant" "id")
        (Calls.start .empty (List.replicate 2 (reportCall none))) (List.replicate 6 0 ++ [1]) := by
    decide +kernel
  obtain ⟨⟨t, reached, returned⟩, along⟩ := runs
  exact ⟨t, reached, (one_acts_iff exampleUsecase .empty "tenant" "id" (by decide) (by decide)
    (by decide) (reportCall_passes 2) reached returned).mpr along⟩

/-- Both look the message up before one of them writes: the bounce is recorded and the webhook fires
twice. -/
theorem both_act : ∃ (t : Calls) (as : List Nat),
    (∀ c ∈ List.replicate 2 (reportCall none), c.Passes "tenant" "id" ∧ c.Answered) ∧
    exec (Calls.step exampleUsecase) (Calls.start .empty (List.replicate 2 (reportCall none))) as =
      some t ∧ t.Complete ∧
    t.running.map (fun r => (r.done.countP Effect.isBounce, r.done.countP Effect.isWebhook)) =
      [(1, 1), (1, 1)] ∧ ¬ t.OneActs exampleUsecase := by
  have runs : ∃ t ∈ exec (Calls.step exampleUsecase)
      (Calls.start .empty (List.replicate 2 (reportCall none)))
      ([0, 1] ++ List.replicate 5 0 ++ List.replicate 5 1),
        (∀ r ∈ t.running, r.phase = .returned true) ∧
        t.running.map (fun r => (r.done.countP Effect.isBounce, r.done.countP Effect.isWebhook)) =
          [(1, 1), (1, 1)] := by decide +kernel
  obtain ⟨t, reached, returned, counted⟩ := runs
  refine ⟨t, _, fun c member => ⟨reportCall_passes 2 c member, ?_⟩, reached, fun r member => ?_,
    counted, ?_⟩
  · exact (reportCall_carries none 2 c member).2
  · rw [returned r member]
    exact Option.some_ne_none _
  · rintro ⟨i, r, here, _, _, _, others⟩
    have two : t.running.length = 2 := by
      rw [← length_map, counted]
      rfl
    -- whichever of the two acts, the other was not skipped
    obtain ⟨j, away, bound⟩ : ∃ j, j ≠ i ∧ j < t.running.length := by
      by_cases first : i = 0
      · exact ⟨1, by omega, by omega⟩
      · exact ⟨0, by omega, by omega⟩
    have skipped := (others j t.running[j] away (getElem?_eq_getElem bound)).1
    rw [returned _ (getElem_mem bound)] at skipped
    cases skipped

end Panmail.Inbound
