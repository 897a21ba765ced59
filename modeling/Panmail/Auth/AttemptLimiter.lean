import Mathlib.Data.List.Nodup
import Mathlib.Logic.Function.Basic
import Panmail.Lib.Run

/-!
# The sign-in attempt limiter

`attemptLimiter` counts failed attempts per subject and locks a subject out once its budget is used.
An admitted attempt holds one unit of the budget until it is settled. Expired records are swept out,
and a full table evicts a record to make room.

An attempt keeps a pointer to its record, which may leave the table while the attempt runs. So the
records are a heap by pointer, and the table is the list of the pointers it holds.
-/
namespace Panmail.Auth

open List Option

def sweepInterval : Nat := 60000000000

/-- How many of the least recently used records are looked at for one to drop. -/
def evictionProbe : Nat := 64

def maxTrackedSubjects : Nat := 10000

/-- What a limiter is made with. Both limiters of the service are made with five attempts. -/
structure Limits where
  max : Nat
  blockFor : Nat
  capacity : Nat
  max_pos : 0 < max

/-- Five attempts, fifteen minutes. -/
def loginLimits : Limits := ⟨5, 900000000000, maxTrackedSubjects, by decide⟩

structure AttemptRecord where
  subject : String
  failures : Nat
  inFlight : Nat
  lastTry : Nat
  /-- `none` is the zero time. -/
  blockedUntil : Option Nat
  deriving DecidableEq

def AttemptRecord.blocked (r : AttemptRecord) (now : Nat) : Bool :=
  r.blockedUntil.any fun until_ => now < until_

def AttemptRecord.idle (r : AttemptRecord) (now : Nat) : Bool :=
  !r.blocked now && r.inFlight = 0

def AttemptRecord.stale (c : Limits) (r : AttemptRecord) (now : Nat) : Bool :=
  r.lastTry + c.blockFor < now

/-- A block that has run out is lifted. -/
def AttemptRecord.unblock (now : Nat) (r : AttemptRecord) : AttemptRecord :=
  if r.blockedUntil.isSome && !r.blocked now then { r with failures := 0, blockedUntil := none }
  else r

/-- Failures older than one block period are forgotten. -/
def AttemptRecord.forget (c : Limits) (now : Nat) (r : AttemptRecord) : AttemptRecord :=
  if 0 < r.failures && r.blockedUntil.isNone && r.stale c now then { r with failures := 0 } else r

/-- `expireLocked`. -/
def AttemptRecord.expire (c : Limits) (now : Nat) (r : AttemptRecord) : AttemptRecord :=
  (r.unblock now).forget c now

/-- `n` more failures, and the lockout once they use up the budget. -/
def AttemptRecord.fail (c : Limits) (n : Nat) (now : Nat) (r : AttemptRecord) : AttemptRecord :=
  let r := { r with failures := r.failures + n }
  if c.max ≤ r.failures then { r with blockedUntil := some (now + c.blockFor) } else r

inductive Outcome where
  | running | succeeded | failed | abandoned
  deriving DecidableEq

/-- An admitted attempt. It is settled when it runs no longer. -/
structure Attempt where
  record : Nat
  outcome : Outcome
  /-- History: for whom and when it was admitted. -/
  subject : String
  admittedAt : Nat
  deriving DecidableEq

def Attempt.running (a : Attempt) : Bool := a.outcome = .running

structure AttemptLimiter where
  heap : Nat → AttemptRecord
  /-- How many records have been made: the pointers below it are taken. -/
  made : Nat
  /-- The records the table holds, the least recently used first; the map by subject is read off it.
  -/
  recency : List Nat
  lastSweep : Option Nat
  attempts : List Attempt
  /-- History: the clock when it was last read. -/
  clock : Nat

open AttemptRecord Attempt

variable {l : AttemptLimiter} {now p : Nat} {subject : String}

namespace AttemptLimiter

def init : AttemptLimiter := ⟨fun _ => ⟨"", 0, 0, 0, none⟩, 0, [], none, [], 0⟩

/-! ### The table -/

/-- `l.records[subject]`. -/
def lookup (l : AttemptLimiter) (subject : String) : Option Nat :=
  l.recency.find? fun p => (l.heap p).subject = subject

def tick (l : AttemptLimiter) (now : Nat) : AttemptLimiter := { l with clock := now }

def update (l : AttemptLimiter) (p : Nat) (f : AttemptRecord → AttemptRecord) : AttemptLimiter :=
  { l with heap := Function.update l.heap p (f (l.heap p)) }

def remove (l : AttemptLimiter) (p : Nat) : AttemptLimiter :=
  { l with recency := l.recency.erase p }

def pushBack (l : AttemptLimiter) (p : Nat) : AttemptLimiter :=
  { l with recency := l.recency ++ [p] }

/-- What a sweep drops: a record that can no longer block anyone. -/
def swept (c : Limits) (now : Nat) (r : AttemptRecord) : Bool :=
  r.inFlight = 0 && !r.blocked now && r.stale c now

/-- `maybeSweepLocked`. -/
def maybeSweep (c : Limits) (l : AttemptLimiter) (now : Nat) : AttemptLimiter :=
  if l.lastSweep.any fun last => now < last + sweepInterval then l
  else { l with
    lastSweep := some now
    recency := l.recency.filter fun p => !swept c now (l.heap p) }

/-- The record `makeRoomLocked` drops: the first idle one it looks at, or the one at the front. -/
def victim (l : AttemptLimiter) (now : Nat) : Option Nat :=
  ((l.recency.take evictionProbe).find? fun p => (l.heap p).idle now) <|> l.recency.head?

/-- `makeRoomLocked`. -/
def makeRoom (c : Limits) (l : AttemptLimiter) (now : Nat) : AttemptLimiter :=
  if l.recency.length < c.capacity then l
  else match l.victim now with
    | some p => l.remove p
    | none => l

/-- The record `insertLocked` makes. -/
def insert (l : AttemptLimiter) (subject : String) : AttemptLimiter :=
  { l with
    heap := Function.update l.heap l.made ⟨subject, 0, 0, 0, none⟩
    made := l.made + 1
    recency := l.recency ++ [l.made] }

/-- The admission at the end of `Begin`. -/
def reserve (l : AttemptLimiter) (p : Nat) (now : Nat) : AttemptLimiter :=
  { l.update p fun r => { r with inFlight := r.inFlight + 1, lastTry := now } with
    recency := l.recency.erase p ++ [p]
    attempts := l.attempts ++ [⟨p, .running, (l.heap p).subject, now⟩] }

/-! ### The calls -/

inductive Answer where
  | granted
  | refused (retryIn : Nat)

/-- `rec.blockedUntil.Sub(now)`. -/
def retryIn (r : AttemptRecord) (now : Nat) : Nat := r.blockedUntil.elim 0 (· - now)

/-- `Begin` after its sweep. Making room reads the clock once more. -/
def enter (c : Limits) (l : AttemptLimiter) (subject : String) (now later : Nat) :
    AttemptLimiter × Answer :=
  match l.lookup subject with
  | some p =>
    let l := l.update p (AttemptRecord.expire c now)
    if (l.heap p).blocked now then (l, .refused (retryIn (l.heap p) now))
    else if c.max ≤ (l.heap p).failures + (l.heap p).inFlight then (l, .refused 0)
    else (l.reserve p now, .granted)
  | none =>
    let l := l.makeRoom c later
    ((l.insert subject).reserve l.made now, .granted)

def begin_ (c : Limits) (l : AttemptLimiter) (subject : String) (now later : Nat) :
    AttemptLimiter × Answer :=
  (l.maybeSweep c now).enter c subject now later

/-- The head of `settle`: attempt `i`, which ran, holds its unit no longer. -/
def settle (l : AttemptLimiter) (i : Nat) (a : Attempt) (outcome : Outcome) : AttemptLimiter :=
  { l.update a.record fun r => { r with inFlight := r.inFlight - 1 } with
    attempts := l.attempts.set i { a with outcome := outcome } }

/-- `Failed` on the record it settles. One evicted meanwhile adds its failures to its successor, or
is put back. -/
def countFailure (c : Limits) (l : AttemptLimiter) (p : Nat) (now later : Nat) : AttemptLimiter :=
  let l := l.update p (AttemptRecord.fail c 1 now)
  match l.lookup (l.heap p).subject with
  | some q => if q = p then l else l.update q (AttemptRecord.fail c (l.heap p).failures later)
  | none => (l.makeRoom c later).pushBack p

inductive Label where
  /-- `now` is the first reading of the clock in the call and `later` the second. -/
  | begin_ (subject : String) (now later : Nat)
  | succeeded (i : Nat)
  | failed (i : Nat) (now later : Nat)
  | abandon (i : Nat)

/-- One call, under the limiter's lock. A second settling of an attempt does nothing. -/
def step (c : Limits) (l : AttemptLimiter) : Label → Option AttemptLimiter
  | .begin_ subject now later =>
    if l.clock ≤ now ∧ now ≤ later then
      some (((l.tick now).begin_ c subject now later).1.tick later)
    else none
  | .succeeded i => (l.attempts[i]?).map fun a =>
    if a.running then (l.settle i a .succeeded).remove a.record else l
  | .failed i now later =>
    if l.clock ≤ now ∧ now ≤ later then (l.attempts[i]?).map fun a =>
      if a.running then
        (((l.tick now).settle i a .failed).countFailure c a.record now later).tick later
      else l
    else none
  | .abandon i => (l.attempts[i]?).map fun a => if a.running then l.settle i a .abandoned else l

variable {c : Limits}

theorem step_cases {l' : AttemptLimiter} {label : Label} (taken : step c l label = some l') :
    (∃ subject now later, label = .begin_ subject now later ∧ l.clock ≤ now ∧ now ≤ later ∧
      l' = ((l.tick now).begin_ c subject now later).1.tick later) ∨
    (∃ i a, label = .succeeded i ∧ l.attempts[i]? = some a ∧ a.running ∧
      l' = (l.settle i a .succeeded).remove a.record) ∨
    (∃ i a now later, label = .failed i now later ∧ l.attempts[i]? = some a ∧ a.running ∧
      l.clock ≤ now ∧ now ≤ later ∧
      l' = (((l.tick now).settle i a .failed).countFailure c a.record now later).tick later) ∨
    (∃ i a, label = .abandon i ∧ l.attempts[i]? = some a ∧ a.running ∧
      l' = l.settle i a .abandoned) ∨ l' = l := by
  cases label with
  | begin_ subject now later =>
    rw [step, ite_none_right_eq_some] at taken
    exact .inl ⟨subject, now, later, rfl, taken.1.1, taken.1.2, (some.inj taken.2).symm⟩
  | succeeded i =>
    obtain ⟨a, found, rfl⟩ := map_eq_some_iff.mp taken
    split
    next runs => exact .inr (.inl ⟨i, a, rfl, found, runs, rfl⟩)
    next => exact .inr (.inr (.inr (.inr rfl)))
  | failed i now later =>
    rw [step, ite_none_right_eq_some] at taken
    obtain ⟨a, found, rfl⟩ := map_eq_some_iff.mp taken.2
    split
    next runs =>
      exact .inr (.inr (.inl ⟨i, a, now, later, rfl, found, runs, taken.1.1, taken.1.2, rfl⟩))
    next => exact .inr (.inr (.inr (.inr rfl)))
  | abandon i =>
    obtain ⟨a, found, rfl⟩ := map_eq_some_iff.mp taken
    split
    next runs => exact .inr (.inr (.inr (.inl ⟨i, a, rfl, found, runs, rfl⟩)))
    next => exact .inr (.inr (.inr (.inr rfl)))

theorem enter_cases (c : Limits) (l : AttemptLimiter) (subject : String) (now later : Nat) :
    (∃ p, l.lookup subject = some p ∧
      (l.enter c subject now later).1 = l.update p (expire c now)) ∨
    (∃ p, l.lookup subject = some p ∧ ((l.heap p).expire c now).blocked now = false ∧
      ((l.heap p).expire c now).failures + ((l.heap p).expire c now).inFlight < c.max ∧
      (l.enter c subject now later).1 = (l.update p (expire c now)).reserve p now) ∨
    (l.lookup subject = none ∧ (l.enter c subject now later).1 =
        ((l.makeRoom c later).insert subject).reserve (l.makeRoom c later).made now) := by
  unfold enter
  split
  next p found =>
    have here : (l.update p (expire c now)).heap p = (l.heap p).expire c now :=
      Function.update_self ..
    simp only [here]
    split
    next => exact .inl ⟨p, found, rfl⟩
    next free =>
      split
      next => exact .inl ⟨p, found, rfl⟩
      next room => exact .inr (.inl ⟨p, found, by simpa using free, by omega, rfl⟩)
  next absent => exact .inr (.inr ⟨absent, rfl⟩)

theorem countFailure_cases (c : Limits) (l : AttemptLimiter) (p : Nat) (now later : Nat) :
    let counted := l.update p (fail c 1 now)
    counted.lookup (l.heap p).subject = some p ∧ l.countFailure c p now later = counted ∨
    (∃ q, q ≠ p ∧ counted.lookup (l.heap p).subject = some q ∧
      l.countFailure c p now later =
        counted.update q (fail c (counted.heap p).failures later)) ∨
    counted.lookup (l.heap p).subject = none ∧
      l.countFailure c p now later = (counted.makeRoom c later).pushBack p := by
  intro counted
  have subject : (counted.heap p).subject = (l.heap p).subject := by
    rw [show counted.heap p = (l.heap p).fail c 1 now from Function.update_self ..]
    simp only [fail]
    split <;> rfl
  have whole : l.countFailure c p now later = match counted.lookup (l.heap p).subject with
      | some q =>
        if q = p then counted
        else counted.update q (fail c (counted.heap p).failures later)
      | none => (counted.makeRoom c later).pushBack p := by
    rw [← subject]
    rfl
  rw [whole]
  split
  next q found =>
    split
    next here => exact .inl ⟨here ▸ found, rfl⟩
    next away => exact .inr (.inl ⟨q, away, found, rfl⟩)
  next absent => exact .inr (.inr ⟨absent, rfl⟩)

/-! ### The shape of the table -/

theorem update_heap (l : AttemptLimiter) (p : Nat) (f : AttemptRecord → AttemptRecord) (q : Nat) :
    (l.update p f).heap q = if q = p then f (l.heap p) else l.heap q :=
  Function.update_apply ..

theorem reserve_heap (l : AttemptLimiter) (p : Nat) (now : Nat) (q : Nat) :
    (l.reserve p now).heap q =
      if q = p then { l.heap p with inFlight := (l.heap p).inFlight + 1, lastTry := now }
      else l.heap q :=
  Function.update_apply ..

theorem settle_heap (l : AttemptLimiter) (i : Nat) (a : Attempt) (outcome : Outcome) (q : Nat) :
    (l.settle i a outcome).heap q = if q = a.record then
        { l.heap a.record with inFlight := (l.heap a.record).inFlight - 1 }
      else l.heap q :=
  Function.update_apply ..

section
variable (l : AttemptLimiter) (p i : Nat) (f : AttemptRecord → AttemptRecord) (now : Nat)
  (a : Attempt) (outcome : Outcome)

@[simp] theorem update_recency : (l.update p f).recency = l.recency := rfl
@[simp] theorem update_attempts : (l.update p f).attempts = l.attempts := rfl
@[simp] theorem update_made : (l.update p f).made = l.made := rfl
@[simp] theorem update_clock : (l.update p f).clock = l.clock := rfl
@[simp] theorem reserve_recency : (l.reserve p now).recency = l.recency.erase p ++ [p] := rfl
@[simp] theorem reserve_attempts : (l.reserve p now).attempts =
    l.attempts ++ [⟨p, .running, (l.heap p).subject, now⟩] := rfl
@[simp] theorem reserve_clock : (l.reserve p now).clock = l.clock := rfl
@[simp] theorem settle_recency : (l.settle i a outcome).recency = l.recency := rfl
@[simp] theorem settle_attempts : (l.settle i a outcome).attempts =
    l.attempts.set i { a with outcome := outcome } := rfl

end

theorem makeRoom_eq (c : Limits) (l : AttemptLimiter) (now : Nat) :
    ∃ kept : List Nat, kept.Sublist l.recency ∧ l.makeRoom c now = { l with recency := kept } := by
  unfold makeRoom
  split
  · exact ⟨l.recency, List.Sublist.refl _, rfl⟩
  · split
    · exact ⟨_, erase_sublist, rfl⟩
    · exact ⟨l.recency, List.Sublist.refl _, rfl⟩

theorem maybeSweep_eq (c : Limits) (l : AttemptLimiter) (now : Nat) :
    ∃ (kept : List Nat) (lastSweep : Option Nat), kept.Sublist l.recency ∧
      l.maybeSweep c now = { l with recency := kept, lastSweep := lastSweep } := by
  unfold maybeSweep
  split
  · exact ⟨l.recency, l.lastSweep, List.Sublist.refl _, rfl⟩
  · exact ⟨_, some now, filter_sublist, rfl⟩

theorem makeRoom_of_room (room : l.recency.length < c.capacity) : l.makeRoom c now = l :=
  if_pos room

section
variable (c : Limits) (l : AttemptLimiter)

theorem maybeSweep_clock (now : Nat) : (l.maybeSweep c now).clock = l.clock := by
  obtain ⟨_, _, _, after⟩ := maybeSweep_eq c l now
  rw [after]

theorem makeRoom_clock (now : Nat) : (l.makeRoom c now).clock = l.clock := by
  obtain ⟨_, _, after⟩ := makeRoom_eq c l now
  rw [after]

theorem enter_clock (subject : String) (now later : Nat) :
    (l.enter c subject now later).1.clock = l.clock := by
  rcases enter_cases c l subject now later with
    ⟨_, _, after⟩ | ⟨_, _, _, _, after⟩ | ⟨_, after⟩
  · rw [after, update_clock]
  · rw [after, reserve_clock, update_clock]
  · rw [after]
    exact makeRoom_clock c l later

theorem countFailure_clock (p : Nat) (now later : Nat) :
    (l.countFailure c p now later).clock = l.clock := by
  rcases countFailure_cases c l p now later with
    ⟨_, after⟩ | ⟨_, _, _, after⟩ | ⟨_, after⟩
  · rw [after, update_clock]
  · rw [after, update_clock, update_clock]
  · rw [after]
    exact makeRoom_clock c _ later

end

/-- A change of records that keeps what they are about and what they hold. -/
def Keeps (f : AttemptRecord → AttemptRecord) : Prop :=
  ∀ r, (f r).subject = r.subject ∧ (f r).inFlight = r.inFlight

theorem expire_keeps (c : Limits) (now : Nat) : Keeps (expire c now) := by
  intro r
  unfold expire forget unblock
  split <;> split <;> exact ⟨rfl, rfl⟩

theorem fail_keeps (c : Limits) (n : Nat) (now : Nat) : Keeps (fail c n now) := by
  intro r
  simp only [fail]
  split <;> exact ⟨rfl, rfl⟩

def holds (p : Nat) (a : Attempt) : Bool := a.running && a.record = p

structure Consistent (l : AttemptLimiter) : Prop where
  unique : (l.recency.map fun p => (l.heap p).subject).Nodup
  taken : ∀ p ∈ l.recency, p < l.made
  named : ∀ a ∈ l.attempts, a.record < l.made ∧ (l.heap a.record).subject = a.subject
  inFlight : ∀ p, (l.heap p).inFlight = l.attempts.countP (holds p)
  past : ∀ a ∈ l.attempts, a.admittedAt ≤ l.clock

theorem lookup_some (found : l.lookup subject = some p) :
    p ∈ l.recency ∧ (l.heap p).subject = subject :=
  ⟨mem_of_find?_eq_some found, by simpa using find?_some found⟩

theorem lookup_none (absent : l.lookup subject = none) :
    ∀ p ∈ l.recency, (l.heap p).subject ≠ subject := by
  intro p mem
  simpa using find?_eq_none.mp absent p mem

theorem lookup_of_sublist {kept : List Nat} (absent : l.lookup subject = none)
    (sub : kept.Sublist l.recency) : lookup { l with recency := kept } subject = none :=
  find?_eq_none.mpr fun p mem => find?_eq_none.mp absent p (sub.subset mem)

namespace Consistent

theorem init_ : Consistent init where
  unique := nodup_nil
  taken _ mem := nomatch mem
  named _ mem := nomatch mem
  inFlight _ := rfl
  past _ mem := nomatch mem

section
section
variable (ok : l.Consistent)
include ok

theorem same {q : Nat} (first : p ∈ l.recency) (second : q ∈ l.recency)
    (subject : (l.heap p).subject = (l.heap q).subject) : p = q :=
  inj_on_of_nodup_map ok.unique first second subject

theorem nodup : l.recency.Nodup := ok.unique.of_map

theorem lookup_of_mem (mem : p ∈ l.recency) : l.lookup (l.heap p).subject = some p := by
  cases found : l.lookup (l.heap p).subject with
  | none => exact absurd rfl (lookup_none found p mem)
  | some =>
    have there := lookup_some found
    rw [ok.same there.1 mem there.2]

theorem tick (later : l.clock ≤ now) : (l.tick now).Consistent where
  unique := ok.unique
  taken := ok.taken
  named := ok.named
  inFlight := ok.inFlight
  past a mem := Nat.le_trans (ok.past a mem) later

theorem shrink {recency : List Nat} (kept : recency.Sublist l.recency) (lastSweep : Option Nat) :
    Consistent { l with recency := recency, lastSweep := lastSweep } where
  unique := ok.unique.sublist (kept.map _)
  taken p mem := ok.taken p (kept.subset mem)
  named := ok.named
  inFlight := ok.inFlight
  past := ok.past

theorem remove (p : Nat) : (l.remove p).Consistent :=
  ok.shrink erase_sublist l.lastSweep

theorem maybeSweep (now : Nat) : (l.maybeSweep c now).Consistent := by
  obtain ⟨kept, lastSweep, sub, after⟩ := maybeSweep_eq c l now
  rw [after]
  exact ok.shrink sub lastSweep

theorem makeRoom (now : Nat) : (l.makeRoom c now).Consistent := by
  obtain ⟨kept, sub, made⟩ := makeRoom_eq c l now
  rw [made]
  exact ok.shrink sub l.lastSweep

theorem update (p : Nat) {f : AttemptRecord → AttemptRecord} (keeps : Keeps f) :
    (l.update p f).Consistent := by
  have kept : ∀ q, ((l.update p f).heap q).subject = (l.heap q).subject ∧
      ((l.update p f).heap q).inFlight = (l.heap q).inFlight := by
    intro q
    rw [update_heap]
    split
    next here => exact here ▸ keeps (l.heap p)
    next => exact ⟨rfl, rfl⟩
  constructor
  case unique => simpa [kept] using ok.unique
  case taken => exact ok.taken
  case named => simpa [kept] using ok.named
  case inFlight => simpa [kept] using ok.inFlight
  case past => exact ok.past

theorem pushBack (made : p < l.made) (absent : l.lookup (l.heap p).subject = none) :
    (l.pushBack p).Consistent where
  unique := Runs.nodup_push ok.unique (lookup_none absent)
  taken := Runs.forall_mem_concat ok.taken made
  named := ok.named
  inFlight := ok.inFlight
  past := ok.past

theorem insert (absent : l.lookup subject = none) : (l.insert subject).Consistent := by
  have old : ∀ q < l.made, (l.insert subject).heap q = l.heap q := by
    intro q bound
    exact Function.update_of_ne (Nat.ne_of_lt bound) ..
  have new : (l.insert subject).heap l.made = ⟨subject, 0, 0, 0, none⟩ :=
    Function.update_self ..
  have oldest : (l.recency.map fun p => ((l.insert subject).heap p).subject) =
      l.recency.map fun p => (l.heap p).subject :=
    map_congr_left fun p mem => by rw [old p (ok.taken p mem)]
  constructor
  case unique =>
    refine Runs.nodup_push (oldest ▸ ok.unique) fun q mem => ?_
    rw [old q (ok.taken q mem), new]
    exact lookup_none absent q mem
  case taken =>
    intro q mem
    rcases mem_append.mp mem with old | fresh
    · exact Nat.lt_succ_of_lt (ok.taken q old)
    · exact mem_singleton.mp fresh ▸ Nat.lt_succ_self l.made
  case named =>
    intro a mem
    have known := ok.named a mem
    exact ⟨Nat.lt_succ_of_lt known.1, (old _ known.1).symm ▸ known.2⟩
  case inFlight =>
    intro q
    by_cases here : q = l.made
    · -- no attempt holds a pointer that was not made before
      subst here
      rw [new]
      refine (countP_eq_zero.mpr fun a mem => ?_).symm
      have known := (ok.named a mem).1
      simp [holds, Nat.ne_of_lt known]
    · exact (congrArg AttemptRecord.inFlight (Function.update_of_ne here ..)).trans (ok.inFlight q)
  case past => exact ok.past

theorem reserve (mem : p ∈ l.recency) (ticked : l.clock = now) : (l.reserve p now).Consistent := by
  have kept : ∀ q, ((l.reserve p now).heap q).subject = (l.heap q).subject := by
    intro q
    rw [reserve_heap]
    split
    next here => rw [here]
    next => rfl
  have moved : (l.recency.erase p ++ [p]).Perm l.recency :=
    (perm_append_singleton ..).trans (perm_cons_erase mem).symm
  constructor
  case unique => simpa [kept] using (moved.map fun p => (l.heap p).subject).nodup_iff.mpr ok.unique
  case taken => exact fun q there => ok.taken q (moved.subset there)
  case named =>
    exact Runs.forall_mem_concat (fun a there => (kept _).symm ▸ ok.named a there)
      ⟨ok.taken p mem, kept p⟩
  case inFlight =>
    intro q
    rw [reserve_heap, reserve_attempts, countP_append, ← ok.inFlight q]
    by_cases here : q = p
    · simp [here, holds, running]
    · simp [here, holds, running, Ne.symm here]
  case past => exact Runs.forall_mem_concat ok.past (Nat.le_of_eq ticked.symm)

theorem settle {i : Nat} {a : Attempt} (found : l.attempts[i]? = some a) (runs : a.running)
    {outcome : Outcome} (ended : outcome ≠ .running) : (l.settle i a outcome).Consistent := by
  have kept : ∀ q, ((l.settle i a outcome).heap q).subject = (l.heap q).subject := by
    intro q
    rw [settle_heap]
    split
    next here => rw [here]
    next => rfl
  have mem : a ∈ l.attempts := mem_of_getElem? found
  constructor
  case unique => simpa [kept] using ok.unique
  case taken => exact ok.taken
  case named =>
    refine Runs.forall_mem_set (fun b there => ?_) ?_
    · exact (kept _).symm ▸ ok.named b there
    · exact (kept _).symm ▸ ok.named a mem
  case inFlight =>
    intro q
    obtain ⟨bound, entry⟩ := List.getElem?_eq_some_iff.mp found
    rw [settle_heap, settle_attempts, countP_set bound, entry, ← ok.inFlight q]
    have was : a.outcome = .running := by simpa [running] using runs
    by_cases here : q = a.record
    · simp [here, holds, running, was, ended]
    · simp [here, holds, running, Ne.symm here]
  case past => exact Runs.forall_mem_set ok.past (ok.past a mem)

theorem enter (subject : String) (ticked : l.clock = now) (later : Nat) :
    (l.enter c subject now later).1.Consistent := by
  rcases enter_cases c l subject now later with
    ⟨p, found, after⟩ | ⟨p, found, _, _, after⟩ | ⟨absent, after⟩
  · rw [after]
    exact ok.update p (expire_keeps c now)
  · rw [after]
    exact (ok.update p (expire_keeps c now)).reserve (lookup_some found).1 ticked
  · obtain ⟨kept, sub, made⟩ := makeRoom_eq c l later
    rw [after, made]
    have alone := lookup_of_sublist absent sub
    refine ((ok.shrink sub l.lastSweep).insert alone).reserve ?_ ticked
    exact mem_append_right _ mem_cons_self

theorem countFailure_tracked (mem : p ∈ l.recency) {later : Nat} :
    l.countFailure c p now later = l.update p (fail c 1 now) := by
  have found : (l.update p (fail c 1 now)).lookup (l.heap p).subject = some p := by
    have there := (ok.update p (fail_keeps c 1 now)).lookup_of_mem mem
    rwa [update_heap, if_pos rfl, (fail_keeps c 1 now _).1] at there
  rcases countFailure_cases c l p now later with
    ⟨_, after⟩ | ⟨q, away, other, _⟩ | ⟨absent, _⟩
  · exact after
  · exact absurd (some.inj (other.symm.trans found)) away
  · cases absent.symm.trans found

theorem countFailure (made : p < l.made) (now later : Nat) :
    (l.countFailure c p now later).Consistent := by
  have counted := ok.update p (fail_keeps c 1 now)
  rcases countFailure_cases c l p now later with
    ⟨_, after⟩ | ⟨q, _, _, after⟩ | ⟨absent, after⟩
  · rw [after]
    exact counted
  · rw [after]
    exact counted.update q (fail_keeps c _ later)
  · obtain ⟨kept, sub, dropped⟩ := makeRoom_eq c (l.update p (fail c 1 now)) later
    rw [after, dropped]
    have subject : ((l.update p (fail c 1 now)).heap p).subject =
        (l.heap p).subject := by
      rw [update_heap, if_pos rfl]
      exact (fail_keeps c 1 now _).1
    refine (counted.shrink sub l.lastSweep).pushBack made ?_
    exact subject.symm ▸ lookup_of_sublist absent sub

theorem step {l' : AttemptLimiter} {label : Label} (taken : step c l label = some l') :
    l'.Consistent := by
  rcases step_cases taken with ⟨subject, now, later, -, since, order, rfl⟩ |
    ⟨i, a, -, found, runs, rfl⟩ | ⟨i, a, now, later, -, found, runs, since, order, rfl⟩ |
    ⟨i, a, -, found, runs, rfl⟩ | rfl
  · have entered := ((ok.tick since).maybeSweep now (c := c)).enter subject (maybeSweep_clock ..)
      later (c := c)
    refine entered.tick ?_
    rw [enter_clock, maybeSweep_clock]
    exact order
  · exact (ok.settle found runs (by decide)).remove a.record
  · have settled := (ok.tick since).settle found runs (by decide : Outcome.failed ≠ .running)
    refine (settled.countFailure (ok.named a (mem_of_getElem? found)).1 now later).tick ?_
    rw [countFailure_clock]
    exact order
  · exact ok.settle found runs (by decide)
  · exact ok

end

end

end Consistent

end AttemptLimiter

end Panmail.Auth
