import Panmail.Auth.Subject

/-!
# Which record a full table drops

Making room is meant to drop an idle record, one that is neither locked out nor mid-attempt, before
any other. It looks at the first `evictionProbe` records of the recency list only. So one lockout
and 63 attempts in flight at the front of the list are enough to lose the lockout.
-/
namespace Panmail.Auth.AttemptLimiter

open Runs List Option

variable {c : Limits} {x : String} {l l' : AttemptLimiter}

def Full (c : Limits) (l : AttemptLimiter) : Prop := c.capacity ≤ l.recency.length

/-- Making room drops the record. -/
def Drops (c : Limits) (l : AttemptLimiter) (now p : Nat) : Prop :=
  p ∈ l.recency ∧ p ∉ (l.makeRoom c now).recency

def hasIdle (l : AttemptLimiter) (now : Nat) : Bool := l.recency.any fun p => (l.heap p).idle now

/-- A record that is locked out or mid-attempt is dropped only when all of them are. -/
def Spares (c : Limits) (l : AttemptLimiter) (now : Nat) : Prop :=
  ∀ p, Drops c l now p → (l.heap p).idle now = false → l.hasIdle now = false

/-- An idle record, if there is one, is among those that are looked at. -/
def InReach (l : AttemptLimiter) (now : Nat) : Prop :=
  l.hasIdle now → (l.recency.take evictionProbe).any fun p => (l.heap p).idle now

/-! ### One eviction -/

variable {now p u : Nat} {r : AttemptRecord} {label : Label}

theorem victim_of_reach (reach : (l.recency.take evictionProbe).any fun p => (l.heap p).idle now) :
    ∃ p ∈ l.recency, (l.heap p).idle now ∧ l.victim now = some p := by
  obtain ⟨q, mem, idle⟩ := any_eq_true.mp reach
  cases found : (l.recency.take evictionProbe).find? fun p => (l.heap p).idle now with
  | none => exact absurd idle (find?_eq_none.mp found q mem)
  | some p =>
    have chosen := find?_some found
    refine ⟨p, mem_of_mem_take (mem_of_find?_eq_some found), chosen, ?_⟩
    rw [victim, found]
    rfl

/-- Out of reach of an idle record it drops the one at the front, which is not idle. -/
theorem victim_of_unreached
    (out : ((l.recency.take evictionProbe).any fun p => (l.heap p).idle now) = false) :
    l.victim now = l.recency.head? ∧ ∀ p, l.recency.head? = some p → (l.heap p).idle now = false := by
  have all := any_eq_false.mp out
  constructor
  · have none_ : ((l.recency.take evictionProbe).find? fun p => (l.heap p).idle now) = none :=
      find?_eq_none.mpr all
    rw [victim, none_]
    rfl
  · intro p front
    obtain ⟨rest, shape⟩ := head?_eq_some_iff.mp front
    have first : p ∈ l.recency.take evictionProbe := by
      rw [shape]
      exact mem_cons_self
    simpa using all p first

theorem drops_iff (ok : l.Consistent) (full : Full c l) :
    Drops c l now p ↔ p ∈ l.recency ∧ l.victim now = some p := by
  refine and_congr_right fun mem => ?_
  rw [makeRoom, if_neg (Nat.not_lt.mpr full)]
  split
  next q found =>
    have erased : p ∉ l.recency.erase q ↔ q = p := by
      rw [ok.nodup.mem_erase_iff]
      constructor
      · intro gone
        by_contra away
        exact gone ⟨Ne.symm away, mem⟩
      · rintro rfl ⟨away, _⟩
        exact away rfl
    exact erased.trans ⟨fun same => same ▸ found, fun at_ => some.inj (found.symm.trans at_)⟩
  next none_ => exact ⟨fun gone => absurd mem gone, fun at_ => nomatch none_.symm.trans at_⟩

theorem spares_iff (ok : l.Consistent) (full : Full c l) (now : Nat) :
    Spares c l now ↔ InReach l now := by
  constructor
  · intro spares some_
    by_contra out
    obtain ⟨front, busy⟩ := victim_of_unreached (Bool.not_eq_true _ ▸ out)
    cases head : l.recency.head? with
    | none =>
      simp [hasIdle, head?_eq_none_iff.mp head] at some_
    | some p =>
      have dropped : Drops c l now p :=
        (drops_iff ok full).mpr ⟨mem_of_head? head, front.trans head⟩
      rw [spares p dropped (busy p head)] at some_
      cases some_
  · intro reach p dropped busy
    by_contra some_
    obtain ⟨q, _, idle, found⟩ := victim_of_reach (reach (Bool.not_eq_false _ ▸ some_))
    have same : q = p := some.inj (found.symm.trans ((drops_iff ok full).mp dropped).2)
    rw [same, busy] at idle
    cases idle

/-! ### A lockout among other subjects' attempts -/

/-- The table in which a step makes room for a record, and the clock it does it at. -/
def makesRoom (c : Limits) (l : AttemptLimiter) : Label → Option (AttemptLimiter × Nat)
  | .begin_ subject now later =>
    let swept := (l.tick now).maybeSweep c now
    if swept.lookup subject = none then some (swept, later) else none
  | .failed i now later => (l.attempts[i]?).bind fun a =>
    let counted := ((l.tick now).settle i a .failed).update a.record (AttemptRecord.fail c 1 now)
    if a.running ∧ counted.lookup a.subject = none then some (counted, later) else none
  | .succeeded _ | .abandon _ => none

def Label.elsewhere (l : AttemptLimiter) (x : String) : Label → Bool
  | .begin_ subject _ _ => subject ≠ x
  | .succeeded i | .failed i _ _ | .abandon i => l.attempts[i]?.all fun a => a.subject ≠ x

/-- Where the step makes room in a full table, an idle record is in reach if there is one. -/
def Reaching (c : Limits) (l : AttemptLimiter) (label : Label) : Prop :=
  ∀ room ∈ makesRoom c l label, Full c room.1 → InReach room.1 room.2

/-- Where the step makes room in a full table, not every record is locked or mid-attempt. -/
def SomeIdle (c : Limits) (l : AttemptLimiter) (label : Label) : Prop :=
  ∀ room ∈ makesRoom c l label, Full c room.1 → room.1.hasIdle room.2

/-- A call about another subject, with an idle record in reach where it makes room. -/
def Passing (c : Limits) (x : String) (l : AttemptLimiter) (label : Label) : Prop :=
  label.elsewhere l x ∧ SomeIdle c l label ∧ Reaching c l label

instance (c : Limits) (l : AttemptLimiter) : Decidable (Full c l) :=
  inferInstanceAs (Decidable (_ ≤ _))

instance (l : AttemptLimiter) (now : Nat) : Decidable (InReach l now) :=
  inferInstanceAs (Decidable (_ → _))

instance (c : Limits) (x : String) (l : AttemptLimiter) (label : Label) :
    Decidable (Passing c x l label) :=
  inferInstanceAs (Decidable (_ ∧ (∀ room ∈ makesRoom c l label, _ → _) ∧
    ∀ room ∈ makesRoom c l label, _ → _))

theorem blocked_of (until_ : r.blockedUntil = some u) (before : now < u) :
    r.blocked now := by simp [AttemptRecord.blocked, until_, before]

namespace Holds
theorem maybeSweep (held : Holds p r l) (blocked : r.blocked now) :
    Holds p r (l.maybeSweep c now) := by
  unfold AttemptLimiter.maybeSweep
  split
  · exact held
  · refine ⟨mem_filter.mpr ⟨held.1, ?_⟩, held.2⟩
    rw [held.2]
    simp [swept, blocked]

theorem makeRoom (ok : l.Consistent) (held : Holds p r l) (blocked : r.blocked now)
    (reach : Full c l → InReach l now) (some_ : Full c l → l.hasIdle now) :
    Agrees r.subject l (l.makeRoom c now) := by
  by_cases room : l.recency.length < c.capacity
  · exact .of_room room now
  · have full : Full c l := Nat.not_lt.mp room
    obtain ⟨q, mem, idle, found⟩ := victim_of_reach (reach full (some_ full))
    rw [AttemptLimiter.makeRoom, if_neg room, found]
    refine .remove fun about => ?_
    obtain rfl := ok.same mem held.1 (about.trans (congrArg _ held.2.symm))
    simp [held.2, AttemptRecord.idle, blocked] at idle

theorem step (ok : l.Consistent) (held : Holds p r l) (until_ : r.blockedUntil = some u)
    (elsewhere : label.elsewhere l r.subject) (reach : Reaching c l label)
    (some_ : SomeIdle c l label) (taken : AttemptLimiter.step c l label = some l')
    (before : l'.clock < u) : Holds p r l' := by
  rcases step_cases taken with ⟨subject, now, later, rfl, since, order, rfl⟩ |
    ⟨i, a, rfl, found, runs, rfl⟩ | ⟨i, a, now, later, rfl, found, runs, since, order, rfl⟩ |
    ⟨i, a, rfl, found, runs, rfl⟩ | rfl
  · have other : subject ≠ r.subject := by simpa [Label.elsewhere] using elsewhere
    have early : later < u := before
    have shaped := (ok.tick since).maybeSweep now (c := c)
    -- the sweep spares a lockout, and so does the search for room
    have swept : Holds p r ((l.tick now).maybeSweep c now) :=
      maybeSweep held (blocked_of until_ (Nat.lt_of_le_of_lt order early))
    refine ((Agrees.enter shaped other fun absent => ?_).holds p r rfl).mpr swept
    have makes : makesRoom c l (.begin_ subject now later) = some (_, later) := if_pos absent
    exact swept.makeRoom shaped (blocked_of until_ early) (reach _ makes) (some_ _ makes)
  · have other : a.subject ≠ r.subject := by simpa [Label.elsewhere, found] using elsewhere
    have settled := Agrees.settle ok found other .succeeded
    refine ((settled.trans (.remove ?_)).holds p r rfl).mpr held
    rw [((ok.settle found runs (by decide)).named _ (mem_set_here _ found)).2]
    exact other
  · have other : a.subject ≠ r.subject := by simpa [Label.elsewhere, found] using elsewhere
    have shaped := (ok.tick since).settle found runs (by decide : Outcome.failed ≠ .running)
    have about := (shaped.named _ (mem_set_here _ found)).2
    have settled := Agrees.settle (ok.tick since) found other .failed
    have counted := settled.trans (.update (fail_keeps c 1 now) (about.symm ▸ other))
    refine ((settled.trans (.countFailure (about.symm ▸ other) fun absent => ?_)).holds p r rfl).mpr
      held
    -- a failure enters the record again where it was dropped meanwhile
    have makes : makesRoom c l (.failed i now later) = some (((l.tick now).settle i a .failed).update
        a.record (AttemptRecord.fail c 1 now), later) := by
      rw [makesRoom, found]
      exact if_pos ⟨runs, about ▸ absent⟩
    have still := (counted.holds p r rfl).mpr held
    exact still.makeRoom (shaped.update _ (fail_keeps c 1 now)) (blocked_of until_ before)
      (reach _ makes) (some_ _ makes)
  · have other : a.subject ≠ r.subject := by simpa [Label.elsewhere, found] using elsewhere
    exact ((Agrees.settle ok found other .abandoned).holds p r rfl).mpr held
  · exact held

theorem refused {later : Nat} (ok : l.Consistent) (held : Holds p r l)
    (until_ : r.blockedUntil = some u) (before : now < u) :
    (l.begin_ c r.subject now later).2 = .refused (u - now) := by
  have blocked := blocked_of until_ before
  have swept : Holds p r (l.maybeSweep c now) := held.maybeSweep blocked
  have found : (l.maybeSweep c now).lookup r.subject = some p := by
    have there := (ok.maybeSweep (c := c) now).lookup_of_mem swept.1
    rwa [swept.2] at there
  have same : r.expire c now = r := by
    have kept : r.unblock now = r := if_neg (by simp [blocked])
    rw [AttemptRecord.expire, kept]
    exact if_neg (by simp [until_])
  have here : ((l.maybeSweep c now).update p (AttemptRecord.expire c now)).heap p = r := by
    rw [update_heap, if_pos rfl, swept.2, same]
  rw [begin_, AttemptLimiter.enter, found]
  simp only [here, blocked, if_true, retryIn, until_, elim_some]

end Holds

theorem clock_le_step (taken : step c l label = some l') : l.clock ≤ l'.clock := by
  rcases step_cases taken with ⟨subject, now, later, -, since, order, rfl⟩ |
    ⟨i, a, -, -, -, rfl⟩ | ⟨i, a, now, later, -, -, -, since, order, rfl⟩ |
    ⟨i, a, -, -, -, rfl⟩ | rfl
  · exact Nat.le_trans since order
  · exact Nat.le_refl _
  · exact Nat.le_trans since order
  · exact Nat.le_refl _
  · exact Nat.le_refl _

theorem makesRoom_consistent (ok : l.Consistent) (taken : step c l label = some l')
    {room : AttemptLimiter × Nat} (makes : makesRoom c l label = some room) :
    room.1.Consistent := by
  cases label with
  | begin_ _ now =>
    rw [step, ite_none_right_eq_some] at taken
    simp only [makesRoom, ite_none_right_eq_some, some.injEq] at makes
    rw [← makes.2]
    exact (ok.tick taken.1.1).maybeSweep now
  | failed _ now =>
    rw [step, ite_none_right_eq_some] at taken
    simp only [makesRoom, bind_eq_some_iff, ite_none_right_eq_some,
      some.injEq] at makes
    obtain ⟨a, found, ⟨runs, _⟩, rfl⟩ := makes
    exact ((ok.tick taken.1.1).settle found runs (by decide)).update _ (fail_keeps c 1 now)
  | succeeded | abandon => cases makes

/-- A lockout outlives every run of calls about other subjects that ends before it does. -/
theorem Holds.run {labels : List Label} (ok : l.Consistent) (held : Holds p r l)
    (until_ : r.blockedUntil = some u)
    (along : AllSteps (AttemptLimiter.step c) (Passing c r.subject) l labels)
    (run : exec (AttemptLimiter.step c) l labels = some l') (before : l'.clock < u) :
    Holds p r l' := by
  have both : l'.Consistent ∧ (l'.clock < u → Holds p r l') :=
    invariant_along (AttemptLimiter.step c) (Passing c r.subject)
      (fun l => l.Consistent ∧ (l.clock < u → Holds p r l))
      (fun l label t passing inv taken => ⟨inv.1.step taken, fun early =>
        (inv.2 (Nat.lt_of_le_of_lt (clock_le_step taken) early)).step inv.1 until_ passing.1
          passing.2.2 passing.2.1 taken early⟩)
      l l' labels ⟨ok, fun _ => held⟩ along run
  exact both.2 before

/-- A call that makes room in a full table spares what is locked out or mid-attempt exactly when an
idle record, if one is tracked, is in reach. And a lockout outlives every run of calls about other
subjects that make room only where an idle record is in reach. -/
theorem spares_iff_inReach (c : Limits) {labels : List Label}
    (run : exec (step c) init labels = some l) :
    (∀ label l', step c l label = some l' → ∀ room ∈ makesRoom c l label, Full c room.1 →
      (Spares c room.1 room.2 ↔ InReach room.1 room.2)) ∧
    ∀ x p u, l.lookup x = some p → (l.heap p).blockedUntil = some u →
      ∀ others t, AllSteps (step c) (Passing c x) l others → exec (step c) l others = some t →
        ∀ now later, t.clock ≤ now → now < u → (t.begin_ c x now later).2 = .refused (u - now) := by
  have ok : l.Consistent :=
    invariant (step c) Consistent (fun _ _ _ ok taken => ok.step taken) init l labels .init_ run
  constructor
  · intro label l' taken room makes full
    exact spares_iff (makesRoom_consistent ok taken makes) full room.2
  · intro x p u found until_ others t along after now later since before
    obtain ⟨member, subject⟩ := lookup_some found
    subst subject
    have kept : Holds p (l.heap p) t := Holds.run ok ⟨member, rfl⟩ until_ along after
      (Nat.lt_of_le_of_lt since before)
    have shaped : t.Consistent :=
      invariant (step c) Consistent (fun _ _ _ ok taken => ok.step taken) l t others ok after
    exact kept.refused shaped until_ before

def smallLimits : Limits := ⟨2, 100, 2, by decide⟩

/-- Two failures lock `ana` out; `bo` tries and gives up. -/
def lockAna : List Label :=
  [.begin_ "ana" 0 0, .failed 0 1 1, .begin_ "ana" 2 2, .failed 1 3 3, .begin_ "bo" 4 4, .abandon 2]

/-- The table is full when `cy` tries: `bo` is dropped, and `ana` stays locked out. -/
theorem refused_after_lockAna : ∃ l t, exec (step smallLimits) init lockAna = some l ∧
    Full smallLimits l ∧ exec (step smallLimits) l [.begin_ "cy" 5 5] = some t ∧
    (t.begin_ smallLimits "ana" 6 6).2 = .refused 97 := by
  have runs : ∃ l ∈ exec (step smallLimits) init lockAna, Full smallLimits l ∧
      l.lookup "ana" = some 0 ∧ (l.heap 0).blockedUntil = some 103 ∧
      AllSteps (step smallLimits) (Passing smallLimits "ana") l [.begin_ "cy" 5 5] ∧
      ∃ t ∈ exec (step smallLimits) l [.begin_ "cy" 5 5], t.clock ≤ 6 := by decide
  obtain ⟨l, run, full, found, until_, along, t, after, clock⟩ := runs
  exact ⟨l, t, run, full, after, (spares_iff_inReach smallLimits run).2 "ana" 0 103 found until_
    [.begin_ "cy" 5 5] t along after 6 6 clock (by decide)⟩

/-- In every run, sweeps and evictions included, no two tracked records are of one subject, and a
record counts the attempts that are running on it, also once it has left the table. -/
theorem consistent_of_run {labels : List Label} (run : exec (step c) init labels = some l) :
    l.Consistent :=
  invariant (step c) Consistent (fun _ _ _ ok taken => ok.step taken) init l labels .init_ run

/-- Three try at once where two are tracked, so the first to come leaves the table mid-attempt. -/
def threeAtOnce : List Label := [.begin_ "ana" 0 0, .begin_ "bo" 1 1, .begin_ "cy" 2 2]

/-- And the attempt settles on the record that has left. -/
theorem consistent_threeAtOnce : ∃ l t, exec (step smallLimits) init threeAtOnce = some l ∧
    0 ∉ l.recency ∧ (l.heap 0).inFlight = 1 ∧ exec (step smallLimits) l [.failed 0 3 3] = some t ∧
    (t.heap 0).inFlight = 0 ∧ (t.heap 0).inFlight = t.attempts.countP (holds 0) := by
  have runs : ∃ l ∈ exec (step smallLimits) init threeAtOnce, 0 ∉ l.recency ∧
      (l.heap 0).inFlight = 1 ∧ ∃ t ∈ exec (step smallLimits) l [.failed 0 3 3],
        (t.heap 0).inFlight = 0 := by decide
  obtain ⟨l, run, gone, running, t, after, settled⟩ := runs
  have whole := (exec_append (step smallLimits) init t _ _).mpr ⟨l, run, after⟩
  exact ⟨l, t, run, gone, running, after, settled, (consistent_of_run whole).inFlight 0⟩

theorem granted_of_absent {later : Nat} (absent : l.lookup x = none) :
    (l.begin_ c x now later).2 = .granted := by
  obtain ⟨kept, lastSweep, sub, after⟩ := maybeSweep_eq c l now
  have still : lookup { l with recency := kept, lastSweep := lastSweep } x = none :=
    lookup_of_sublist absent sub
  rw [begin_, after, enter, still]

variable {subject : String}

theorem lookup_reserve_insert (absent : l.lookup x = none) (other : subject ≠ x) :
    ((l.insert subject).reserve l.made now).lookup x = none := by
  refine find?_eq_none.mpr fun p mem => ?_
  by_cases here : p = l.made
  · rw [reserve_heap, if_pos here]
    simpa [AttemptLimiter.insert] using other
  · have old : p ∈ l.recency := by
      simpa [AttemptLimiter.insert, here, mem_erase_of_ne here] using mem
    rw [reserve_heap, if_neg here]
    simpa [AttemptLimiter.insert, Function.update_of_ne here] using lookup_none absent p old

/-! ### A lockout lost at the size of the login limiter

One address is locked out. Then others try: the first 63 stay mid-attempt, and the rest give
up, until the table is full. -/

def caller (k : Nat) : String := String.ofList (List.replicate (k + 1) 'a')

theorem caller_injective {j k : Nat} (same : caller j = caller k) : j = k := by
  have lists : List.replicate (j + 1) 'a' = List.replicate (k + 1) 'a' :=
    String.ofList_injective same
  have lengths := congrArg List.length lists
  simpa using lengths

theorem caller_ne (k : Nat) (signed : '@' ∈ subject.toList) : caller k ≠ subject := by
  rintro rfl
  rw [caller, String.toList_ofList] at signed
  exact absurd (eq_of_mem_replicate signed) (by decide)

def lockOut : List Label :=
  (List.range 5).flatMap fun i => [.begin_ "ana@example.com" 0 0, .failed i 0 0]

def try_ (k : Nat) : List Label :=
  if k < 63 then [.begin_ (caller k) 0 0] else [.begin_ (caller k) 0 0, .abandon (5 + k)]

/-- The table after the lockout and the tries of `n` other callers. -/
structure Flooded (n : Nat) (l : AttemptLimiter) : Prop where
  made : l.made = n + 1
  recency : l.recency = List.range (n + 1)
  lastSweep : l.lastSweep = some 0
  clock : l.clock = 0
  attempts : l.attempts.length = 5 + n
  locked : l.heap 0 = ⟨"ana@example.com", 5, 0, 0, some 900000000000⟩
  tried : ∀ k < n, l.heap (k + 1) = ⟨caller k, 0, if k < 63 then 1 else 0, 0, none⟩

namespace Flooded
variable {n : Nat}

theorem lockOut_ : ∃ l, exec (AttemptLimiter.step loginLimits) init lockOut = some l ∧ Flooded 0 l := by
  refine ⟨_, rfl, ?_⟩
  constructor
  case tried => exact fun k bound => nomatch bound
  all_goals decide

theorem absent (f : Flooded n l) (other : subject ≠ "ana@example.com")
    (new : ∀ k < n, caller k ≠ subject) : l.lookup subject = none := by
  refine find?_eq_none.mpr fun p mem => ?_
  rw [f.recency, mem_range] at mem
  cases p with
  | zero => simpa [f.locked] using other.symm
  | succ k =>
    have before : k < n := by omega
    simpa [f.tried k before] using new k before

theorem begin_ (f : Flooded n l) (absent : l.lookup subject = none) :
    (l.tick 0).begin_ loginLimits subject 0 0 =
      (((l.makeRoom loginLimits 0).insert subject).reserve (l.makeRoom loginLimits 0).made 0,
        .granted) := by
  have ticked : l.tick 0 = l := by rw [AttemptLimiter.tick, ← f.clock]
  have quiet : l.maybeSweep loginLimits 0 = l :=
    if_pos (by rw [f.lastSweep]; decide)
  rw [ticked, AttemptLimiter.begin_, quiet, enter, absent]

theorem begun (f : Flooded n l) (room : n + 1 < loginLimits.capacity) :
    ∃ l', AttemptLimiter.step loginLimits l (.begin_ (caller n) 0 0) = some l' ∧
      l'.made = n + 2 ∧ l'.recency = List.range (n + 2) ∧ l'.lastSweep = some 0 ∧ l'.clock = 0 ∧
      l'.attempts = l.attempts ++ [⟨n + 1, .running, caller n, 0⟩] ∧
      l'.heap (n + 1) = ⟨caller n, 0, 1, 0, none⟩ ∧ ∀ p ≤ n, l'.heap p = l.heap p := by
  have absent : l.lookup (caller n) = none :=
    f.absent (caller_ne n (by decide)) fun k before same => Nat.ne_of_lt before (caller_injective same)
  have fits : l.recency.length < loginLimits.capacity := by rwa [f.recency, length_range]
  refine ⟨_, if_pos ⟨Nat.le_of_eq f.clock, Nat.le_refl 0⟩, ?_⟩
  rw [f.begin_ absent, makeRoom_of_room fits, f.made]
  have new : (l.insert (caller n)).heap (n + 1) = ⟨caller n, 0, 0, 0, none⟩ := by
    rw [← f.made]
    exact Function.update_self ..
  refine ⟨congrArg (· + 1) f.made, ?_, f.lastSweep, rfl, ?_, ?_, ?_⟩
  · have fresh : n + 1 ∉ List.range (n + 1) := by simp
    change (l.recency ++ [l.made]).erase (n + 1) ++ [n + 1] = _
    rw [f.recency, f.made, erase_append_right _ fresh, erase_cons_head, append_nil,
      ← range_succ]
  · change l.attempts ++ [_] = _
    rw [new]
  · change ((l.insert (caller n)).reserve (n + 1) 0).heap (n + 1) = _
    rw [reserve_heap, if_pos rfl, new]
  · intro p bound
    change ((l.insert (caller n)).reserve (n + 1) 0).heap p = _
    rw [reserve_heap, if_neg (by omega)]
    exact Function.update_of_ne (by rw [f.made]; omega) ..

theorem step (f : Flooded n l) (room : n + 1 < loginLimits.capacity) :
    ∃ l', exec (AttemptLimiter.step loginLimits) l (try_ n) = some l' ∧ Flooded (n + 1) l' := by
  obtain ⟨m, taken, made, recency, lastSweep, clock, attempts, new, old⟩ := f.begun room
  have locked : m.heap 0 = _ := (old 0 (Nat.zero_le n)).trans f.locked
  have before : ∀ k < n, m.heap (k + 1) = _ := fun k bound => (old (k + 1) bound).trans (f.tried k bound)
  have length : m.attempts.length = 5 + (n + 1) := by
    rw [attempts, length_append, f.attempts]
    rfl
  by_cases early : n < 63
  · refine ⟨m, ?_, made, recency, lastSweep, clock, length, locked, ?_⟩
    · rw [try_, if_pos early, exec, taken]
      rfl
    · intro k bound
      rcases Nat.lt_succ_iff_lt_or_eq.mp bound with earlier | rfl
      · exact before k earlier
      · rw [new, if_pos early]
  · have last : m.attempts[5 + n]? = some ⟨n + 1, .running, caller n, 0⟩ := by
      rw [attempts, getElem?_append_right (Nat.le_of_eq f.attempts), f.attempts]
      simp
    refine ⟨m.settle (5 + n) ⟨n + 1, .running, caller n, 0⟩ .abandoned, ?_, made, recency,
      lastSweep, clock, ?_, ?_, ?_⟩
    · rw [try_, if_neg early, exec, taken]
      simp [exec, AttemptLimiter.step, last, Attempt.running]
    · rw [settle_attempts, length_set, length]
    · rw [settle_heap, if_neg (Nat.succ_ne_zero n).symm, locked]
    · intro k bound
      rw [settle_heap]
      split
      next here =>
        have same : k = n := by simpa using here
        rw [same, if_neg early]
        simp [new]
      next away =>
        have earlier : k < n := by
          have : k ≠ n := fun same => away (by rw [same])
          omega
        exact before k earlier

theorem run : ∀ n, n < loginLimits.capacity → ∃ l, exec (AttemptLimiter.step loginLimits) init
      (lockOut ++ (List.range n).flatMap try_) = some l ∧ Flooded n l
  | 0, _ => by simpa using lockOut_
  | n + 1, room => by
    obtain ⟨l, before, flooded⟩ := run n (Nat.lt_of_succ_lt room)
    obtain ⟨l', taken, after⟩ := flooded.step room
    refine ⟨l', ?_, after⟩
    rw [range_succ, flatMap_append, ← append_assoc]
    exact (exec_append ..).mpr ⟨l, before, by simpa using taken⟩

/-- The records that are looked at are the lockout and the 63 attempts in flight. -/
theorem busy (f : Flooded n l) (many : 63 ≤ n) :
    ((l.recency.take evictionProbe).any fun p => (l.heap p).idle 0) = false := by
  refine any_eq_false.mpr fun p mem => ?_
  have first : p < 64 := by
    rw [f.recency, take_range, mem_range] at mem
    exact Nat.lt_of_lt_of_le mem (Nat.min_le_left ..)
  cases p with
  | zero => simp [f.locked, AttemptRecord.idle, AttemptRecord.blocked]
  | succ k =>
    have early : k < 63 := by omega
    simp [f.tried k (by omega), AttemptRecord.idle, early]

theorem hasIdle (f : Flooded n l) (many : 63 < n) : l.hasIdle 0 := by
  refine any_eq_true.mpr ⟨64, ?_, ?_⟩
  · rw [f.recency, mem_range]
    omega
  · rw [f.tried 63 many]
    decide

end Flooded

/-- With all but 64 of 10000 records idle, the next new caller pushes out the first address's
lockout, 15 minutes early. -/
theorem lockout_evicted : ∃ labels l t, exec (step loginLimits) init labels = some l ∧
    Full loginLimits l ∧ l.lookup "ana@example.com" = some 0 ∧
    (l.heap 0).blockedUntil = some 900000000000 ∧ Drops loginLimits l 0 0 ∧ l.hasIdle 0 ∧
    step loginLimits l (.begin_ "bo@example.com" 0 0) = some t ∧ t.clock = 0 ∧
    (t.begin_ loginLimits "ana@example.com" 0 0).2 = .granted := by
  obtain ⟨l, run, f⟩ := Flooded.run 9999 (by decide)
  have ok : l.Consistent :=
    invariant (step loginLimits) Consistent (fun _ _ _ ok taken => ok.step taken) init l _ .init_ run
  have full : Full loginLimits l := by
    rw [Full, f.recency, length_range]
    decide
  have member : 0 ∈ l.recency := by
    rw [f.recency, mem_range]
    omega
  have front : l.victim 0 = some 0 := by
    rw [(victim_of_unreached (f.busy (by omega))).1, f.recency, head?_range]
    rfl
  have dropped := (drops_iff ok full).mpr ⟨member, front⟩
  have found : l.lookup "ana@example.com" = some 0 := by
    have there := ok.lookup_of_mem member
    rwa [f.locked] at there
  refine ⟨_, l, _, run, full, found, congrArg _ f.locked, dropped,
    f.hasIdle (by omega), if_pos ⟨Nat.le_of_eq f.clock, Nat.le_refl 0⟩, rfl, ?_⟩
  have gone : (l.makeRoom loginLimits 0).lookup "ana@example.com" = none := by
    refine find?_eq_none.mpr fun p there about => ?_
    obtain ⟨kept, sub, after⟩ := makeRoom_eq loginLimits l 0
    have same : p = 0 := by
      rw [after] at about there
      refine ok.same (sub.subset there) member ?_
      rw [f.locked]
      simpa using about
    exact dropped.2 (same ▸ there)
  have absent : l.lookup "bo@example.com" = none :=
    f.absent (by decide) fun k _ => caller_ne k (by decide)
  rw [f.begin_ absent]
  refine granted_of_absent ?_
  exact lookup_reserve_insert gone (by decide)

end Panmail.Auth.AttemptLimiter
