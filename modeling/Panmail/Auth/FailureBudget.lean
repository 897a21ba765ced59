import Panmail.Auth.Subject

/-!
# At most the budget fails in a block period

What the limiter forgets, by the end of a block, by age or by a sweep, was admitted a block period
ago or longer. So the failures of the *recent* attempts are covered by the count of the record in
the table, and the running attempts by its units in flight.
-/
namespace Panmail.Auth.AttemptLimiter

open Runs List

variable {c : Limits} {x : String} {l l' : AttemptLimiter}

def recent (c : Limits) (now : Nat) (a : Attempt) : Bool := now < a.admittedAt + c.blockFor

def live (a : Attempt) : Bool := a.running || hasFailed a

def admittedIn (start end_ : Nat) (a : Attempt) : Bool :=
  start ≤ a.admittedAt && a.admittedAt < end_

/-- The attempts admitted for the subject from `start` on and before `end_` that failed. -/
def failedIn (l : AttemptLimiter) (x : String) (start end_ : Nat) : Nat :=
  (l.mine x).countP fun a => admittedIn start end_ a && hasFailed a

/-- The record accounts for the recent ones among a subject's `own` attempts. -/
structure Covers (c : Limits) (own : List Attempt) (now : Nat) (r : AttemptRecord) : Prop where
  lastTry : ∀ a ∈ own, recent c now a → a.admittedAt ≤ r.lastTry
  blockedUntil : ∀ u, r.blockedUntil = some u →
    ∀ a ∈ own, recent c now a → a.admittedAt + c.blockFor ≤ u
  failures : own.countP (fun a => recent c now a && hasFailed a) ≤ r.failures

/-- The running attempts and the failures of a window are within the budget, and the record accounts
for the recent attempts. -/
structure Budget (c : Limits) (now : Nat) (own : List Attempt) (r : Option AttemptRecord) :
    Prop where
  past : ∀ a ∈ own, a.admittedAt ≤ now
  tracked : ∀ r', r = some r' → Covers c own now r'
  untracked : r = none → ∀ a ∈ own, ¬ recent c now a
  bounded : ∀ start,
    own.countP (fun a => admittedIn start (start + c.blockFor) a && live a) ≤ c.max

theorem recent_before {now then_ : Nat} (since : now ≤ then_) {a : Attempt}
    (young : recent c then_ a) : recent c now a := by
  simp only [recent, decide_eq_true_eq] at young ⊢
  omega

namespace Covers
variable {own : List Attempt} {now : Nat} {r : AttemptRecord}

theorem of_quiet (quiet : ∀ a ∈ own, ¬ recent c now a) (r : AttemptRecord) :
    Covers c own now r where
  lastTry a mem young := absurd young (quiet a mem)
  blockedUntil _ _ a mem young := absurd young (quiet a mem)
  failures := by
    have none_ : own.countP (fun a => recent c now a && hasFailed a) = 0 :=
      countP_eq_zero.mpr fun a mem both => quiet a mem (Bool.and_eq_true_iff.mp both).1
    omega

section
variable (covers : Covers c own now r)
include covers

theorem quiet_of_stale (stale : r.stale c now = true) : ∀ a ∈ own, ¬ recent c now a := by
  intro a mem young
  have tried := covers.lastTry a mem young
  simp only [AttemptRecord.stale, recent, decide_eq_true_eq] at stale young
  omega

theorem quiet_of_unblocked {u : Nat} (until_ : r.blockedUntil = some u) (lapsed : u ≤ now) :
    ∀ a ∈ own, ¬ recent c now a := by
  intro a mem young
  have ended := covers.blockedUntil u until_ a mem young
  simp only [recent, decide_eq_true_eq] at young
  omega

theorem unblock : Covers c own now (r.unblock now) := by
  unfold AttemptRecord.unblock
  split
  next lapsed =>
    cases until_ : r.blockedUntil with
    | none => simp [until_] at lapsed
    | some =>
      simp only [until_, AttemptRecord.blocked, Option.isSome_some, Bool.true_and,
        Option.any_some, Bool.not_eq_true', decide_eq_false_iff_not, Nat.not_lt] at lapsed
      exact of_quiet (covers.quiet_of_unblocked until_ lapsed) _
  next => exact covers

theorem expire : Covers c own now (r.expire c now) := by
  have first := covers.unblock
  unfold AttemptRecord.expire AttemptRecord.forget
  split
  next old =>
    simp only [Bool.and_eq_true] at old
    exact of_quiet (first.quiet_of_stale old.2) _
  next => exact first

theorem later {then_ : Nat} (since : now ≤ then_) : Covers c own then_ r := by
  constructor
  case lastTry => exact fun a there young => covers.lastTry a there (recent_before since young)
  case blockedUntil =>
    exact fun u until_ a there young =>
      covers.blockedUntil u until_ a there (recent_before since young)
  case failures =>
    refine Nat.le_trans (countP_mono_left fun a _ both => ?_) covers.failures
    simp only [Bool.and_eq_true] at both ⊢
    exact ⟨recent_before since both.1, both.2⟩

end

end Covers

section
variable {now : Nat} {own own' : List Attempt} {r r' : AttemptRecord} {a : Attempt}
  {outcome : Outcome}

/-- The record of a settled attempt: a failure is counted there, and a block it sets lasts a
whole block period. -/
theorem Covers.settle (covers : Covers c own now r) (past : ∀ a ∈ own, a.admittedAt ≤ now)
    (settles : Settles a outcome own own') (lastTry : r'.lastTry = r.lastTry)
    (block : ∀ u, r'.blockedUntil = some u → r.blockedUntil = some u ∨ now + c.blockFor ≤ u)
    (failures : r.failures + (if outcome = .failed then 1 else 0) ≤ r'.failures) :
    Covers c own' now r' := by
  -- the attempts were admitted as before
  have was (b : Attempt) (mem : b ∈ own') : ∃ b₀ ∈ own, b₀.admittedAt = b.admittedAt := by
    rcases settles.mem b mem with old | rfl
    · exact ⟨b, old, rfl⟩
    · exact ⟨a, settles.was, rfl⟩
  constructor
  case lastTry =>
    intro b mem young
    obtain ⟨b₀, there, same⟩ := was b mem
    rw [lastTry, ← same]
    refine covers.lastTry b₀ there ?_
    rwa [recent, same]
  case blockedUntil =>
    intro u until_ b mem young
    obtain ⟨b₀, there, same⟩ := was b mem
    rw [← same]
    rcases block u until_ with old | new
    · refine covers.blockedUntil u old b₀ there ?_
      rwa [recent, same]
    · have before := past b₀ there
      omega
  case failures =>
    have counted := settles.count fun a => recent c now a && hasFailed a
    have covered := covers.failures
    have single : (if recent c now { a with outcome := outcome } &&
        hasFailed { a with outcome := outcome } then 1 else 0) ≤
        if outcome = .failed then 1 else 0 := by
      split
      next both =>
        simp only [hasFailed, Bool.and_eq_true, decide_eq_true_eq] at both
        exact Nat.le_of_eq (if_pos both.2).symm
      next => exact Nat.zero_le _
    omega

namespace Budget

/-- What may count against a window still open is covered by the record: recent failures by its
count, running attempts by its units in flight. -/
theorem open_window (covers : Covers c own now r)
    (running : own.countP Attempt.running ≤ r.inFlight) {start : Nat}
    (opened : now < start + c.blockFor) :
    own.countP (fun a => admittedIn start (start + c.blockFor) a && live a) ≤
      r.inFlight + r.failures := by
  have failed : own.countP (fun a =>
      (admittedIn start (start + c.blockFor) a && live a) && !a.running) ≤ r.failures := by
    refine Nat.le_trans (countP_mono_left fun a _ counts => ?_) covers.failures
    simp only [admittedIn, live, recent, Bool.and_eq_true, Bool.or_eq_true, Bool.not_eq_true',
      decide_eq_true_eq] at counts ⊢
    obtain ⟨⟨within, running | fails⟩, ended⟩ := counts
    · exact absurd running (by simp [ended])
    · exact ⟨by omega, fails⟩
  rw [countP_eq_countP_filter_add _ _ Attempt.running, countP_filter (p := fun a =>
    admittedIn start (start + c.blockFor) a && live a) (q := fun a => !a.running)]
  refine Nat.add_le_add (Nat.le_trans countP_le_length ?_) failed
  rw [← countP_eq_length_filter]
  exact running

theorem admits (p : Nat) (budget : Budget c now own (some r)) (free : r.blockedUntil = none)
    (room : r.failures + r.inFlight < c.max) (running : own.countP Attempt.running ≤ r.inFlight) :
    Budget c now (own ++ [⟨p, .running, x, now⟩])
      (some { r with inFlight := r.inFlight + 1, lastTry := now }) := by
  have covers := budget.tracked r rfl
  refine ⟨forall_mem_concat budget.past (Nat.le_refl now), ?_, nofun, fun start => ?_⟩
  · rintro _ ⟨⟩
    constructor
    case lastTry =>
      exact forall_mem_concat (fun a mem _ => budget.past a mem) fun _ => Nat.le_refl now
    case blockedUntil =>
      intro u until_
      cases free.symm.trans until_
    case failures =>
      simpa [hasFailed] using covers.failures
  · rw [countP_append]
    by_cases opened : now < start + c.blockFor
    · -- the one unit that `room` leaves is for the attempt that is admitted here
      have covered := open_window covers running opened
      have single := countP_le_length
        (p := fun a => admittedIn start (start + c.blockFor) a && live a)
        (l := [(⟨p, .running, x, now⟩ : Attempt)])
      simp only [length_singleton] at single
      omega
    · simp only [countP_singleton, admittedIn, opened, decide_false, Bool.and_false,
        Bool.false_and, Bool.false_eq_true, if_false, Nat.add_zero]
      exact budget.bounded start

/-- An attempt that was running counted against the windows already. -/
theorem settle (budget : Budget c now own (some r)) (runs : a.running)
    (settles : Settles a outcome own own') (covers : Covers c own' now r') :
    Budget c now own' (some r') := by
  refine ⟨fun b mem => ?_, ?_, nofun, fun start => ?_⟩
  · rcases settles.mem b mem with old | rfl
    · exact budget.past b old
    · exact budget.past a settles.was
  · rintro _ ⟨⟩
    exact covers
  · have before := budget.bounded start
    have counted := settles.count fun a => admittedIn start (start + c.blockFor) a && live a
    have still : (admittedIn start (start + c.blockFor) { a with outcome := outcome } &&
        live { a with outcome := outcome }) →
        (admittedIn start (start + c.blockFor) a && live a) := by
      simp only [Bool.and_eq_true, live, runs, Bool.true_or, and_true]
      exact And.left
    split_ifs at counted with was is_ is_
    · omega
    · omega
    · exact absurd (still is_) was
    · omega

theorem stable (c : Limits) (x : String) : Stable c x (Budget c) where
  later budget since := {
    past := fun a mem => Nat.le_trans (budget.past a mem) since
    tracked := fun r here => (budget.tracked r here).later since
    untracked := fun none_ a mem young => budget.untracked none_ a mem (recent_before since young)
    bounded := budget.bounded }
  swept budget dropped := by
    simp only [swept, Bool.and_eq_true] at dropped
    exact { budget with
      tracked := by simp
      untracked := fun _ => (budget.tracked _ rfl).quiet_of_stale dropped.2 }
  expire budget := { budget with
    tracked := fun _ here => Option.some.inj here ▸ (budget.tracked _ rfl).expire
    untracked := by simp }
  fresh budget := { budget with
    tracked := fun _ _ => .of_quiet (budget.untracked rfl) _
    untracked := by simp }
  admits := admits
  abandons budget runs settles := budget.settle runs settles <|
    (budget.tracked _ rfl).settle budget.past settles rfl (fun _ => .inl) (Nat.le_refl _)
  fails budget runs settles := by
    refine budget.settle runs settles ((budget.tracked _ rfl).settle budget.past settles ?_ ?_ ?_)
    all_goals simp only [AttemptRecord.fail]
    · split <;> rfl
    · intro u until_
      split at until_
      · exact .inr (Nat.le_of_eq (Option.some.inj until_))
      · exact .inl until_
    · rw [if_pos trivial]
      split <;> exact Nat.le_refl _

end Budget

end

def Label.succeeds (l : AttemptLimiter) (x : String) : Label → Bool
  | .succeeded i => l.attempts[i]?.any fun a => a.subject = x
  | _ => false

/-- The table is not full and the step is no success of the subject. -/
def Counting (c : Limits) (x : String) (l : AttemptLimiter) (label : Label) : Prop :=
  l.recency.length < c.capacity ∧ label.succeeds l x = false

instance (c : Limits) (x : String) (l : AttemptLimiter) (label : Label) :
    Decidable (Counting c x l label) :=
  inferInstanceAs (Decidable (_ ∧ _))

/-- In any window of one block period at most `max` of a subject's attempts admitted in it fail, in
every interleaving in which the table has room and the subject has no success. -/
theorem failedIn_le_max (c : Limits) (x : String) {labels : List Label}
    (along : AllSteps (step c) (Counting c x) init labels)
    (run : exec (step c) init labels = some l) (start : Nat) :
    l.failedIn x start (start + c.blockFor) ≤ c.max := by
  have both : l.Consistent ∧ Tracks (Budget c) x l := by
    refine invariant_along (step c) (Counting c x) (fun l => l.Consistent ∧ Tracks (Budget c) x l)
      ?_ init l labels ⟨.init_, .init_ ?_⟩ along run
    · intro l label l' counting inv taken
      refine ⟨inv.1.step taken, inv.2.step inv.1 (Budget.stable c x) counting.1 ?_ taken⟩
      rintro i a rfl found own -
      have other := counting.2
      simp [Label.succeeds, found, own] at other
    · exact ⟨nofun, nofun, fun _ => nofun, fun _ => Nat.zero_le _⟩
  refine Nat.le_trans (countP_mono_left fun a _ counts => ?_) (both.2.view.bounded start)
  simp only [live, Bool.and_eq_true, Bool.or_eq_true] at counts ⊢
  exact ⟨counts.1, .inr counts.2⟩

/-- Seven concurrent tries of one address: five are admitted and fail, the others are
refused, and so is a try at the last instant of the block. -/
def burst : List Label :=
  List.replicate 7 (.begin_ "ana@example.com" 1000 1000) ++
    (List.range 5).map (fun i => .failed i 2000 2000) ++
    [.begin_ "ana@example.com" 900000001999 900000001999]

theorem failedIn_burst : ∃ l, exec (step loginLimits) init burst = some l ∧
    l.failedIn "ana@example.com" 1000 900000001000 = 5 ∧
    l.failedIn "ana@example.com" 1000 900000001000 ≤ loginLimits.max := by
  have along : AllSteps (step loginLimits) (Counting loginLimits "ana@example.com") init burst := by
    decide
  have runs : ∃ l ∈ exec (step loginLimits) init burst,
      l.failedIn "ana@example.com" 1000 900000001000 = 5 := by decide
  obtain ⟨l, run, five⟩ := runs
  exact ⟨l, run, five, failedIn_le_max loginLimits "ana@example.com" along run 1000⟩

end Panmail.Auth.AttemptLimiter
