import Panmail.Auth.Subject

/-!
# What a success forgets

A success drops the record of its subject. An attempt that still runs keeps the record it was
admitted under: when it fails, the record comes back with every failure it had, or adds them to the
record made since. So a success clears the failures before it only where no other attempt of the
subject is in flight.
-/
namespace Panmail.Auth.AttemptLimiter

open Runs AttemptRecord

variable {c : Limits} {x : String} {l l' : AttemptLimiter}

def failedOf (l : AttemptLimiter) (x : String) : Nat := (l.mine x).countP hasFailed

def lockedOut (l : AttemptLimiter) (x : String) (now : Nat) : Bool :=
  (l.lookup x).any fun p => (l.heap p).blocked now

def HasRoom (c : Limits) (l : AttemptLimiter) (_ : Label) : Prop := l.recency.length < c.capacity

/-- A success of the subject while another of its attempts is in flight. -/
def Label.overtakes (l : AttemptLimiter) (x : String) : Label → Bool
  | .succeeded i => (l.attempts[i]?.any fun a => a.running && a.subject = x) &&
    1 < (l.mine x).countP Attempt.running
  | _ => false

/-- The table has room, and no success of the subject overtakes an attempt of it. -/
def Orderly (c : Limits) (x : String) (l : AttemptLimiter) (label : Label) : Prop :=
  HasRoom c l label ∧ label.overtakes l x = false

instance (c : Limits) (l : AttemptLimiter) (label : Label) : Decidable (HasRoom c l label) :=
  inferInstanceAs (Decidable (_ < _))

instance (c : Limits) (x : String) (l : AttemptLimiter) (label : Label) :
    Decidable (Orderly c x l label) :=
  inferInstanceAs (Decidable (_ ∧ _))

/-- The record counts no failure but those beyond the first `base`, and it takes as many as the
budget to lock the subject out. -/
structure Since (c : Limits) (base : Nat) (_ : Nat) (own : List Attempt)
    (r : Option AttemptRecord) : Prop where
  failures : base + r.elim 0 AttemptRecord.failures ≤ own.countP hasFailed
  blocked : ∀ r', r = some r' → r'.blockedUntil.isSome → base + c.max ≤ own.countP hasFailed

theorem expire_forgets (now : Nat) (r : AttemptRecord) : (r.expire c now).failures ≤ r.failures ∧
      ((r.expire c now).blockedUntil.isSome → r.blockedUntil.isSome) := by
  unfold expire forget unblock
  split <;> split <;> simp_all

theorem Settles.failed_eq {a : Attempt} {outcome : Outcome} {own own' : List Attempt}
    (settles : Settles a outcome own own') (runs : a.running) :
    own'.countP hasFailed = own.countP hasFailed + if outcome = .failed then 1 else 0 := by
  have count := settles.count hasFailed
  have was : hasFailed a = false := by
    simp only [Attempt.running, decide_eq_true_eq] at runs
    simp [hasFailed, runs]
  have becomes : hasFailed { a with outcome := outcome } = decide (outcome = .failed) := rfl
  rw [was, becomes] at count
  simpa using count

theorem Since.stable (c : Limits) (x : String) (base : Nat) : Stable c x (Since c base) where
  later since _ := ⟨since.failures, since.blocked⟩
  swept since _ := ⟨Nat.le_trans (Nat.add_le_add_left (Nat.zero_le _) base) since.failures, nofun⟩
  expire {now _ r} since := by
    obtain ⟨fewer, kept⟩ := expire_forgets (c := c) now r
    refine ⟨Nat.le_trans (Nat.add_le_add_left fewer base) since.failures, ?_⟩
    rintro _ ⟨⟩ blocks
    exact since.blocked r rfl (kept blocks)
  fresh since := ⟨since.failures, fun _ here blocks => by cases here; cases blocks⟩
  admits {now _ _} p since free _ _ := by
    have none_ : [(⟨p, .running, x, now⟩ : Attempt)].countP hasFailed = 0 := rfl
    refine ⟨?_, ?_⟩
    · rw [List.countP_append, none_]
      exact since.failures
    · rintro _ ⟨⟩ blocks
      rw [free] at blocks
      cases blocks
  abandons since runs settles := by
    have same := settles.failed_eq runs
    refine ⟨same ▸ since.failures, ?_⟩
    rintro _ ⟨⟩ blocks
    exact same ▸ since.blocked _ rfl blocks
  fails {_ _ _ r _} since runs settles := by
    have more := settles.failed_eq runs
    rw [if_pos rfl] at more
    have before : base + r.failures ≤ _ := since.failures
    simp only [fail]
    split
    next full =>
      refine ⟨?_, fun _ _ _ => ?_⟩
      · simp only [Option.elim_some]
        omega
      · omega
    next =>
      refine ⟨?_, ?_⟩
      · simp only [Option.elim_some]
        omega
      · rintro _ ⟨⟩ blocks
        have locked := since.blocked _ rfl blocks
        omega

section
variable (ok : l.Consistent) {base : Nat} (w : Tracks (Since c base) x l)
include ok w

theorem Since.succeed {i : Nat} {a : Attempt} (found : l.attempts[i]? = some a)
    (own : a.subject = x) (runs : a.running)
    (orderly : Orderly c x l (.succeeded i)) {base' : Nat} (le : base' ≤ l.failedOf x) :
    Tracks (Since c base') x ((l.settle i a .succeeded).remove a.record) := by
  have alone := orderly.2
  simp only [Label.overtakes, found, Option.any_some, runs, own, decide_true, Bool.and_self,
    Bool.true_and, decide_eq_false_iff_not, Nat.not_lt] at alone
  refine w.succeed ok found own runs alone ⟨?_, nofun⟩
  rw [(settles found own .succeeded).failed_eq runs]
  exact le

theorem Since.step {label : Label} (orderly : Orderly c x l label)
    (taken : AttemptLimiter.step c l label = some l') : Tracks (Since c base) x l' := by
  refine w.step ok (Since.stable c x base) orderly.1 ?_ taken
  rintro i a rfl found own runs
  exact succeed ok w found own runs orderly
    (Nat.le_trans (Nat.le_add_right base _) w.view.failures)

end

/-- Where the table has room and no success of a subject overtakes another attempt of it, a subject
that had a success is not locked out before a whole budget of failures after it. -/
theorem unlocked_since_success (c : Limits) (x : String) {before after : List Label}
    {s t : AttemptLimiter} {i : Nat} {a : Attempt}
    (orderly : AllSteps (step c) (Orderly c x) init (before ++ .succeeded i :: after))
    (reached : exec (step c) init before = some s) (found : s.attempts[i]? = some a)
    (own : a.subject = x) (runs : a.running)
    (run : exec (step c) s (.succeeded i :: after) = some t)
    (few : t.failedOf x < s.failedOf x + c.max) (now : Nat) : t.lockedOut x now = false := by
  obtain ⟨first, here, second⟩ := allSteps_append _ _ _ _ _ _ reached orderly
  obtain ⟨s', taken, rest⟩ := (exec_cons ..).mp run
  have invariant_ {base : Nat} {l l' : AttemptLimiter} {labels : List Label} (ok : l.Consistent)
      (w : Tracks (Since c base) x l) (along : AllSteps (step c) (Orderly c x) l labels)
      (run : exec (step c) l labels = some l') : l'.Consistent ∧ Tracks (Since c base) x l' :=
    invariant_along (step c) (Orderly c x) (fun l => l.Consistent ∧ Tracks (Since c base) x l)
      (fun _ _ _ orderly inv taken => ⟨inv.1.step taken, Since.step inv.1 inv.2 orderly taken⟩)
      l l' labels ⟨ok, w⟩ along run
  have start : Tracks (Since c 0) x init := .init_ ⟨Nat.le_refl 0, nofun⟩
  obtain ⟨ok, w⟩ := invariant_ .init_ start first reached
  have anew := Since.succeed ok w found own runs here (Nat.le_refl (s.failedOf x))
  have same : s' = (s.settle i a .succeeded).remove a.record := by
    simpa [step, found, runs] using taken.symm
  obtain ⟨_, after_⟩ := invariant_ (ok.step taken) (same ▸ anew) (second s' taken) rest
  by_contra locked
  simp only [lockedOut, Bool.not_eq_false, Option.any_eq_true, AttemptRecord.blocked] at locked
  obtain ⟨p, tracked, u, until_, _⟩ := locked
  refine absurd (after_.view.blocked (t.heap p) (by rw [tracked]; rfl) ?_) (Nat.not_le.mpr few)
  rw [until_]
  rfl

/-- Three of five attempts fail, one succeeds, and then the last one fails. -/
def overtaken : List Label :=
  List.replicate 5 (.begin_ "ana@example.com" 0 0) ++ (List.range 3).map (fun i => .failed i 0 0) ++
    [.succeeded 3, .failed 4 0 0]

/-- It brings the three failures back, and the second failure after the success locks the address
out. -/
theorem locked_by_two : (exec (step loginLimits) init (overtaken.take 9)).map
      (failedOf · "ana@example.com") = some 3 ∧
    AllSteps (step loginLimits) (HasRoom loginLimits) init
      (overtaken ++ [.begin_ "ana@example.com" 0 0, .failed 5 0 0]) ∧
    (exec (step loginLimits) init (overtaken ++ [.begin_ "ana@example.com" 0 0, .failed 5 0 0])).map
      (fun l => (l.failedOf "ana@example.com", l.lockedOut "ana@example.com" 0)) =
      some (5, true) := by decide +kernel

/-- The tries of an address from the `n`-th attempt on, each of which fails. -/
def fourFail (n : Nat) : List Label :=
  (List.range 4).flatMap fun i => [.begin_ "ana@example.com" 0 0, .failed (n + i) 0 0]

/-- Four attempts fail, one succeeds and four more fail. -/
theorem unlocked_after_four : ∃ s t,
    exec (step loginLimits) init (fourFail 0 ++ [.begin_ "ana@example.com" 0 0]) = some s ∧
    exec (step loginLimits) s (.succeeded 4 :: fourFail 5) = some t ∧
    s.failedOf "ana@example.com" = 4 ∧ t.failedOf "ana@example.com" = 8 ∧
    t.lockedOut "ana@example.com" 0 = false := by
  have along : AllSteps (step loginLimits) (Orderly loginLimits "ana@example.com") init
      ((fourFail 0 ++ [.begin_ "ana@example.com" 0 0]) ++ .succeeded 4 :: fourFail 5) := by decide +kernel
  have runs : ∃ s ∈ exec (step loginLimits) init (fourFail 0 ++ [.begin_ "ana@example.com" 0 0]),
      s.attempts[4]? = some ⟨0, .running, "ana@example.com", 0⟩ ∧ s.failedOf "ana@example.com" = 4 ∧
      ∃ t ∈ exec (step loginLimits) s (.succeeded 4 :: fourFail 5),
        t.failedOf "ana@example.com" = 8 := by decide +kernel
  obtain ⟨s, reached, found, four, t, run, eight⟩ := runs
  exact ⟨s, t, reached, run, four, eight, unlocked_since_success loginLimits _ along reached found
    rfl rfl run (by rw [four, eight]; decide) 0⟩

end Panmail.Auth.AttemptLimiter
