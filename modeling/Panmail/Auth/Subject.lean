import Panmail.Auth.AttemptLimiter

/-!
# What the limiter keeps of one subject

The budget of a subject depends on its own attempts and on the record the table has of it. Calls
about other subjects leave both alone while the table has room. A call about the subject expires,
drops or makes its record, and charges or releases units of it.
-/
namespace Panmail.Auth.AttemptLimiter

open Runs List AttemptRecord AttemptLimiter Attempt

variable {c : Limits} {x subject : String} {l l' : AttemptLimiter} {p : Nat} {r : AttemptRecord}
  {a : Attempt}

def mine (l : AttemptLimiter) (x : String) : List Attempt :=
  l.attempts.filter fun a => a.subject = x

def hasFailed (a : Attempt) : Bool := a.outcome = .failed

def Holds (p : Nat) (r : AttemptRecord) (l : AttemptLimiter) : Prop :=
  p ∈ l.recency ∧ l.heap p = r

theorem mem_mine : a ∈ l.mine x ↔ a ∈ l.attempts ∧ a.subject = x := by simp [mine]

theorem insert_heap_made : (l.insert subject).heap l.made = ⟨subject, 0, 0, 0, none⟩ :=
  Function.update_self ..

theorem makeRoom_heap (now : Nat) : (l.makeRoom c now).heap = l.heap := by
  obtain ⟨_, _, after⟩ := makeRoom_eq c l now
  rw [after]

theorem holds_of_lookup (found : l.lookup x = some p) : Holds p (l.heap p) l :=
  ⟨(lookup_some found).1, rfl⟩

theorem expire_free {now : Nat} (free : (r.expire c now).blocked now = false) :
    (r.expire c now).blockedUntil = none := by
  have kept : (r.expire c now).blockedUntil = (r.unblock now).blockedUntil := by
    unfold expire forget
    split <;> rfl
  rw [blocked, kept] at free
  rw [kept]
  unfold unblock at free ⊢
  split
  next => rfl
  next blocks =>
    rw [if_neg blocks] at free
    cases until_ : r.blockedUntil with
    | none => rfl
    | some =>
      simp only [blocked, until_, Option.isSome_some, Option.any_some, Bool.true_and,
        Bool.not_eq_true', decide_eq_false_iff_not] at blocks free
      exact absurd free blocks

/-! ### Calls about other subjects -/

/-- The states have the same of a subject. -/
structure Agrees (x : String) (l l' : AttemptLimiter) : Prop where
  mine : l'.mine x = l.mine x
  clock : l'.clock = l.clock
  holds : ∀ p r, r.subject = x → (Holds p r l' ↔ Holds p r l)

namespace Agrees

theorem trans {l'' : AttemptLimiter} (first : Agrees x l l') (second : Agrees x l' l'') :
    Agrees x l l'' where
  mine := second.mine.trans first.mine
  clock := second.clock.trans first.clock
  holds p r about := (second.holds p r about).trans (first.holds p r about)

theorem of_pointer (mine : l'.mine x = l.mine x) (clock : l'.clock = l.clock)
    (was : p ∈ l.recency → (l.heap p).subject ≠ x) (becomes : (l'.heap p).subject ≠ x)
    (rest : ∀ q, q ≠ p → (q ∈ l'.recency ↔ q ∈ l.recency) ∧ l'.heap q = l.heap q) :
    Agrees x l l' := by
  refine ⟨mine, clock, fun q r about => ?_⟩
  by_cases here : q = p
  · subst here
    constructor
    · rintro ⟨_, rfl⟩
      exact absurd about becomes
    · rintro ⟨there, rfl⟩
      exact absurd about (was there)
  · obtain ⟨listed, same⟩ := rest q here
    rw [Holds, Holds, listed, same]

theorem update {f : AttemptRecord → AttemptRecord} (keeps : Keeps f)
    (other : (l.heap p).subject ≠ x) : Agrees x l (l.update p f) := by
  refine of_pointer rfl rfl (fun _ => other) ?_ fun q away => ⟨Iff.rfl, ?_⟩
  · rw [update_heap, if_pos rfl, (keeps _).1]
    exact other
  · rw [update_heap, if_neg away]

theorem of_room (room : l.recency.length < c.capacity) (now : Nat) :
    Agrees x l (l.makeRoom c now) := by
  rw [makeRoom_of_room room]
  exact ⟨rfl, rfl, fun _ _ _ => Iff.rfl⟩

theorem remove (other : (l.heap p).subject ≠ x) : Agrees x l (l.remove p) :=
  of_pointer rfl rfl (fun _ => other) other fun _ away => ⟨mem_erase_of_ne away, rfl⟩

theorem pushBack (other : (l.heap p).subject ≠ x) : Agrees x l (l.pushBack p) :=
  of_pointer rfl rfl (fun _ => other) other fun _ away =>
    ⟨by simp [AttemptLimiter.pushBack, away], rfl⟩

theorem insert (ok : l.Consistent) (other : subject ≠ x) : Agrees x l (l.insert subject) := by
  refine of_pointer (p := l.made) rfl rfl ?_ ?_ fun q away => ⟨?_, Function.update_of_ne away ..⟩
  · exact fun there => absurd (ok.taken _ there) (Nat.lt_irrefl _)
  · rw [insert_heap_made]
    exact other
  · simp [AttemptLimiter.insert, away]

theorem reserve (now : Nat) (other : (l.heap p).subject ≠ x) : Agrees x l (l.reserve p now) := by
  refine of_pointer ?_ rfl (fun _ => other) ?_ fun q away => ⟨?_, ?_⟩
  · simp [AttemptLimiter.mine, other]
  · rw [reserve_heap, if_pos rfl]
    exact other
  · simp [away, mem_erase_of_ne away]
  · rw [reserve_heap, if_neg away]

theorem settle (ok : l.Consistent) {i : Nat} (found : l.attempts[i]? = some a)
    (other : a.subject ≠ x) (outcome : Outcome) : Agrees x l (l.settle i a outcome) := by
  have about : (l.heap a.record).subject ≠ x :=
    (ok.named a (mem_of_getElem? found)).2 ▸ other
  refine of_pointer ?_ rfl (fun _ => about) ?_ fun q away => ⟨Iff.rfl, ?_⟩
  · exact filter_set_of_not found (decide_eq_false other) (decide_eq_false other)
  · rw [settle_heap, if_pos rfl]
    exact about
  · rw [settle_heap, if_neg away]

theorem enter (ok : l.Consistent) (other : subject ≠ x) {now later : Nat}
    (makes : l.lookup subject = none → Agrees x l (l.makeRoom c later)) :
    Agrees x l (l.enter c subject now later).1 := by
  have expired (q : Nat) (found : l.lookup subject = some q) :
      Agrees x l (l.update q (expire c now)) :=
    update (expire_keeps c now) ((lookup_some found).2 ▸ other)
  rcases enter_cases c l subject now later with
    ⟨q, found, after⟩ | ⟨q, found, _, _, after⟩ | ⟨absent, after⟩
  · rw [after]
    exact expired q found
  · rw [after]
    refine (expired q found).trans (reserve now ?_)
    rw [update_heap, if_pos rfl, (expire_keeps c now _).1, (lookup_some found).2]
    exact other
  · rw [after]
    refine ((makes absent).trans (insert (ok.makeRoom later) other)).trans (reserve now ?_)
    rw [insert_heap_made]
    exact other

theorem countFailure (other : (l.heap p).subject ≠ x) {now later : Nat}
    (makes : (l.update p (fail c 1 now)).lookup (l.heap p).subject = none →
      Agrees x (l.update p (fail c 1 now))
        ((l.update p (fail c 1 now)).makeRoom c later)) :
    Agrees x l (l.countFailure c p now later) := by
  have counted : Agrees x l (l.update p (fail c 1 now)) :=
    update (fail_keeps c 1 now) other
  rcases countFailure_cases c l p now later with
    ⟨_, after⟩ | ⟨q, _, found, after⟩ | ⟨absent, after⟩
  · rw [after]
    exact counted
  · rw [after]
    refine counted.trans (update (fail_keeps c _ later) ?_)
    rw [(lookup_some found).2]
    exact other
  · rw [after]
    refine (counted.trans (makes absent)).trans (pushBack ?_)
    rw [makeRoom_heap, update_heap, if_pos rfl, (fail_keeps c 1 now _).1]
    exact other

end Agrees

/-! ### Calls about the subject -/

/-- One attempt of a list has got its outcome. -/
structure Settles (a : Attempt) (outcome : Outcome) (own own' : List Attempt) : Prop where
  was : a ∈ own
  mem : ∀ b ∈ own', b ∈ own ∨ b = { a with outcome := outcome }
  count : ∀ P : Attempt → Bool, own'.countP P + (if P a then 1 else 0) =
    own.countP P + if P { a with outcome := outcome } then 1 else 0

theorem settles {i : Nat} (found : l.attempts[i]? = some a) (own : a.subject = x)
    (outcome : Outcome) : Settles a outcome (l.mine x) ((l.settle i a outcome).mine x) := by
  have was : a ∈ l.mine x := mem_mine.mpr ⟨mem_of_getElem? found, own⟩
  refine ⟨was, fun b mem => ?_, fun P => ?_⟩
  · obtain ⟨there, about⟩ := mem_mine.mp mem
    exact (mem_or_eq_of_mem_set there).imp_left fun old => mem_mine.mpr ⟨old, about⟩
  · obtain ⟨bound, entry⟩ := List.getElem?_eq_some_iff.mp found
    have least : (if P a && a.subject = x then 1 else 0) ≤
        l.attempts.countP fun b => P b && b.subject = x := by
      split
      next counts => exact countP_pos_iff.mpr ⟨a, mem_of_getElem? found, counts⟩
      next => exact Nat.zero_le _
    simp only [own, decide_true, Bool.and_true] at least
    rw [mine, mine, countP_filter, countP_filter, settle_attempts,
      countP_set bound, entry]
    simp only [own, decide_true, Bool.and_true]
    omega

/-- What the calls about a subject keep of its attempts and its record in the table. -/
structure Stable (c : Limits) (x : String)
    (P : Nat → List Attempt → Option AttemptRecord → Prop) : Prop where
  later : ∀ {now then_ own r}, P now own r → now ≤ then_ → P then_ own r
  swept : ∀ {now own r}, P now own (some r) → swept c now r → P now own none
  expire : ∀ {now own r}, P now own (some r) → P now own (some (r.expire c now))
  fresh : ∀ {now own}, P now own none → P now own (some ⟨x, 0, 0, 0, none⟩)
  admits : ∀ {now own r} (p), P now own (some r) → r.blockedUntil = none →
    r.failures + r.inFlight < c.max → own.countP Attempt.running ≤ r.inFlight →
    P now (own ++ [⟨p, .running, x, now⟩])
      (some { r with inFlight := r.inFlight + 1, lastTry := now })
  abandons : ∀ {now own own' r a}, P now own (some r) → a.running →
    Settles a .abandoned own own' → P now own' (some { r with inFlight := r.inFlight - 1 })
  fails : ∀ {now own own' r a}, P now own (some r) → a.running → Settles a .failed own own' →
    P now own' (some ({ r with inFlight := r.inFlight - 1 }.fail c 1 now))

/-- The running attempts hold units of the subject's record in the table, and the property is true
of it and the attempts. -/
structure Tracks (P : Nat → List Attempt → Option AttemptRecord → Prop) (x : String)
    (l : AttemptLimiter) : Prop where
  held : ∀ a ∈ l.mine x, a.running → a.record ∈ l.recency
  tracked : ∀ p r, Holds p r l → r.subject = x → P l.clock (l.mine x) (some r)
  untracked : (∀ p r, Holds p r l → r.subject ≠ x) → P l.clock (l.mine x) none

namespace Tracks
variable {P Q : Nat → List Attempt → Option AttemptRecord → Prop}

theorem init_ (none_ : P 0 [] none) : Tracks P x init where
  held _ mem := nomatch mem
  tracked _ _ there := nomatch there.1
  untracked _ := none_

theorem of_holds (ok : l.Consistent) (held : ∀ a ∈ l.mine x, a.running → a.record ∈ l.recency)
    (there : Holds p r l) (about : r.subject = x) (view : P l.clock (l.mine x) (some r)) :
    Tracks P x l where
  held := held
  tracked q r' at_ about' := by
    have same : q = p := ok.same at_.1 there.1 (by rw [at_.2, there.2, about, about'])
    subst same
    obtain rfl := at_.2.symm.trans there.2
    exact view
  untracked absent := absurd about (absent p r there)

section
variable (ok : l.Consistent) (w : Tracks P x l)
include w

theorem tick (stable : Stable c x P) {now : Nat} (since : l.clock ≤ now) :
    Tracks P x (l.tick now) where
  held := w.held
  tracked p r there about := stable.later (w.tracked p r there about) since
  untracked absent := stable.later (w.untracked absent) since

include ok

theorem frame (agrees : Agrees x l l') : Tracks P x l' := by
  constructor
  case held =>
    intro a mem runs
    rw [agrees.mine] at mem
    have own := mem_mine.mp mem
    have about := (ok.named a own.1).2.trans own.2
    exact ((agrees.holds _ _ about).mpr ⟨w.held a mem runs, rfl⟩).1
  case tracked =>
    intro p r there about
    rw [agrees.mine, agrees.clock]
    exact w.tracked p r ((agrees.holds p r about).mp there) about
  case untracked =>
    intro absent
    rw [agrees.mine, agrees.clock]
    exact w.untracked fun p r there about => absent p r ((agrees.holds p r about).mpr there) about

theorem maybeSweep (stable : Stable c x P) : Tracks P x (l.maybeSweep c l.clock) := by
  unfold AttemptLimiter.maybeSweep
  split
  · exact w
  constructor
  case held =>
    intro a mem runs
    refine mem_filter.mpr ⟨w.held a mem runs, ?_⟩
    -- a running attempt holds a unit of its record, so its record is not swept
    have counted : 0 < (l.heap a.record).inFlight := by
      rw [ok.inFlight]
      exact countP_pos_iff.mpr ⟨a, (mem_mine.mp mem).1, by simp [holds, runs]⟩
    simp [swept, Nat.ne_of_gt counted]
  case tracked =>
    exact fun p r there about => w.tracked p r ⟨mem_of_mem_filter there.1, there.2⟩ about
  case untracked =>
    intro absent
    by_cases before : ∃ p r, Holds p r l ∧ r.subject = x
    · obtain ⟨p, r, there, about⟩ := before
      refine stable.swept (w.tracked p r there about) ?_
      by_contra kept
      refine absent p r ⟨mem_filter.mpr ⟨there.1, ?_⟩, there.2⟩ about
      simpa [there.2] using kept
    · exact w.untracked fun p r there about => before ⟨p, r, there, about⟩

theorem running_le (there : Holds p r l) (about : r.subject = x) :
    (l.mine x).countP running ≤ r.inFlight := by
  rw [← there.2, ok.inFlight, mine, countP_filter]
  refine countP_mono_left fun a mem both => ?_
  simp only [Bool.and_eq_true, decide_eq_true_eq] at both
  have held := w.held a (mem_mine.mpr ⟨mem, both.2⟩) both.1
  have same := ok.same held there.1
    (by rw [(ok.named a mem).2, both.2, there.2, about])
  simp [holds, both.1, same]

theorem reserve (stable : Stable c x P) (there : Holds p r l) (about : r.subject = x)
    (free : r.blockedUntil = none) (below : r.failures + r.inFlight < c.max) :
    Tracks P x (l.reserve p l.clock) := by
  have own : (l.reserve p l.clock).mine x = l.mine x ++ [⟨p, .running, x, l.clock⟩] := by
    simp [mine, there.2, about]
  have kept (q : Nat) : q ∈ (l.reserve p l.clock).recency ↔ q ∈ l.recency := by
    have moved : (l.recency.erase p ++ [p]).Perm l.recency :=
      (perm_append_singleton ..).trans (perm_cons_erase there.1).symm
    exact moved.mem_iff
  have charged : Holds p { r with inFlight := r.inFlight + 1, lastTry := l.clock }
      (l.reserve p l.clock) := ⟨(kept p).mpr there.1, by rw [reserve_heap, if_pos rfl, there.2]⟩
  refine of_holds (ok.reserve there.1 rfl) ?_ charged about ?_
  · rw [own]
    exact forall_mem_concat (fun a mem runs => (kept _).mpr (w.held a mem runs))
      fun _ => charged.1
  · rw [own]
    exact stable.admits p (w.tracked p r there about) free below (w.running_le ok there about)

theorem enter (stable : Stable c x P) (room : l.recency.length < c.capacity) (later : Nat) :
    Tracks P x (l.enter c x l.clock later).1 := by
  have expired (q : Nat) (found : l.lookup x = some q) :
      Holds q ((l.heap q).expire c l.clock) (l.update q (expire c l.clock)) ∧
      ((l.heap q).expire c l.clock).subject = x ∧
      Tracks P x (l.update q (expire c l.clock)) := by
    have there := holds_of_lookup found
    have now_ : Holds q _ (l.update q (expire c l.clock)) :=
      ⟨there.1, Function.update_self ..⟩
    have about := (expire_keeps c l.clock (l.heap q)).1.trans (lookup_some found).2
    refine ⟨now_, about, of_holds (ok.update q (expire_keeps c l.clock)) w.held now_ about ?_⟩
    exact stable.expire (w.tracked q _ there (lookup_some found).2)
  rcases enter_cases c l x l.clock later with
    ⟨q, found, after⟩ | ⟨q, found, free, below, after⟩ | ⟨absent, after⟩
  · rw [after]
    exact (expired q found).2.2
  · obtain ⟨there, about, still⟩ := expired q found
    rw [after]
    exact still.reserve (ok.update q (expire_keeps c l.clock)) stable there about
      (expire_free free) below
  · rw [after, makeRoom_of_room room]
    have there : Holds l.made ⟨x, 0, 0, 0, none⟩ (l.insert x) :=
      ⟨mem_append_right _ mem_cons_self, insert_heap_made⟩
    have made : Tracks P x (l.insert x) := by
      refine of_holds (ok.insert absent) ?_ there rfl (stable.fresh (w.untracked ?_))
      · exact fun a mem runs => mem_append_left _ (w.held a mem runs)
      · rintro p r ⟨mem, rfl⟩
        exact lookup_none absent p mem
    exact made.reserve (ok.insert absent) stable there rfl rfl c.max_pos

section
variable {i : Nat} (found : l.attempts[i]? = some a) (own : a.subject = x) (runs : a.running)
include found own runs

theorem settle {outcome : Outcome} (ended : outcome ≠ .running)
    {f : AttemptRecord → AttemptRecord} (keeps : Keeps f)
    (view : ∀ r, P l.clock (l.mine x) (some r) → P l.clock ((l.settle i a outcome).mine x)
      (some (f { r with inFlight := r.inFlight - 1 }))) :
    Tracks P x ((l.settle i a outcome).update a.record f) := by
  have among := mem_of_getElem? found
  have mem : a.record ∈ l.recency := w.held a (mem_mine.mpr ⟨among, own⟩) runs
  have about : (l.heap a.record).subject = x := (ok.named a among).2.trans own
  refine of_holds (p := a.record) ((ok.settle found runs ended).update _ keeps) ?_ ⟨mem, rfl⟩ ?_ ?_
  · intro b there still
    rcases (settles found own outcome).mem b there with old | rfl
    · exact w.held b old still
    · simp [running, ended] at still
  · rw [update_heap, if_pos rfl, (keeps _).1, settle_heap, if_pos rfl]
    exact about
  · rw [update_heap, if_pos rfl, settle_heap, if_pos rfl]
    exact view _ (w.tracked _ _ ⟨mem, rfl⟩ about)

/-- A success while no other attempt of the subject runs: the subject has no record. -/
theorem succeed (alone : (l.mine x).countP running ≤ 1)
    (view : Q l.clock ((l.settle i a .succeeded).mine x) none) :
    Tracks Q x ((l.settle i a .succeeded).remove a.record) := by
  have among := mem_of_getElem? found
  have mem : a.record ∈ l.recency := w.held a (mem_mine.mpr ⟨among, own⟩) runs
  have about : (l.heap a.record).subject = x := (ok.named a among).2.trans own
  have shaped := ok.settle found runs (by decide : Outcome.succeeded ≠ .running)
  have gone (p : Nat) (r : AttemptRecord)
      (there : Holds p r ((l.settle i a .succeeded).remove a.record)) : r.subject ≠ x := by
    rintro rfl
    have listed := (shaped.nodup.mem_erase_iff).mp there.1
    refine listed.1 (shaped.same listed.2 mem ?_)
    exact (congrArg _ there.2).trans (by rw [settle_heap, if_pos rfl, about])
  refine ⟨fun b there still => ?_, fun p r there here => absurd here (gone p r there), fun _ => view⟩
  -- two attempts would have been running
  have count := (settles found own .succeeded).count running
  have still_ : 0 < ((l.settle i a .succeeded).mine x).countP running :=
    countP_pos_iff.mpr ⟨b, there, still⟩
  simp only [runs, if_true, show running { a with outcome := .succeeded } = false from rfl,
    Bool.false_eq_true, if_false] at count
  omega

end

theorem step (stable : Stable c x P) (room : l.recency.length < c.capacity) {label : Label}
    (succeeds : ∀ i a, label = .succeeded i → l.attempts[i]? = some a → a.subject = x →
      a.running → Tracks P x ((l.settle i a .succeeded).remove a.record))
    (taken : step c l label = some l') : Tracks P x l' := by
  rcases step_cases taken with ⟨subject, now, later, -, since, order, rfl⟩ |
    ⟨i, a, rfl, found, runs, rfl⟩ | ⟨i, a, now, later, -, found, runs, since, order, rfl⟩ |
    ⟨i, a, -, found, runs, rfl⟩ | rfl
  · -- an attempt begins: the record of its own subject is entered, any other is kept
    have ticked := ok.tick since
    have shaped := ticked.maybeSweep now (c := c)
    have swept : Tracks P x ((l.tick now).maybeSweep c now) :=
      (w.tick stable since).maybeSweep ticked stable
    have clock := maybeSweep_clock c (l.tick now) now
    have fits : ((l.tick now).maybeSweep c now).recency.length < c.capacity := by
      obtain ⟨kept, last, sub, after⟩ := maybeSweep_eq c (l.tick now) now
      rw [after]
      exact Nat.lt_of_le_of_lt sub.length_le room
    refine tick ?_ stable ?_
    · by_cases own : subject = x
      · subst own
        have entered := swept.enter shaped stable fits later
        rwa [clock] at entered
      · exact swept.frame shaped (.enter shaped own fun _ => .of_room fits later)
    · rw [begin_, enter_clock, clock]
      exact order
  · by_cases own : a.subject = x
    · -- a success forgets the subject, which is for the caller to judge
      exact succeeds i a rfl found own runs
    · have shaped := ok.settle found runs (by decide : Outcome.succeeded ≠ .running)
      refine w.frame ok ((Agrees.settle ok found own .succeeded).trans (.remove ?_))
      rw [(shaped.named _ (mem_set_here _ found)).2]
      exact own
  · have ticked := ok.tick since
    have shaped := ticked.settle found runs (by decide : Outcome.failed ≠ .running)
    refine tick ?_ stable (Nat.le_trans (Nat.le_of_eq (countFailure_clock ..)) order)
    by_cases own : a.subject = x
    · -- the record of a running attempt is there, so the failure is counted on it
      have held := w.held a (mem_mine.mpr ⟨mem_of_getElem? found, own⟩) runs
      rw [shaped.countFailure_tracked held]
      exact (w.tick stable since).settle ticked found own runs (by decide) (fail_keeps c 1 now)
        fun r before => stable.fails before runs (settles found own .failed)
    · have about := (shaped.named _ (mem_set_here _ found)).2
      refine (w.tick stable since).frame ticked ((Agrees.settle ticked found own _).trans
        (.countFailure (about.symm ▸ own) fun _ => .of_room ?_ later))
      exact room
  · by_cases own : a.subject = x
    · have after := w.settle ok found own runs (by decide : Outcome.abandoned ≠ .running) (f := id)
        (fun _ => ⟨rfl, rfl⟩) fun r before => stable.abandons before runs (settles found own _)
      rwa [update, id, Function.update_eq_self] at after
    · exact w.frame ok (.settle ok found own .abandoned)
  · exact w

omit ok in
theorem view : P l.clock (l.mine x) ((l.lookup x).map l.heap) := by
  cases found : l.lookup x with
  | none =>
    refine w.untracked ?_
    rintro p r ⟨mem, rfl⟩
    exact lookup_none found p mem
  | some p => exact w.tracked p _ (holds_of_lookup found) (lookup_some found).2

end

end Tracks

end Panmail.Auth.AttemptLimiter
