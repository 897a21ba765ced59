import Panmail.RateLimit.Lookup

/-!
# What a charge does to a debt

An ordinary charge lowers the balance of a bucket. A cost the bucket can never hold empties
it: that takes what it held, and where it was in debt forgives the debt.
-/
namespace Panmail.RateLimit

open Runs List

def World.charges (w : World) : Call → List Charge
  | .allow key limit cost now => (w.limiter.allow key limit cost now).charges
  | .allowAll reqs cost now => (w.limiter.allowAll reqs cost now).charges
  | .reserveAll reqs cost now => (w.limiter.reserveAll reqs cost now).charges
  | .cancel _ | .forget _ => []

/-- No charge leaves a bucket with more than it held at that moment, time having refilled it. -/
def World.NeverForgives (w : World) (c : Call) : Prop := ∀ x ∈ w.charges c, x.after ≤ x.before

/-- No cost meets a bucket that can never hold it and is in debt. -/
def World.Solvent (w : World) (c : Call) : Prop :=
  ∀ x ∈ w.charges c, x.oversized = true → 0 ≤ x.before

/-- What the requests of a call do: they look buckets up, and charge them one at a time. A charge is
oversized if the limit it is asked under can never hold the cost, and is logged with the balances
around it. -/
inductive Charged (reqs : List LimitRequest) (cost now : ℚ) (l : Limiter) :
    List Charge → Limiter → Prop
  | start : Charged reqs cost now l [] l
  | look {log : List Charge} {m : Limiter} (key : String) (limit : Limit) :
      Charged reqs cost now l log m → Charged reqs cost now l log (m.look key limit now).1
  | charge {log : List Charge} {m : Limiter} {req : LimitRequest} {b : Bucket} {spend after : ℚ} :
      Charged reqs cost now l log m → req ∈ reqs → m.buckets.lookup req.key = some b → 0 ≤ spend →
      after = (if req.limit.capacity < cost then 0 else b.tokens - spend) →
      Charged reqs cost now l (log ++ [⟨req.key, req.limit.capacity < cost, b.tokens, after⟩])
        (m.store req.key { b with tokens := after })

/-- The charges of a call are what it does to the stored balances. -/
def World.Logged (w : World) : Call → Prop
  | .allow key limit cost now => Charged [⟨key, limit⟩] (want cost) now w.limiter
      (w.charges (.allow key limit cost now)) (w.limiter.allow key limit cost now).limiter
  | .allowAll reqs cost now => Charged reqs (want cost) now w.limiter
      (w.charges (.allowAll reqs cost now)) (w.limiter.allowAll reqs cost now).limiter
  | .reserveAll reqs cost now => Charged reqs (want cost) now w.limiter
      (w.charges (.reserveAll reqs cost now)) (w.limiter.reserveAll reqs cost now).limiter
  | .cancel i => w.charges (.cancel i) = []
  | .forget key => w.charges (.forget key) = []

/-! ### The log is of the stored balances -/

/-- A decision to charge a request of the call. -/
structure Decided (reqs : List LimitRequest) (cost : ℚ) (key : String) (d : Decision) : Prop where
  asked : ∃ req ∈ reqs, req.key = key ∧ d.empty = decide (req.limit.capacity < cost)
  spend : 0 ≤ d.spend
  allowed : d.empty = true → d.allowed = true

section
variable {reqs : List LimitRequest} {cost now : ℚ} {l m : Limiter} {log : List Charge}

theorem decided_assess (positive : 0 < cost) (req : LimitRequest) (asked : req ∈ reqs) :
    Decided reqs cost req.key (assess (m.look req.key req.limit now).2 cost) := by
  have rated := look_rated m req.key req.limit now
  unfold assess
  split
  next above => exact ⟨⟨req, asked, rfl, by simpa [rated.2] using above⟩, le_refl _, fun _ => rfl⟩
  next within =>
    have fits : false = decide (req.limit.capacity < cost) := by simpa [rated.2] using within
    split
    · exact ⟨⟨req, asked, rfl, fits⟩, le_of_lt positive, fun _ => rfl⟩
    · exact ⟨⟨req, asked, rfl, fits⟩, le_refl _, nofun⟩

theorem charged_settle {key : String} {d : Decision} (charged : Charged reqs cost now l log m)
    (decided : Decided reqs cost key d) :
    Charged reqs cost now l (log ++ (m.settle key d).2) (m.settle key d).1 := by
  unfold Limiter.settle
  split
  next b found =>
    obtain ⟨⟨req, asked, rfl, above⟩, spend, allowed⟩ := decided
    have same : { b with tokens := (d.apply b).tokens } = d.apply b := by
      unfold Decision.apply
      split
      · rfl
      · split <;> rfl
    rw [above, ← same]
    -- a decision that refuses spends nothing
    have spent : 0 ≤ if d.allowed then d.spend else 0 := by
      split
      · exact spend
      · exact le_refl _
    refine charged.charge asked found spent ?_
    by_cases big : req.limit.capacity < cost
    · simp [Decision.apply, above, big, allowed (by simp [above, big])]
    · cases granted : d.allowed <;> simp [Decision.apply, above, big, granted]
  · rwa [append_nil]

theorem charged_assessing (positive : 0 < cost) (rest : List LimitRequest) (acc : Assessing)
    (inside : rest ⊆ reqs) (charged : Charged reqs cost now l [] acc.limiter)
    (decided : ∀ p ∈ acc.decisions, Decided reqs cost p.1 p.2) :
    Charged reqs cost now l [] (rest.foldl (Assessing.next cost now) acc).limiter ∧
      ∀ p ∈ (rest.foldl (Assessing.next cost now) acc).decisions, Decided reqs cost p.1 p.2 := by
  induction rest generalizing acc with
  | nil => exact ⟨charged, decided⟩
  | cons req _ ih =>
    obtain ⟨asked, inside⟩ := cons_subset.mp inside
    rw [foldl_cons]
    unfold Assessing.next
    split
    · exact ih acc inside charged decided
    · exact ih _ inside (charged.look req.key req.limit)
        (forall_mem_concat decided (decided_assess positive req asked))

theorem charged_settleAll (decisions : List (String × Decision)) (acc : Limiter × List Charge)
    (decided : ∀ p ∈ decisions, Decided reqs cost p.1 p.2)
    (charged : Charged reqs cost now l acc.2 acc.1) : Charged reqs cost now l
      (decisions.foldl settleAll acc).2 (decisions.foldl settleAll acc).1 := by
  induction decisions generalizing acc with
  | nil => exact charged
  | cons p _ ih =>
    refine ih _ (fun q mem => decided q (mem_cons_of_mem _ mem)) ?_
    exact charged_settle charged (decided p mem_cons_self)

theorem charged_reserving (positive : 0 < cost) (rest : List LimitRequest) (acc : Reserving)
    (inside : rest ⊆ reqs) (charged : Charged reqs cost now l acc.charges acc.limiter) :
    Charged reqs cost now l (rest.foldl (Reserving.next cost now) acc).charges
      (rest.foldl (Reserving.next cost now) acc).limiter := by
  induction rest generalizing acc with
  | nil => exact charged
  | cons req _ ih =>
    obtain ⟨asked, inside⟩ := cons_subset.mp inside
    refine ih _ inside ?_
    unfold Reserving.next
    split
    · exact charged
    · have rated := (look_rated acc.limiter req.key req.limit now).2
      have stored := lookup_looked acc.limiter req.key req.limit now
      have spent := (charged.look req.key req.limit).charge asked stored (le_of_lt positive) rfl
      rw [← rated] at spent
      dsimp only
      split
      next above => simpa only [above, decide_true, if_true] using spent
      next within => simpa only [within, decide_false, if_false] using spent

theorem Charged.forgives_iff (charged : Charged reqs cost now l log m) :
    ∀ x ∈ log, x.after ≤ x.before ↔ (x.oversized = true → 0 ≤ x.before) := by
  induction charged with
  | start => exact nofun
  | look _ _ _ ih => exact ih
  | charge _ _ _ spend after ih =>
    refine forall_mem_concat ih ?_
    rw [after]
    split
    next above => simp [above]
    next within => simp [within, spend]

end

theorem logged (w : World) (c : Call) : w.Logged c := by
  cases c with
  | allow key limit cost now =>
    simp only [World.Logged, World.charges, Limiter.allow]
    split
    · exact .start
    · exact charged_settle (.look key limit .start)
        (decided_assess (want_pos cost) ⟨key, limit⟩ mem_cons_self)
  | allowAll reqs cost now =>
    have untouched : Charged reqs (want cost) now w.limiter [] w.limiter := .start
    obtain ⟨looked, decided⟩ := charged_assessing (want_pos cost) reqs ⟨w.limiter, true, 0, []⟩
      (Subset.refl reqs) untouched nofun
    simp only [World.Logged, World.charges, Limiter.allowAll]
    split
    · exact looked
    · exact charged_settleAll _ _ decided looked
  | reserveAll reqs cost => exact charged_reserving (want_pos cost) reqs _ (Subset.refl reqs) .start
  | cancel => rfl
  | forget => rfl

theorem neverForgives_iff (w : World) (c : Call) : w.NeverForgives c ↔ w.Solvent c := by
  have each : ∀ x ∈ w.charges c, x.after ≤ x.before ↔ (x.oversized = true → 0 ≤ x.before) := by
    have kept := logged w c
    cases c with
    | allow | allowAll | reserveAll => exact Charged.forgives_iff kept
    | cancel | forget => exact nofun
  exact forall₂_congr each

def twoAtOnce : Limit := ⟨60, 2⟩

/-- The bucket is emptied, put two into debt, and met by a cost of three. -/
def oversizedCalls : List Call :=
  [.reserveAll [⟨"t", twoAtOnce⟩] 2 0, .reserveAll [⟨"t", twoAtOnce⟩] 2 0,
    .reserveAll [⟨"t", twoAtOnce⟩] 3 0]

end Panmail.RateLimit
