import Panmail.RateLimit.Lookup

/-!
# The turns of a batch

`paceDelivery` at the limiter. A delivery reserves its turn; where the wait is short it keeps
the reservation and sleeps, and where it is long it cancels and is put back until the wait is
over. What a cancelled turn leaves behind is the bucket it found, so the next delivery of the
batch is told the same wait.
-/
namespace Panmail.RateLimit

open List

/-- Deliveries of one cost taking their turns one after another at the same instant: what each
is told. -/
def Limiter.turns (l : Limiter) (reqs : List LimitRequest) (pending : Nat) (now : ℚ) :
    List Bool → List (Option Nat)
  | [] => []
  | slept :: rest =>
    let (l, told) := l.paceDelivery reqs pending now slept
    told :: l.turns reqs pending now rest

/-- `reschedulePaced`: the time the delivery is put back to, in seconds. -/
def nextRetryAt (now : ℚ) (retryAfter : Nat) : ℚ := now + retryAfter / 1000000000

open Limiter Reserving

/-! ### One turn -/

section
variable {l : Limiter} {key : String} {limit : Limit} {now cost : ℚ} {b : Bucket}

/-- A reservation of one bucket that has to wait was charged into debt, and cancelling it leaves the
bucket that was found. -/
theorem reserve_cancel (looked : (l.look key limit now).2 = b)
    (made : next cost now ⟨l, 0, [], []⟩ ⟨key, limit⟩ = res)
    (taken : skipped ⟨key, limit⟩ = false) (waits : res.delay ≠ 0) :
    res.delay = max 0 { b with tokens := b.tokens - cost }.wait ∧
      (res.limiter.cancel res.held).buckets.lookup key = some b := by
  subst made
  simp only [Reserving.next, taken, Bool.false_eq_true, if_false, looked] at waits ⊢
  by_cases oversized : b.capacity < cost
  · simp [oversized] at waits
  · simp only [oversized, if_false] at waits ⊢
    refine ⟨trivial, ?_⟩
    -- a delay is a debt, so the balance found was below the cost and the cap does not bite
    have debt : b.tokens - cost < 0 := by
      by_contra credit
      simp [Bucket.wait, credit] at waits
    have room : min b.capacity b.tokens = b.tokens := min_eq_right (by linarith)
    simp [cancel, restore, lookup_store, room]

end

/-! ### A batch -/

section
variable {l : Limiter} {reqs : List LimitRequest} {key : String} {limit : Limit} {now : ℚ}
  {pending : Nat} {b : Bucket}

theorem reserveAll_taken (l : Limiter) (reqs : List LimitRequest) (cost : Int) (now : ℚ) :
    l.reserveAll (reqs.filter fun req => !skipped req) cost now = l.reserveAll reqs cost now := by
  rw [reserveAll, foldl_filter]
  congr 1
  funext acc req
  cases away : skipped req <;> simp [Reserving.next, away]

section
variable (only : (reqs.filter fun req => !skipped req) = [⟨key, limit⟩])
include only

theorem taken_of_only : skipped ⟨key, limit⟩ = false := by
  have mem : (⟨key, limit⟩ : LimitRequest) ∈ reqs.filter fun req => !skipped req := by simp [only]
  simpa using (mem_filter.mp mem).2

/-- A delivery that is put back is told the wait of the bucket it found, and the next one finds that
bucket again. -/
theorem paceDelivery_again (looked : (l.look key limit now).2 = b) {slept : Bool} {next : Limiter}
    {wait : Nat} (paced : l.paceDelivery reqs pending now slept = (next, some wait)) :
    wait = ⌊max 0 { b with tokens := b.tokens - want pending }.wait * 1000000000⌋₊ ∧
      (next.look key limit now).2 = b := by
  have taken := taken_of_only only
  have rated : b.Rated limit := looked ▸ look_rated l key limit now
  have refilled : b.refill now = b := looked ▸ refill_refill
  obtain ⟨res, made⟩ : ∃ res, Reserving.next (want pending) now ⟨l, 0, [], []⟩ ⟨key, limit⟩ = res :=
    ⟨_, rfl⟩
  have reserved : l.reserveAll reqs pending now = res := by
    rw [← reserveAll_taken, only]
    exact made
  unfold paceDelivery at paced
  rw [reserved] at paced
  dsimp only at paced
  split at paced
  · simp at paced
  · split at paced
    · simp at paced
    next waits =>
      have delayed : res.delay ≠ 0 := by
        intro none
        simp [Reserving.wait, none] at waits
      obtain ⟨delay, restored⟩ := reserve_cancel looked made taken delayed
      split at paced
      · simp only [Prod.mk.injEq, Option.some.injEq] at paced
        obtain ⟨rfl, rfl⟩ := paced
        refine ⟨by rw [wait, delay], ?_⟩
        simp only [look, bucketFor, restored, rated.rerate, refilled]
      · simp at paced

/-- All deliveries of a batch that are put back are told the same wait. -/
theorem turns_same (slept : List Bool) (waits : List Nat) (looked : (l.look key limit now).2 = b)
    (paced : l.turns reqs pending now slept = waits.map some) : ∀ wait ∈ waits,
      wait = ⌊max 0 { b with tokens := b.tokens - want pending }.wait * 1000000000⌋₊ := by
  induction slept generalizing l waits with
  | nil =>
    cases waits with
    | nil => exact nofun
    | cons => simp [turns] at paced
  | cons _ _ ih =>
    cases waits with
    | nil => simp [turns] at paced
    | cons _ waits =>
      simp only [turns, map_cons, List.cons.injEq] at paced
      obtain ⟨first, again⟩ := paceDelivery_again only looked (Prod.ext rfl paced.1)
      intro wait mem
      rcases mem_cons.mp mem with rfl | later
      · exact first
      · exact ih waits again paced.2 wait later

end

end

/-- Deliveries of one cost that take their turns at one bucket at the same instant, all put back,
are spread at the bucket's rate only if there is no more than one. -/
theorem spread_iff (l : Limiter) (reqs : List LimitRequest) (key : String) (limit : Limit)
    (only : (reqs.filter fun req => !skipped req) = [⟨key, limit⟩]) (pending : Nat) (now : ℚ)
    (slept : List Bool) (waits : List Nat)
    (paced : l.turns reqs pending now slept = waits.map some) :
    (∀ (k : Nat) first later, waits[0]? = some first → waits[k]? = some later →
        nextRetryAt now first + k * (want pending / rateOf limit) ≤ nextRetryAt now later) ↔
      waits.length ≤ 1 := by
  have taken := taken_of_only only
  have limited : limit.unlimited = false := limited_of_taken taken rfl
  have gap : 0 < want pending / rateOf limit := div_pos (want_pos _) (rateOf_pos limited)
  constructor
  · intro spread
    have same := turns_same only slept waits rfl paced
    match waits with
    | [] | [_] => simp
    | first :: second :: rest =>
      have equal : first = second :=
        (same first (by simp)).trans (same second (by simp)).symm
      have apart := spread 1 first second rfl rfl
      rw [equal, Nat.cast_one, one_mul] at apart
      linarith
  · intro few k first later at0 atk
    -- there is nothing but the first
    have here : k = 0 := by
      have inside := (List.getElem?_eq_some_iff.mp atk).1
      omega
    subst here
    rw [at0] at atk
    cases atk
    simp

def drained : Limiter := (Limiter.new.reserveAll [⟨"t|egress", ⟨60, 10⟩⟩] 10 0).limiter

/-- A single delivery of ten, put back for ten seconds. -/
theorem spread_alone :
    drained.turns [⟨"t|egress", ⟨60, 10⟩⟩, ⟨"t|egress|provider|p", ⟨0, 0⟩⟩] 10 0 [true] =
      [some 10000000000] ∧ ∀ (k : Nat) first later, [10000000000][0]? = some first →
      [10000000000][k]? = some later → nextRetryAt 0 first + k * (want 10 / rateOf ⟨60, 10⟩) ≤
        nextRetryAt 0 later := by
  have paced : drained.turns [⟨"t|egress", ⟨60, 10⟩⟩, ⟨"t|egress|provider|p", ⟨0, 0⟩⟩] 10 0 [true] =
      [some 10000000000] := by decide +kernel
  exact ⟨paced, (spread_iff drained _ "t|egress" ⟨60, 10⟩ (by decide) 10 0 [true] [10000000000]
    paced).mpr (by decide)⟩

/-- Two deliveries of ten, put back to the same moment. -/
theorem batch_back_at_once : drained.turns [⟨"t|egress", ⟨60, 10⟩⟩] 10 0 [true, true] =
      [some 10000000000, some 10000000000] ∧
    ¬ nextRetryAt 0 10000000000 + 1 * (want 10 / rateOf ⟨60, 10⟩) ≤ nextRetryAt 0 10000000000 := by
  decide +kernel

end Panmail.RateLimit
