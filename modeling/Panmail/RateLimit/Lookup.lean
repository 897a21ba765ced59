import Panmail.Lib.Run
import Panmail.RateLimit.Limiter

/-!
# What a call does to one bucket

Every operation begins by looking its buckets up. As long as no bucket is dropped, a lookup
changes the bucket it names and no other: a stored bucket is refilled to the moment of the
call, a new one is full.
-/
namespace Panmail.RateLimit

/-! ### Limits -/

variable {limit : Limit}

theorem capacity_pos (limited : limit.unlimited = false) : 0 < limit.capacity := by
  have positive : 0 < limit.perMinute := by simpa [Limit.unlimited] using limited
  unfold Limit.capacity
  split
  next burst => exact_mod_cast burst
  · exact_mod_cast positive

theorem rateOf_pos (limited : limit.unlimited = false) : 0 < rateOf limit := by
  have positive : 0 < limit.perMinute := by simpa [Limit.unlimited] using limited
  have cast : (0 : ℚ) < limit.perMinute := by exact_mod_cast positive
  exact div_pos cast (by norm_num)

theorem want_pos (cost : Int) : 0 < want cost := by
  unfold want
  split
  · exact one_pos
  next positive => exact_mod_cast Int.lt_of_not_ge positive

def Bucket.Rated (b : Bucket) (limit : Limit) : Prop :=
  b.perSec = rateOf limit ∧ b.capacity = limit.capacity

section
variable {b : Bucket} {now : ℚ}

theorem Bucket.Rated.rerate (rated : b.Rated limit) : b.rerate limit = b := by
  simp [Bucket.rerate, rated.1, rated.2]

theorem rated_full : (Bucket.full limit now).Rated limit := ⟨rfl, rfl⟩

@[simp] theorem refill_capacity : (b.refill now).capacity = b.capacity := by
  unfold Bucket.refill
  split <;> rfl

@[simp] theorem refill_perSec : (b.refill now).perSec = b.perSec := by
  unfold Bucket.refill
  split <;> rfl

@[simp] theorem refill_created : (b.refill now).created = b.created := by
  unfold Bucket.refill
  split <;> rfl

theorem Bucket.Rated.refill (rated : b.Rated limit) : (b.refill now).Rated limit :=
  ⟨refill_perSec.trans rated.1, refill_capacity.trans rated.2⟩

theorem refill_refilled (behind : b.refilled ≤ now) : (b.refill now).refilled = now := by
  unfold Bucket.refill
  split
  · rfl
  next still => exact le_antisymm behind (by simpa using still)

theorem refill_tokens (behind : b.refilled ≤ now) (within : b.tokens ≤ b.capacity) :
    (b.refill now).tokens =
      TokenBuckets.refill b.capacity b.perSec b.tokens (now - b.refilled) := by
  unfold Bucket.refill
  split
  · rfl
  next still =>
    have same : now - b.refilled = 0 := le_antisymm (not_lt.mp still) (sub_nonneg.mpr behind)
    simp [TokenBuckets.refill, same, within]

@[simp] theorem refill_refill : (b.refill now).refill now = b.refill now := by
  by_cases ahead : 0 < now - b.refilled
  · simp [Bucket.refill, ahead]
  · simp [Bucket.refill, ahead]

@[simp] theorem refill_full : (Bucket.full limit now).refill now = Bucket.full limit now := by
  simp [Bucket.refill, Bucket.full]

end

/-! ### The map -/

section
variable {l : Limiter} {key : String} {now : ℚ} {b : Bucket}

theorem lookup_store (l : Limiter) (key : String) (b : Bucket) (k : String) :
    (l.store key b).buckets.lookup k = if k = key then some b else l.buckets.lookup k := by
  split
  next same =>
    subst same
    exact AList.lookup_insert _
  next other => exact AList.lookup_insert_ne other

/-- The bucket of a key at a time: refilled, or full when there is none yet. -/
def Limiter.aged (l : Limiter) (limit : Limit) (now : ℚ) (key : String) : Bucket :=
  match l.buckets.lookup key with
  | some b => b.refill now
  | none => Bucket.full limit now

def Limiter.Rated (l : Limiter) (limits : String → Limit) : Prop :=
  ∀ key b, l.buckets.lookup key = some b → b.Rated (limits key)

theorem evictIfNeeded_quiet (quiet : (l.evictIfNeeded now).evictions = l.evictions) :
    l.evictIfNeeded now = l := by
  unfold Limiter.evictIfNeeded at quiet ⊢
  split
  · rfl
  next full =>
    rw [if_neg full] at quiet
    exact absurd quiet (Nat.succ_ne_self _)

theorem look_evictions (l : Limiter) (key : String) (limit : Limit) (now : ℚ) :
    l.evictions ≤ (l.look key limit now).1.evictions := by
  simp only [Limiter.look, Limiter.bucketFor, Limiter.evictIfNeeded]
  split
  · exact le_refl _
  · split
    · exact le_refl _
    · exact Nat.le_succ _

theorem lookup_looked (l : Limiter) (key : String) (limit : Limit) (now : ℚ) :
    (l.look key limit now).1.buckets.lookup key = some (l.look key limit now).2 :=
  AList.lookup_insert _

theorem look_rated (l : Limiter) (key : String) (limit : Limit) (now : ℚ) :
    (l.look key limit now).2.Rated limit := by
  suffices rated : (l.bucketFor key limit now).2.Rated limit from rated.refill
  unfold Limiter.bucketFor
  split
  · unfold Bucket.rerate
    split
    · exact ⟨rfl, rfl⟩
    next same => simpa [Bucket.Rated, not_or] using same
  · exact rated_full

section
variable {limits : String → Limit} (rated : l.Rated limits)
include rated

theorem look_bucket (key : String) (now : ℚ) :
    (l.look key (limits key) now).2 = l.aged (limits key) now key := by
  unfold Limiter.look Limiter.bucketFor Limiter.aged
  cases found : l.buckets.lookup key with
  | some b => simp [(rated key b found).rerate]
  | none => simp

theorem lookup_look (quiet : (l.look key (limits key) now).1.evictions = l.evictions)
    (k : String) : (l.look key (limits key) now).1.buckets.lookup k =
      if k = key then some (l.aged (limits key) now key) else l.buckets.lookup k := by
  have bucket := look_bucket rated key now
  unfold Limiter.look Limiter.bucketFor at quiet bucket ⊢
  cases found : l.buckets.lookup key with
  | some =>
    simp only [found] at bucket ⊢
    rw [lookup_store, lookup_store, bucket]
    split <;> rfl
  | none =>
    simp only [found] at quiet bucket ⊢
    have same : l.evictIfNeeded now = l := evictIfNeeded_quiet quiet
    rw [same, lookup_store, lookup_store, bucket]
    split <;> rfl

theorem aged_rated (key : String) (now : ℚ) : (l.aged (limits key) now key).Rated (limits key) := by
  unfold Limiter.aged
  split
  next b found => exact (rated key b found).refill
  · exact rated_full

end

theorem lookup_restore (l : Limiter) (h : Held) (k : String) :
    (l.restore h).buckets.lookup k = if k = h.key then (l.buckets.lookup k).map
      (fun b => { b with tokens := min b.capacity (b.tokens + h.restore) })
      else l.buckets.lookup k := by
  unfold Limiter.restore
  split
  next b found =>
    rw [lookup_store]
    split
    next here =>
      rw [here, found]
      rfl
    · rfl
  next missing =>
    split
    next here =>
      rw [here, missing]
      rfl
    · rfl

/-- What holds of all buckets, whatever tokens they have, holds of them after a restore. -/
theorem restored_of {h : Held} (P : String → Bucket → Prop)
    (all : ∀ key b, l.buckets.lookup key = some b → P key b)
    (kept : ∀ key b tokens, P key b → P key { b with tokens := tokens }) :
    ∀ key b, (l.restore h).buckets.lookup key = some b → P key b := by
  intro key b stored
  rw [lookup_restore] at stored
  split at stored
  · obtain ⟨c, found, rfl⟩ := Option.map_eq_some_iff.mp stored
    exact kept key c _ (all key c found)
  · exact all key b stored

end

/-! ### A charge -/

def Bucket.charged (b : Bucket) (cost : ℚ) : Bucket :=
  if b.capacity < cost then { b with tokens := 0 } else { b with tokens := b.tokens - cost }

/-- What a reservation holds of the bucket it charges. -/
def Bucket.taken (b : Bucket) (cost : ℚ) : ℚ := if b.capacity < cost then max b.tokens 0 else cost

section
variable {limits : String → Limit} {now cost : ℚ} {acc : Reserving} {req : LimitRequest}
  {a b : Bucket}

@[simp] theorem charged_refilled (b : Bucket) (cost : ℚ) :
    (b.charged cost).refilled = b.refilled := by
  unfold Bucket.charged
  split <;> rfl

theorem charged_rated (rated : b.Rated limit) (cost : ℚ) : (b.charged cost).Rated limit := by
  unfold Bucket.charged
  split <;> exact rated

theorem taken_nonneg (b : Bucket) (positive : 0 < cost) : 0 ≤ b.taken cost := by
  unfold Bucket.taken
  split
  · exact le_max_right _ _
  · exact le_of_lt positive

theorem charged_add_taken (solvent : b.capacity < cost → 0 ≤ b.tokens) :
    (b.charged cost).tokens + b.taken cost = b.tokens := by
  unfold Bucket.charged Bucket.taken
  split
  next oversized => simp [solvent oversized]
  · simp

theorem wait_le (rate : 0 < a.perSec) (same : b.perSec = a.perSec) (le : a.tokens ≤ b.tokens) :
    b.wait ≤ a.wait := by
  unfold Bucket.wait
  rw [same]
  split
  next debt =>
    rw [if_pos (lt_of_le_of_lt le debt)]
    exact div_le_div_of_nonneg_right (by linarith) (le_of_lt rate)
  · split
    next debt => exact div_nonneg (by linarith) (le_of_lt rate)
    · exact le_refl _

theorem next_skipped (away : skipped req = true) : acc.next cost now req = acc := by
  rw [Reserving.next, if_pos away]

/-- What a request of `ReserveAll` does to the bucket it names, whether the bucket can hold the
cost or not. -/
theorem next_taken (rated : acc.limiter.Rated limits) (taken : skipped req = false)
    (limit : req.limit = limits req.key)
    (quiet : (acc.next cost now req).limiter.evictions = acc.limiter.evictions)
    (found : acc.limiter.aged (limits req.key) now req.key = b) :
    (∀ k, (acc.next cost now req).limiter.buckets.lookup k =
        if k = req.key then some (b.charged cost) else acc.limiter.buckets.lookup k) ∧
      (acc.next cost now req).delay =
        (if b.capacity < cost then acc.delay else max acc.delay (b.charged cost).wait) ∧
      (acc.next cost now req).held = acc.held ++ [⟨req.key, b.taken cost⟩] := by
  have bucket := look_bucket rated req.key now
  rw [found, ← limit] at bucket
  have looked (still : (acc.limiter.look req.key req.limit now).1.evictions =
      acc.limiter.evictions) (k : String) :
      (acc.limiter.look req.key req.limit now).1.buckets.lookup k =
        if k = req.key then some b else acc.limiter.buckets.lookup k := by
    rw [← found, limit]
    exact lookup_look rated (limit ▸ still) k
  unfold Reserving.next Bucket.charged Bucket.taken at *
  simp only [taken, Bool.false_eq_true, if_false, bucket] at quiet ⊢
  by_cases oversized : b.capacity < cost
  · simp only [oversized, if_true] at quiet ⊢
    refine ⟨fun k => ?_, trivial, trivial⟩
    rw [lookup_store, looked quiet]
    split <;> rfl
  · simp only [oversized, if_false] at quiet ⊢
    refine ⟨fun k => ?_, trivial, trivial⟩
    rw [lookup_store, looked quiet]
    split <;> rfl

end
end Panmail.RateLimit
