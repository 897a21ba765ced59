import Panmail.RateLimit.Lookup

/-!
# What the limiter admits

`Allow` and `AllowAll` admit a call when every bucket it names holds the cost. A bucket never
goes into debt, a refusal charges nobody, and over any stretch of time the calls admitted cost
a bucket no more than its capacity and what flows in meanwhile.
-/
namespace Panmail.RateLimit

open TokenBuckets Runs List Limiter Assessing World

/-! ### A bucket and what it admitted -/

def since (s : ℚ) (xs : List (Entry ℚ)) : List (Entry ℚ) := xs.filter fun x => s ≤ x.due

/-- The bucket admitted `xs` and holds no more than they leave it, from whatever time on they
are counted. -/
structure Metered (b : Bucket) (xs : List (Entry ℚ)) : Prop where
  rate : 0 < b.perSec
  room : 0 ≤ b.capacity
  nonneg : 0 ≤ b.tokens
  within : b.tokens ≤ b.capacity
  recent : ∀ x ∈ xs, x.due ≤ b.refilled
  amounts : ∀ x ∈ xs, 0 ≤ x.amount
  covered : ∀ s ≤ b.refilled,
    Covered b.capacity b.perSec s b.refilled b.tokens (total (since s xs))
  paced : ∀ s, Paced (fun u => b.capacity + b.perSec * (u - s)) 0 (since s xs)

section
variable {b : Bucket} {xs : List (Entry ℚ)} {now amount : ℚ}

theorem metered_full {limit : Limit} (limited : limit.unlimited = false) (now : ℚ) :
    Metered (Bucket.full limit now) [] where
  rate := rateOf_pos limited
  room := le_of_lt (capacity_pos limited)
  nonneg := le_of_lt (capacity_pos limited)
  within := le_refl _
  recent := nofun
  amounts := nofun
  covered := fun _ elapsed => covered_start (le_of_lt (rateOf_pos limited)) elapsed (le_refl _)
  paced := fun _ => trivial

section
variable (metered : Metered b xs) {s : ℚ}
include metered

theorem Metered.since_later (later : b.refilled < s) : since s xs = [] := by
  apply filter_eq_nil_iff.mpr
  intro x mem counted
  have due := metered.recent x mem
  exact absurd (of_decide_eq_true counted) (not_le.mpr (lt_of_le_of_lt due later))

theorem Metered.refill (behind : b.refilled ≤ now) : Metered (b.refill now) xs where
  rate := by simpa using metered.rate
  room := by simpa using metered.room
  nonneg := by
    rw [refill_tokens behind metered.within]
    exact le_trans metered.nonneg
      (refill_le metered.within (le_of_lt metered.rate) behind)
  within := by
    rw [refill_tokens behind metered.within, refill_capacity]
    exact min_le_left _ _
  recent := by
    intro x mem
    rw [refill_refilled behind]
    exact le_trans (metered.recent x mem) behind
  amounts := metered.amounts
  covered := by
    intro s elapsed
    rw [refill_refilled behind] at elapsed
    rw [refill_tokens behind metered.within, refill_refilled behind, refill_capacity,
      refill_perSec]
    by_cases counted : s ≤ b.refilled
    · exact (metered.covered s counted).pass
    · -- counting starts after all that was admitted, so with an empty ledger
      rw [metered.since_later (not_le.mp counted), total_nil]
      exact covered_start (le_of_lt metered.rate) elapsed (min_le_left _ _)
  paced := by simpa using metered.paced

theorem Metered.spend (nonneg : 0 ≤ amount) (enough : amount ≤ b.tokens) :
    Metered { b with tokens := b.tokens - amount } (xs ++ [⟨amount, b.refilled⟩]) where
  rate := metered.rate
  room := metered.room
  nonneg := sub_nonneg.mpr enough
  within := by
    have within := metered.within
    linarith
  recent := by exact forall_mem_concat metered.recent le_rfl
  amounts := by exact forall_mem_concat metered.amounts nonneg
  covered := by
    intro s counted
    have spent : Covered b.capacity b.perSec s b.refilled (b.tokens - amount)
        (total (since s xs) + amount) := (metered.covered s counted).spend
    simpa [since, show s ≤ b.refilled from counted] using spent
  paced := by
    intro s
    by_cases counted : s ≤ b.refilled
    · have covered := metered.covered s counted
      have pushed : Paced (fun u => b.capacity + b.perSec * (u - s)) 0
          (since s xs ++ [⟨amount, b.refilled⟩]) := by
        refine paced_push (metered.paced s) ?_
        unfold Covered at covered
        linarith
      simpa [since, counted] using pushed
    · simpa [since, counted] using metered.paced s

theorem Metered.empty : Metered { b with tokens := 0 } xs where
  rate := metered.rate
  room := metered.room
  nonneg := le_refl _
  within := metered.room
  recent := metered.recent
  amounts := metered.amounts
  covered := fun s counted => (metered.covered s counted).lower metered.nonneg
  paced := metered.paced

theorem Metered.window {t : ℚ} (le : s ≤ t) :
    total ((since s xs).filter fun x => x.due ≤ t) ≤ b.capacity + b.perSec * (t - s) := by
  have flowed : 0 ≤ b.perSec * (t - s) :=
    mul_nonneg (le_of_lt metered.rate) (sub_nonneg.mpr le)
  have amounts : ∀ x ∈ since s xs, 0 ≤ x.amount :=
    fun x mem => metered.amounts x (mem_filter.mp mem).1
  rcases (metered.paced s).due_by (monotone_bound (le_of_lt metered.rate)) amounts t
    with none | some
  · rw [none, total_nil]
    linarith [metered.room]
  · simpa using some

end

end

/-! ### The answer to a call -/

/-- What an answer does: a bucket the call names is refilled and, if the call is admitted, charged;
every bucket named agreed; no other changes. -/
structure Settled (limits : String → Limit) (l : Limiter) (now cost : ℚ) (keys : List String)
    (answer : Answer) : Prop where
  limited : ∀ k ∈ keys, (limits k).unlimited = false
  agreed : answer.allowed = true → ∀ k ∈ keys, (assess (l.aged (limits k) now k) cost).allowed = true
  lookups : ∀ k, answer.limiter.buckets.lookup k =
    if k ∈ keys then some (if answer.allowed = true
      then (assess (l.aged (limits k) now k) cost).apply (l.aged (limits k) now k)
      else l.aged (limits k) now k)
    else l.buckets.lookup k

/-- The requests have their keys' limits. -/
def FixedLimits (limits : String → Limit) (reqs : List LimitRequest) : Prop :=
  ∀ req ∈ reqs, skipped req = false → req.limit = limits req.key

instance (limits : String → Limit) (reqs : List LimitRequest) :
    Decidable (FixedLimits limits reqs) :=
  inferInstanceAs (Decidable (∀ req ∈ reqs, _))

section
variable {limits : String → Limit} {l : Limiter} {now cost : ℚ}

theorem settle_evictions (l : Limiter) (key : String) (d : Decision) :
    (l.settle key d).1.evictions = l.evictions := by
  unfold settle
  split <;> rfl

theorem assessing_evictions (cost now : ℚ) (reqs : List LimitRequest) (acc : Assessing) :
    acc.limiter.evictions ≤ (reqs.foldl (next cost now) acc).limiter.evictions := by
  induction reqs generalizing acc with
  | nil => exact le_refl _
  | cons req _ ih =>
    refine le_trans ?_ (ih _)
    unfold Assessing.next
    split
    · exact le_refl _
    · exact look_evictions acc.limiter req.key req.limit now

/-- In the first loop of `AllowAll`, with the keys looked at so far. -/
structure Assessed (limits : String → Limit) (l : Limiter) (now cost : ℚ) (keys : List String)
    (acc : Assessing) : Prop where
  rated : acc.limiter.Rated limits
  lookups : ∀ k, acc.limiter.buckets.lookup k =
    if k ∈ keys then some (l.aged (limits k) now k) else l.buckets.lookup k
  allowed : acc.allowed = keys.all fun k => (assess (l.aged (limits k) now k) cost).allowed
  decisions : acc.decisions = keys.map fun k => (k, assess (l.aged (limits k) now k) cost)

variable {reqs : List LimitRequest}

section
variable {keys : List String} {acc : Assessing} (inv : Assessed limits l now cost keys acc)
include inv

theorem Assessed.aged (key : String) :
    acc.limiter.aged (limits key) now key = l.aged (limits key) now key := by
  have found := inv.lookups key
  unfold Limiter.aged at found ⊢
  rw [found]
  split
  next b stored =>
    split at stored
    · cases stored
      split <;> simp
    · simp [stored]
  next stored =>
    split at stored
    · cases stored
    · simp [stored]

theorem Assessed.next {req : LimitRequest} (taken : skipped req = false)
    (fixed : req.limit = limits req.key)
    (quiet : (acc.next cost now req).limiter.evictions = acc.limiter.evictions) :
    Assessed limits l now cost (keys ++ [req.key]) (acc.next cost now req) := by
  have still : (acc.limiter.look req.key (limits req.key) now).1.evictions =
      acc.limiter.evictions := by simpa [Assessing.next, taken, fixed] using quiet
  have bucket := look_bucket inv.rated req.key now
  have looked := lookup_look inv.rated still
  rw [inv.aged req.key] at bucket looked
  have stands : acc.next cost now req = ⟨(acc.limiter.look req.key (limits req.key) now).1,
      acc.allowed && (assess (l.aged (limits req.key) now req.key) cost).allowed,
      if (assess (l.aged (limits req.key) now req.key) cost).allowed then acc.retryAfter
      else max acc.retryAfter (assess (l.aged (limits req.key) now req.key) cost).retryAfter,
      acc.decisions ++ [(req.key, assess (l.aged (limits req.key) now req.key) cost)]⟩ := by
    simp [Assessing.next, taken, fixed, bucket]
  have lookups : ∀ k, (acc.next cost now req).limiter.buckets.lookup k =
      if k ∈ keys ++ [req.key] then some (l.aged (limits k) now k) else l.buckets.lookup k := by
    intro k
    rw [stands]
    rw [looked, inv.lookups]
    by_cases here : k = req.key
    · simp [here]
    · by_cases before : k ∈ keys <;> simp [here, before]
  refine ⟨?_, lookups, ?_, ?_⟩
  · intro k b found
    rw [stands] at found
    rw [looked] at found
    split at found
    next here =>
      cases found
      rw [here, ← inv.aged req.key]
      exact aged_rated inv.rated req.key now
    · exact inv.rated k b found
  · rw [stands, all_append, inv.allowed]
    simp
  · rw [stands, map_append, inv.decisions]
    rfl

theorem Assessed.all (fixed : FixedLimits limits reqs)
    (quiet : (reqs.foldl (Assessing.next cost now) acc).limiter.evictions = acc.limiter.evictions) :
    Assessed limits l now cost (keys ++ keysOf reqs)
      (reqs.foldl (Assessing.next cost now) acc) := by
  induction reqs generalizing acc keys with
  | nil => simpa [keysOf] using inv
  | cons req rest ih =>
    rw [foldl_cons] at quiet ⊢
    have first := assessing_evictions cost now [req] acc
    have others := assessing_evictions cost now rest (acc.next cost now req)
    rw [foldl_cons, foldl_nil] at first
    have remaining : FixedLimits limits rest := fun r mem => fixed r (mem_cons_of_mem _ mem)
    by_cases taken : skipped req = true
    · have same : acc.next cost now req = acc := by rw [Assessing.next, if_pos taken]
      rw [same] at quiet ⊢
      simpa [keysOf, taken] using ih inv remaining quiet
    · rw [Bool.not_eq_true] at taken
      have next_ := inv.next taken (fixed req mem_cons_self taken) (by omega)
      simpa [keysOf, taken] using ih next_ remaining (by omega)

end

/-- The second loop of `AllowAll`, over keys that do not repeat. -/
theorem settleAll_lookups (decide_ : String → Decision) (bucket : String → Bucket)
    (keys : List String) (nodup : keys.Nodup) (acc : Limiter × List Charge)
    (stored : ∀ k ∈ keys, acc.1.buckets.lookup k = some (bucket k)) (k : String) :
    ((keys.map fun k => (k, decide_ k)).foldl settleAll acc).1.buckets.lookup k =
      if k ∈ keys then some ((decide_ k).apply (bucket k)) else acc.1.buckets.lookup k := by
  induction keys generalizing acc with
  | nil => simp
  | cons key _ ih =>
    obtain ⟨fresh, distinct⟩ := nodup_cons.mp nodup
    have here := stored key mem_cons_self
    have next_ : ∀ k, (settleAll acc (key, decide_ key)).1.buckets.lookup k =
        if k = key then some ((decide_ key).apply (bucket key)) else acc.1.buckets.lookup k := by
      intro k
      simp only [settleAll, settle, here, lookup_store]
    rw [map_cons, foldl_cons, ih distinct, next_]
    · by_cases same : k = key
      · subst same
        simp [fresh]
      · simp [same]
    · intro other mem
      have away : other ≠ key := by
        rintro rfl
        exact fresh mem
      rw [next_, if_neg away]
      exact stored other (mem_cons_of_mem _ mem)

theorem settleAll_evictions (decisions : List (String × Decision)) (acc : Limiter × List Charge) :
    (decisions.foldl settleAll acc).1.evictions = acc.1.evictions := by
  induction decisions generalizing acc with
  | nil => rfl
  | cons p _ ih => exact (ih _).trans (settle_evictions acc.1 p.1 p.2)

theorem limited_of_mem (fixed : FixedLimits limits reqs) :
    ∀ k ∈ keysOf reqs, (limits k).unlimited = false := by
  intro k mem
  obtain ⟨req, kept, rfl⟩ := mem_map.mp mem
  obtain ⟨listed, taken⟩ := mem_filter.mp kept
  rw [Bool.not_eq_true'] at taken
  exact limited_of_taken taken (fixed req listed taken)

/-- `AllowAll`, where no bucket is named twice by a call that is admitted. -/
theorem allowAll_settled (rated : l.Rated limits) {cost : Int} (fixed : FixedLimits limits reqs)
    (once : (l.allowAll reqs cost now).allowed = true → (keysOf reqs).Nodup)
    (quiet : (l.allowAll reqs cost now).limiter.evictions = l.evictions) :
    Settled limits l now (want cost) (keysOf reqs) (l.allowAll reqs cost now) := by
  have start : Assessed limits l now (want cost) [] ⟨l, true, 0, []⟩ :=
    ⟨rated, fun k => by simp, rfl, rfl⟩
  simp only [allowAll] at once quiet ⊢
  generalize loop : reqs.foldl (next (want cost) now) ⟨l, true, 0, []⟩ = acc
    at once quiet ⊢
  have whole : acc.limiter.evictions = l.evictions →
      Assessed limits l now (want cost) (keysOf reqs) acc := by
    intro still
    subst loop
    simpa using start.all fixed still
  obtain ⟨after, allowed, retryAfter, decisions⟩ := acc
  cases allowed with
  | false =>
    have assessed := whole quiet
    refine ⟨limited_of_mem fixed, fun refused => ?_, fun k => ?_⟩
    · cases refused
    · simpa using assessed.lookups k
  | true =>
    have still : after.evictions = l.evictions := by simpa [settleAll_evictions] using quiet
    have assessed := whole still
    have agreed : ∀ k ∈ keysOf reqs,
        (assess (l.aged (limits k) now k) (want cost)).allowed = true := by
      simpa using assessed.allowed.symm
    refine ⟨limited_of_mem fixed, fun _ => agreed, fun k => ?_⟩
    have stored : ∀ k ∈ keysOf reqs,
        after.buckets.lookup k = some (l.aged (limits k) now k) := by
      intro k mem
      have found := assessed.lookups k
      rwa [if_pos mem] at found
    -- the second loop spends, on the buckets as the first one left them
    have settled := settleAll_lookups (fun k => assess (l.aged (limits k) now k) (want cost))
      (fun k => l.aged (limits k) now k) (keysOf reqs) (once rfl) (after, []) stored k
    rw [assessed.decisions]
    refine settled.trans ?_
    by_cases named : k ∈ keysOf reqs
    · simp [named]
    · have found := assessed.lookups k
      simp [named, found]

theorem allow_settled (rated : l.Rated limits) {key : String} {limit : Limit} {cost : Int}
    (fixed : limit.unlimited = false → limit = limits key)
    (quiet : (l.allow key limit cost now).limiter.evictions = l.evictions) :
    Settled limits l now (want cost) (if limit.unlimited then [] else [key])
      (l.allow key limit cost now) := by
  cases unlimited : limit.unlimited with
  | true =>
    constructor
    · exact nofun
    · exact fun _ _ mem => nomatch mem
    · simp [allow, unlimited]
  | false =>
    have same := fixed unlimited
    subst same
    rw [if_neg Bool.false_ne_true]
    have bucket := look_bucket rated key now
    have answer : l.allow key (limits key) cost now =
        ⟨(assess (l.aged (limits key) now key) (want cost)).allowed,
          (assess (l.aged (limits key) now key) (want cost)).retryAfter,
          ((l.look key (limits key) now).1.settle key
            (assess (l.aged (limits key) now key) (want cost))).1,
          ((l.look key (limits key) now).1.settle key
            (assess (l.aged (limits key) now key) (want cost))).2⟩ := by
      simp [allow, unlimited, bucket]
    rw [answer] at quiet ⊢
    rw [settle_evictions] at quiet
    have looked := lookup_look rated quiet
    have stored := looked key
    rw [if_pos rfl] at stored
    refine ⟨?_, ?_, fun k => ?_⟩
    · intro k mem
      rw [mem_singleton.mp mem]
      exact unlimited
    · intro allowed k mem
      rw [mem_singleton.mp mem]
      exact allowed
    · simp only [settle, stored, lookup_store, looked, mem_singleton]
      split
      next here =>
        subst here
        split
        · rfl
        next refused =>
          simp [Decision.apply, refused]
      · rfl

end

/-! ### Runs -/

/-- What a bucket of this capacity has admitted: the calls that named it, at a cost it can
hold. -/
def log (k : String) (capacity : ℚ) (admissions : List Admission) : List (Entry ℚ) :=
  admissions.filterMap fun a =>
    if k ∈ a.keys ∧ a.cost ≤ capacity then some ⟨a.cost, a.time⟩ else none

def admittedIn (k : String) (capacity s t : ℚ) (admissions : List Admission) : ℚ :=
  ((admissions.filter fun a => k ∈ a.keys ∧ a.cost ≤ capacity ∧ s ≤ a.time ∧ a.time ≤ t).map
    Admission.cost).sum

theorem admittedIn_eq (k : String) (capacity s t : ℚ) (admissions : List Admission) :
    admittedIn k capacity s t admissions =
      total ((since s (log k capacity admissions)).filter fun x => x.due ≤ t) := by
  induction admissions with
  | nil => rfl
  | cons a rest ih =>
    have head : admittedIn k capacity s t (a :: rest) =
        (if k ∈ a.keys ∧ a.cost ≤ capacity ∧ s ≤ a.time ∧ a.time ≤ t then a.cost else 0) +
          admittedIn k capacity s t rest := by
      simp only [admittedIn, filter_cons, decide_eq_true_eq]
      split <;> simp
    rw [head, ih]
    by_cases counted : k ∈ a.keys ∧ a.cost ≤ capacity
    · by_cases started : s ≤ a.time
      · by_cases due : a.time ≤ t <;> simp [log, since, counted, started, due]
      · simp [log, since, counted, started]
    · have out : ¬ (k ∈ a.keys ∧ a.cost ≤ capacity ∧ s ≤ a.time ∧ a.time ≤ t) :=
        fun all => counted ⟨all.1, all.2.1⟩
      simp [log, since, counted, out]

/-- Every bucket is metered between calls. -/
structure Metering (limits : String → Limit) (w : World) : Prop where
  rated : w.limiter.Rated limits
  behind : ∀ key b, w.limiter.buckets.lookup key = some b → b.refilled ≤ w.clock
  absent : ∀ k, w.limiter.buckets.lookup k = none → ∀ a ∈ w.admissions, k ∉ a.keys
  present : ∀ k b, w.limiter.buckets.lookup k = some b →
    Metered b (log k b.capacity w.admissions)

theorem metering_start (limits : String → Limit) (clock : ℚ) :
    Metering limits (start clock) where
  rated := fun _ _ found => nomatch found
  behind := fun _ _ found => nomatch found
  absent := fun _ _ _ mem => nomatch mem
  present := fun _ _ found => nomatch found

section
variable {limits : String → Limit} {w v : World} {now cost : ℚ} {keys : List String}
variable {answer : Answer} {k : String}

theorem Metering.aged (inv : Metering limits w) (forward : w.clock ≤ now)
    (limited : (limits k).unlimited = false) : Metered (w.limiter.aged (limits k) now k)
        (log k (w.limiter.aged (limits k) now k).capacity w.admissions) ∧
      (w.limiter.aged (limits k) now k).refilled = now := by
  unfold Limiter.aged
  cases found : w.limiter.buckets.lookup k with
  | none =>
    have empty : log k (Bucket.full (limits k) now).capacity w.admissions = [] := by
      apply filterMap_eq_nil_iff.mpr
      intro a mem
      simp [inv.absent k found a mem]
    rw [empty]
    exact ⟨metered_full limited now, rfl⟩
  | some b =>
    have behind := le_trans (inv.behind k b found) forward
    rw [refill_capacity]
    exact ⟨(inv.present k b found).refill behind, refill_refilled behind⟩

theorem metered_apply {b : Bucket} {admissions : List Admission}
    (metered : Metered b (log k b.capacity admissions)) (current : b.refilled = now)
    (positive : 0 < cost) (agreed : (assess b cost).allowed = true) (named : k ∈ keys) :
    Metered ((assess b cost).apply b) (log k b.capacity (admissions ++ [⟨now, cost, keys⟩])) := by
  unfold assess at agreed ⊢
  split
  next oversized =>
    have same : log k b.capacity (admissions ++ [⟨now, cost, keys⟩]) =
        log k b.capacity admissions := by simp [log, not_le.mpr oversized]
    rw [same]
    exact metered.empty
  next fits =>
    rw [if_neg fits] at agreed
    split
    next enough =>
      have entered : log k b.capacity (admissions ++ [⟨now, cost, keys⟩]) =
          log k b.capacity admissions ++ [⟨cost, b.refilled⟩] := by
        simp [log, named, not_lt.mp fits, current]
      rw [entered]
      exact metered.spend (le_of_lt positive) enough
    next short =>
      rw [if_neg short] at agreed
      cases agreed

theorem apply_frame (d : Decision) (b : Bucket) : (d.apply b).capacity = b.capacity ∧
    (d.apply b).perSec = b.perSec ∧ (d.apply b).refilled = b.refilled := by
  unfold Decision.apply
  split
  · exact ⟨rfl, rfl, rfl⟩
  · split <;> exact ⟨rfl, rfl, rfl⟩

theorem Metering.answered (inv : Metering limits w) (forward : w.clock ≤ now)
    (positive : 0 < cost) (settled : Settled limits w.limiter now cost keys answer) :
    Metering limits (w.admitted answer now cost keys) := by
  have lookups := settled.lookups
  have rated : ∀ k, (w.limiter.aged (limits k) now k).Rated (limits k) :=
    fun k => aged_rated inv.rated k now
  refine ⟨?_, ?_, ?_, ?_⟩
  · intro k b found
    rw [admitted, lookups] at found
    split at found
    · cases found
      split
      · exact ⟨(apply_frame _ _).2.1.trans (rated k).1, (apply_frame _ _).1.trans (rated k).2⟩
      · exact rated k
    · exact inv.rated k b found
  · intro k b found
    rw [admitted, lookups] at found
    split at found
    next named =>
      have current := (inv.aged forward (settled.limited k named)).2
      cases found
      split
      · exact le_of_eq ((apply_frame _ _).2.2.trans current)
      · exact le_of_eq current
    · exact le_trans (inv.behind k b found) forward
  · intro k missing a mem
    rw [admitted, lookups] at missing
    split at missing
    · cases missing
    next other =>
      simp only [admitted] at mem
      split at mem
      · exact forall_mem_concat (inv.absent k missing) other a mem
      · exact inv.absent k missing a mem
  · intro k b found
    rw [admitted, lookups] at found
    split at found
    next named =>
      obtain ⟨metered, current⟩ := inv.aged forward (settled.limited k named)
      cases found
      cases allowed : answer.allowed with
      | true =>
        -- the call was admitted: its cost is spent, and logged
        have agreed := settled.agreed allowed k named
        simp only [admitted, allowed, if_true, apply_frame]
        exact metered_apply metered current positive agreed named
      | false => simpa [admitted, allowed] using metered
    next other =>
      -- a bucket that is not named keeps its log
      have same : log k b.capacity (w.admitted answer now cost keys).admissions =
          log k b.capacity w.admissions := by
        simp only [admitted]
        split
        · simp [log, other]
        · rfl
      rw [same]
      exact inv.present k b found

/-- A call of `Allow` or `AllowAll` on a clock that does not go back, with the limits fixed, and
naming no bucket twice. -/
def Admitting (limits : String → Limit) (w : World) : Call → Prop
  | .allow key limit _ now => w.clock ≤ now ∧ (limit.unlimited = false → limit = limits key)
  | .allowAll reqs _ now => w.clock ≤ now ∧ FixedLimits limits reqs ∧ (keysOf reqs).Nodup
  | .reserveAll _ _ _ | .cancel _ | .forget _ => False

instance (limits : String → Limit) (w : World) : ∀ c, Decidable (Admitting limits w c)
  | .allow _ _ _ _ => inferInstanceAs (Decidable (_ ∧ (_ → _)))
  | .allowAll _ _ _ => inferInstanceAs (Decidable (_ ∧ _ ∧ _))
  | .reserveAll _ _ _ | .cancel _ | .forget _ => isFalse id

theorem allow_evictions (l : Limiter) (key : String) (limit : Limit) (cost : Int) (now : ℚ) :
    l.evictions ≤ (l.allow key limit cost now).limiter.evictions := by
  unfold allow
  split
  · exact le_refl _
  · simp only [settle_evictions]
    exact look_evictions l key limit now

theorem allowAll_evictions (l : Limiter) (reqs : List LimitRequest) (cost : Int) (now : ℚ) :
    l.evictions ≤ (l.allowAll reqs cost now).limiter.evictions := by
  have looked := assessing_evictions (want cost) now reqs ⟨l, true, 0, []⟩
  simp only [allowAll]
  split
  · exact looked
  · simp only [settleAll_evictions]
    exact looked

theorem Metering.step {c : Call} (inv : Metering limits w) (admitting : Admitting limits w c)
    (h : w.step c = some v) (quiet : v.limiter.evictions = w.limiter.evictions) :
    Metering limits v := by
  cases c with
  | allow _ _ cost =>
    cases h
    exact inv.answered admitting.1 (want_pos cost) (allow_settled inv.rated admitting.2 quiet)
  | allowAll _ cost =>
    cases h
    exact inv.answered admitting.1 (want_pos cost)
      (allowAll_settled inv.rated admitting.2.1 (fun _ => admitting.2.2) quiet)
  | _ => exact absurd admitting id

end

/-- A bucket is never in debt or over its capacity. A refused `AllowAll` leaves the buckets it names
as time alone would, and the others alone. What was admitted from `s` to `t`, at costs the bucket
can hold, is within its capacity and the flow meanwhile. -/
structure AdmissionSafety (limits : String → Limit) (w : World) : Prop where
  solvent : ∀ k b, w.limiter.buckets.lookup k = some b → 0 ≤ b.tokens ∧ b.tokens ≤ b.capacity
  refusal : ∀ reqs cost now, FixedLimits limits reqs →
    (w.limiter.allowAll reqs cost now).limiter.evictions = w.limiter.evictions →
    (w.limiter.allowAll reqs cost now).allowed = false →
    ∀ k, (w.limiter.allowAll reqs cost now).limiter.buckets.lookup k =
      if k ∈ keysOf reqs then some (w.limiter.aged (limits k) now k)
      else w.limiter.buckets.lookup k
  paced : ∀ k b, w.limiter.buckets.lookup k = some b → ∀ s t, s ≤ t →
    admittedIn k b.capacity s t w.admissions ≤ b.capacity + b.perSec * (t - s)

/-- In every run of `Allow` and `AllowAll` that names no bucket twice in one call and in which
no bucket is dropped. -/
theorem admission_safety (limits : String → Limit) (clock : ℚ) (calls : List Call) (w : World)
    (run : exec World.step (World.start clock) calls = some w)
    (along : AllSteps World.step (Admitting limits) (World.start clock) calls)
    (kept : w.limiter.evictions = 0) : AdmissionSafety limits w := by
  have inv := invariant_along World.step (Admitting limits)
    (fun w => w.limiter.evictions = 0 → Metering limits w)
    (fun v c x admitting inv h still => by
      have before : v.limiter.evictions ≤ x.limiter.evictions := by
        cases c with
        | allow key limit cost now =>
          cases h
          exact allow_evictions v.limiter key limit cost now
        | allowAll reqs cost now =>
          cases h
          exact allowAll_evictions v.limiter reqs cost now
        | _ => exact absurd admitting id
      exact (inv (by omega)).step admitting h (by omega))
    (World.start clock) w calls (fun _ => metering_start limits clock) along run kept
  refine ⟨?_, ?_, ?_⟩
  · intro k b found
    exact ⟨(inv.present k b found).nonneg, (inv.present k b found).within⟩
  · intro reqs cost now fixed quiet refused k
    have settled := allowAll_settled inv.rated fixed
      (fun allowed => nomatch refused.symm.trans allowed) quiet
    rw [settled.lookups k, refused, if_neg Bool.false_ne_true]
  · intro k b found s t le
    rw [admittedIn_eq]
    exact (inv.present k b found).window le

def fiveAtOnce : Limit := ⟨60, 5⟩

def tenantAndProvider : List LimitRequest := [⟨"t", fiveAtOnce⟩, ⟨"t|p", fiveAtOnce⟩]

/-- Two calls are admitted, one is refused, and one is more than a bucket can hold. -/
def admissionCalls : List Call :=
  [.allowAll tenantAndProvider 4 0, .allow "t" fiveAtOnce 2 1, .allowAll tenantAndProvider 3 1,
    .allowAll tenantAndProvider 9 2]

theorem admission_safety_refused : ∃ w, exec World.step (World.start 0) admissionCalls = some w ∧
      AllSteps World.step (Admitting fun _ => fiveAtOnce) (World.start 0) admissionCalls ∧
      w.limiter.evictions = 0 ∧ w.admissions.map Admission.cost = [4, 2, 9] ∧
      AdmissionSafety (fun _ => fiveAtOnce) w := by
  have runs : ∃ w ∈ exec World.step (World.start 0) admissionCalls,
      w.limiter.evictions = 0 ∧ w.admissions.map Admission.cost = [4, 2, 9] := by decide +kernel
  have along : AllSteps World.step (Admitting fun _ => fiveAtOnce) (World.start 0)
      admissionCalls := by decide
  obtain ⟨w, run, kept, costs⟩ := runs
  exact ⟨w, run, along, kept, costs, admission_safety _ 0 admissionCalls w run along kept⟩

/-- A call that names one bucket twice is assessed twice against the same balance. -/
def twiceNamed : List LimitRequest := [⟨"t", fiveAtOnce⟩, ⟨"t", fiveAtOnce⟩]

/-- It is admitted at a cost of three each, and the bucket of five is left in debt. -/
theorem twice_named_in_debt : ∃ w b,
    exec World.step (World.start 0) [.allowAll twiceNamed 3 0] = some w ∧
      FixedLimits (fun _ => fiveAtOnce) twiceNamed ∧ w.limiter.evictions = 0 ∧
      w.admissions.map Admission.cost = [3] ∧
      w.limiter.buckets.lookup "t" = some b ∧ b.tokens = -1 := by
  have runs : ∃ w ∈ exec World.step (World.start 0) [.allowAll twiceNamed 3 0],
      w.limiter.evictions = 0 ∧ w.admissions.map Admission.cost = [3] ∧
        w.limiter.buckets.lookup "t" = some ⟨-1, 5, 1, 0, 0, 0⟩ := by decide +kernel
  obtain ⟨w, run, kept, costs, found⟩ := runs
  exact ⟨w, _, run, by decide, kept, costs, found, rfl⟩

end Panmail.RateLimit
