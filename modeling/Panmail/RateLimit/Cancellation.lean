import Panmail.RateLimit.Reservations

/-!
# A reservation that is cancelled

A run with a reservation that is cancelled later, next to the run without it. In the second the
reservation names no bucket, so that the others keep their numbers. As long as nothing is lost at
the capacity of a bucket it holds a part of, giving back what it took leaves the first run behind
the second.
-/
namespace Panmail.RateLimit

open TokenBuckets Runs List Option Limiter

/-- The bucket is there, with room for what has flowed in by now and for `o` besides. -/
def Roomy (l : Limiter) (k : String) (o now : ℚ) : Prop :=
  ∃ b ∈ l.buckets.lookup k, b.tokens + o + (now - b.refilled) * b.perSec ≤ b.capacity

instance (l : Limiter) (k : String) (o now : ℚ) : Decidable (Roomy l k o now) :=
  inferInstanceAs (Decidable (∃ b ∈ _, _))

/-- A call of `ReserveAll`, `Forget`, or `Cancel` of another reservation than `n`, on a clock that
does not go back, with the limits fixed and dropping no bucket. Of a bucket to which `o` is owed a
`ReserveAll` finds room for what has flowed in and what is owed, at a cost it can hold; a `Cancel`
gives back no more than there is room for. -/
def Undisturbed (limits : String → Limit) (n : Option Nat) (o : String → ℚ) (w : World) :
    Call → Prop
  | .reserveAll reqs cost now => w.clock ≤ now ∧
      (w.limiter.reserveAll reqs cost now).limiter.evictions = w.limiter.evictions ∧
      ∀ req ∈ reqs, skipped req = false → req.limit = limits req.key ∧ (0 < o req.key →
        want cost ≤ req.limit.capacity ∧ Roomy w.limiter req.key (o req.key) now)
  | .cancel i => some i ≠ n ∧ ∀ r ∈ w.reservations[i]?, ∀ h ∈ r.held, 0 < o h.key →
      ∀ b ∈ w.limiter.buckets.lookup h.key, b.tokens + (drawn h.key r.held + o h.key) ≤ b.capacity
  | .forget _ => True
  | .allow _ _ _ _ | .allowAll _ _ _ => False

instance (limits : String → Limit) (n : Option Nat) (o : String → ℚ) (w : World) :
    ∀ c, Decidable (Undisturbed limits n o w c) := by
  rintro (_ | _ | _ | _ | _) <;> dsimp only [Undisturbed] <;> infer_instance

def Kept (w : World) (c : Call) : Prop :=
  ∀ v, w.step c = some v → v.limiter.evictions = w.limiter.evictions

instance (w : World) (c : Call) : Decidable (Kept w c) :=
  inferInstanceAs (Decidable (∀ _, _ → _))

/-! ### One bucket in both runs -/

/-- With `o` owed to it the bucket of the first run is behind that of the second, if there is
one. -/
structure Trails (limit : Limit) (now o : ℚ) (a : Bucket) (other : Option Bucket) : Prop where
  limited : limit.unlimited = false
  rated : a.Rated limit
  past : a.refilled ≤ now
  fits : a.tokens + o ≤ a.capacity
  second : ∀ b ∈ other, b.Rated limit ∧ b.refilled ≤ a.refilled ∧ b.tokens ≤ b.capacity ∧
    a.tokens + o ≤ b.tokens + (a.refilled - b.refilled) * b.perSec

/-- The second run has no bucket that the first has not. -/
structure Behind (limit : Limit) (now o : ℚ) (first other : Option Bucket) : Prop where
  trails : ∀ a ∈ first, Trails limit now o a other
  absent : first = none → other = none

def AllBehind (limits : String → Limit) (now : ℚ) (o : String → ℚ) (A B : Limiter) : Prop :=
  ∀ k, Behind (limits k) now (o k) (A.buckets.lookup k) (B.buckets.lookup k)

section
variable {limit : Limit} {o now later cost x : ℚ} {a b : Bucket} {other first : Option Bucket}
  {A B : Limiter} {k : String}

theorem Behind.mono (behind : Behind limit now o first other) (le : now ≤ later) :
    Behind limit later o first other where
  trails a mem := { behind.trails a mem with past := (behind.trails a mem).past.trans le }
  absent := behind.absent

theorem Trails.behind (trails : Trails limit now o a other) : Behind limit now o (some a) other where
  trails _ mem := mem_some_iff.mp mem ▸ trails
  absent := nofun

theorem Behind.looked (behind : Behind limit now o (A.buckets.lookup k) other)
    (limited : limit.unlimited = false) (forward : now ≤ later) (nonneg : 0 ≤ o)
    (room : 0 < o → Roomy A k o later) :
    Trails limit later o (A.aged limit later k) other ∧ (A.aged limit later k).refilled = later := by
  unfold aged
  cases found : A.buckets.lookup k with
  | none =>
    -- a bucket with something owed to it is there
    have none : ¬ 0 < o := fun some_ => by
      obtain ⟨_, found', _⟩ := room some_
      cases found.symm.trans found'
    refine ⟨⟨limited, rated_full, le_refl _, ?_, fun b mem => ?_⟩, rfl⟩
    · show limit.capacity + o ≤ limit.capacity
      linarith
    · cases (behind.absent found).symm.trans mem
  | some a =>
    have trails := behind.trails a found
    have elapsed := trails.past.trans forward
    have current := refill_refilled elapsed
    have fits := trails.fits
    have tokens := refill_tokens elapsed (by linarith)
    have flowed : (a.refill later).tokens ≤ a.tokens + (later - a.refilled) * a.perSec :=
      tokens ▸ min_le_right _ _
    refine ⟨⟨limited, trails.rated.refill, le_of_eq current, ?_, fun b mem => ?_⟩, current⟩
    · rw [refill_capacity]
      rcases eq_or_lt_of_le nonneg with none | some_
      · rw [← none, add_zero, tokens]
        exact min_le_left _ _
      · obtain ⟨c, found', roomy⟩ := room some_
        obtain rfl : a = c := some.inj (found.symm.trans found')
        linarith
    · obtain ⟨rated', older, within, le⟩ := trails.second b mem
      have rates : b.perSec = a.perSec := rated'.1.trans trails.rated.1.symm
      rw [current]
      refine ⟨rated', older.trans elapsed, within, ?_⟩
      rw [rates] at le ⊢
      linear_combination flowed + le

theorem Trails.looked (trails : Trails limit now o a (B.buckets.lookup k))
    (current : a.refilled = now) : Trails limit now o a (some (B.aged limit now k)) ∧
      (B.aged limit now k).refilled = now ∧ a.tokens + o ≤ (B.aged limit now k).tokens := by
  have fits := trails.fits
  rw [trails.rated.2] at fits
  suffices aged : (B.aged limit now k).Rated limit ∧ (B.aged limit now k).refilled = now ∧
      (B.aged limit now k).tokens ≤ (B.aged limit now k).capacity ∧
      a.tokens + o ≤ (B.aged limit now k).tokens by
    obtain ⟨rated', stamp, within, le⟩ := aged
    refine ⟨⟨trails.limited, trails.rated, trails.past, trails.fits, ?_⟩, stamp, le⟩
    intro b mem
    obtain rfl := mem_some_iff.mp mem
    exact ⟨rated', le_of_eq (stamp.trans current.symm), within, by simpa [stamp, current] using le⟩
  unfold aged
  cases found : B.buckets.lookup k with
  | none => exact ⟨rated_full, rfl, le_refl _, fits⟩
  | some b =>
    obtain ⟨rated', older, within, le⟩ := trails.second b found
    rw [current] at older le
    have tokens := refill_tokens older within
    refine ⟨rated'.refill, refill_refilled older, ?_, ?_⟩
    · rw [tokens, refill_capacity]
      exact min_le_left _ _
    · rw [tokens, rated'.2]
      exact le_min fits le

theorem Trails.charged (trails : Trails limit now o a (some b)) (current : a.refilled = now)
    (stamp : b.refilled = now) (positive : 0 < cost) (held : 0 < o → cost ≤ limit.capacity) :
    Trails limit now o (a.charged cost) (some (b.charged cost)) := by
  obtain ⟨rated', _, within, le⟩ := trails.second b rfl
  rw [current, stamp, sub_self, zero_mul, add_zero] at le
  have room := capacity_pos trails.limited
  have fits := trails.fits
  rw [rated'.2] at within
  refine ⟨trails.limited, charged_rated trails.rated cost, by simp [current], ?_, ?_⟩
  · rw [(charged_rated trails.rated cost).2, Bucket.charged, trails.rated.2]
    split
    next oversized =>
      -- a cost that the bucket cannot hold empties it, so nothing may be owed to it
      have none : ¬ 0 < o := fun some_ => absurd (held some_) (not_le.mpr oversized)
      show 0 + o ≤ limit.capacity
      linarith
    · show a.tokens - cost + o ≤ limit.capacity
      linarith
  · intro c mem
    obtain rfl := mem_some_iff.mp mem
    refine ⟨charged_rated rated' cost, by simp [current, stamp], ?_, ?_⟩
    · rw [(charged_rated rated' cost).2, Bucket.charged, rated'.2]
      split
      · exact le_of_lt room
      · show b.tokens - cost ≤ limit.capacity
        linarith
    · simp only [charged_refilled, current, stamp, sub_self, zero_mul, add_zero]
      rw [Bucket.charged, Bucket.charged, trails.rated.2, rated'.2]
      split
      next oversized =>
        have none : ¬ 0 < o := fun some_ => absurd (held some_) (not_le.mpr oversized)
        show 0 + o ≤ 0
        linarith
      · show a.tokens - cost + o ≤ b.tokens - cost
        linarith

theorem Trails.lowered (trails : Trails limit now o a other) {c : Bucket} (rated : c.Rated limit)
    (stamp : c.refilled = a.refilled) (less : c.tokens + x ≤ a.tokens + o) :
    Trails limit now x c other := by
  have fits := trails.fits
  refine ⟨trails.limited, rated, stamp ▸ trails.past, ?_, fun b mem => ?_⟩
  · rw [rated.2, ← trails.rated.2]
    linarith
  · obtain ⟨rated', older, within, le⟩ := trails.second b mem
    rw [stamp]
    exact ⟨rated', older, within, by linarith⟩

theorem Trails.restored {y : ℚ} (trails : Trails limit now o a other) (le : x ≤ y)
    (room : 0 < o → a.tokens + (x + o) ≤ a.capacity) (nonneg : 0 ≤ o) :
    Trails limit now o { a with tokens := min a.capacity (a.tokens + x) }
      (other.map fun b => { b with tokens := min b.capacity (b.tokens + y) }) := by
  have clipped : min a.capacity (a.tokens + x) ≤ a.tokens + x := min_le_right _ _
  have capped : min a.capacity (a.tokens + x) + o ≤ a.capacity := by
    rcases eq_or_lt_of_le nonneg with rfl | some_
    · rw [add_zero]
      exact min_le_left _ _
    · linarith [room some_]
  refine ⟨trails.limited, trails.rated, trails.past, capped, fun c mem => ?_⟩
  obtain ⟨b, stored, rfl⟩ := map_eq_some_iff.mp mem
  obtain ⟨rated', older, within, lead⟩ := trails.second b stored
  refine ⟨rated', older, min_le_left _ _, ?_⟩
  have flowed : 0 ≤ (a.refilled - b.refilled) * b.perSec := by
    rw [rated'.1]
    exact mul_nonneg (sub_nonneg.mpr older) (le_of_lt (rateOf_pos trails.limited))
  have same : a.capacity = b.capacity := trails.rated.2.trans rated'.2.symm
  show min a.capacity (a.tokens + x) + o ≤
    min b.capacity (b.tokens + y) + (a.refilled - b.refilled) * b.perSec
  -- if the second run loses something at its capacity, the first fits under it all the same
  rcases le_total b.capacity (b.tokens + y) with full | free
  · rw [min_eq_left full]
    linarith
  · rw [min_eq_right free]
    linarith

end

/-! ### The same `ReserveAll` in both runs -/

/-- What both runs hold of a reservation: the same buckets, in the first run no more of them. -/
def Held.Less (x y : Held) : Prop := x.key = y.key ∧ x.restore ≤ y.restore

def Reservation.Less (x y : Reservation) : Prop :=
  x.cancelled = y.cancelled ∧ y.delay ≤ x.delay ∧ List.Forall₂ Held.Less x.held y.held

structure Alongside (limits : String → Limit) (o : String → ℚ) (now : ℚ) (p q : Reserving) :
    Prop where
  behind : AllBehind limits now o p.limiter q.limiter
  delay : q.delay ≤ p.delay
  held : List.Forall₂ Held.Less p.held q.held
  nonneg : ∀ h ∈ p.held, 0 ≤ h.restore

section
variable {limits : String → Limit} {o : String → ℚ} {now cost : ℚ} {p q : Reserving}
  {req : LimitRequest} {A B : Limiter}

theorem AllBehind.rated_first (behind : AllBehind limits now o A B) : A.Rated limits :=
  fun k a found => ((behind k).trails a found).rated

theorem AllBehind.rated_second (behind : AllBehind limits now o A B) : B.Rated limits := by
  intro k b found
  cases first : A.buckets.lookup k with
  | none => cases found.symm.trans ((behind k).absent first)
  | some a => exact (((behind k).trails a first).second b found).1

theorem Alongside.next (inv : Alongside limits o now p q) (nonneg : ∀ k, 0 ≤ o k)
    (positive : 0 < cost) (taken : skipped req = false) (limit : req.limit = limits req.key)
    (held : 0 < o req.key → cost ≤ req.limit.capacity ∧ Roomy p.limiter req.key (o req.key) now)
    (quiet : (p.next cost now req).limiter.evictions = p.limiter.evictions)
    (quiet' : (q.next cost now req).limiter.evictions = q.limiter.evictions) :
    Alongside limits o now (p.next cost now req) (q.next cost now req) ∧
      ∀ k, Roomy p.limiter k (o k) now → Roomy (p.next cost now req).limiter k (o k) now := by
  obtain ⟨alone, current⟩ := (inv.behind req.key).looked (limited_of_taken taken limit)
    (le_refl now) (nonneg _) fun some_ => (held some_).2
  obtain ⟨trails, stamp, le⟩ := alone.looked current
  -- the two runs find the bucket as `a` and as `b`, and charge it
  obtain ⟨a, first⟩ : ∃ a, p.limiter.aged (limits req.key) now req.key = a := ⟨_, rfl⟩
  obtain ⟨b, second⟩ : ∃ b, q.limiter.aged (limits req.key) now req.key = b := ⟨_, rfl⟩
  obtain ⟨lookups, delays, helds⟩ := next_taken inv.behind.rated_first taken limit quiet first
  obtain ⟨lookups', delays', helds'⟩ :=
    next_taken inv.behind.rated_second taken limit quiet' second
  rw [first] at trails current le
  rw [second] at trails stamp le
  have charged := trails.charged current stamp positive fun some_ => limit ▸ (held some_).1
  have rated' := (trails.second b rfl).1
  have bounds : a.capacity = b.capacity := trails.rated.2.trans rated'.2.symm
  have owed := nonneg req.key
  refine ⟨⟨fun k => ?_, ?_, ?_, ?_⟩, ?_⟩
  · rw [lookups, lookups']
    split
    next here => exact here ▸ charged.behind
    · exact inv.behind k
  · rw [delays, delays', bounds]
    split
    · exact inv.delay
    next affordable =>
      -- the fuller bucket waits less
      refine max_le_max inv.delay (wait_le ?_ ?_ ?_)
      · rw [charged.rated.1]
        exact rateOf_pos trails.limited
      · rw [charged.rated.1, (charged_rated rated' cost).1]
      · simp only [Bucket.charged, bounds, affordable, if_false]
        linarith
  · rw [helds, helds']
    refine rel_append inv.held (.cons ⟨rfl, ?_⟩ .nil)
    unfold Bucket.taken
    rw [bounds]
    split
    · exact max_le_max (by linarith) (le_refl _)
    · exact le_refl _
  · rw [helds]
    exact forall_mem_concat inv.nonneg (taken_nonneg a positive)
  · rintro k ⟨c, found, fits⟩
    by_cases here : k = req.key
    · -- the bucket has just been refilled, and what is owed to it fits
      subst here
      refine ⟨a.charged cost, (lookups _).trans (if_pos rfl), ?_⟩
      rw [charged_refilled, current, sub_self, zero_mul, add_zero]
      exact charged.fits
    · exact ⟨c, (lookups k).trans ((if_neg here).trans found), fits⟩

theorem Alongside.all (inv : Alongside limits o now p q) (nonneg : ∀ k, 0 ≤ o k)
    (positive : 0 < cost) {reqs : List LimitRequest}
    (fixed : ∀ req ∈ reqs, skipped req = false → req.limit = limits req.key ∧
      (0 < o req.key → cost ≤ req.limit.capacity ∧ Roomy p.limiter req.key (o req.key) now))
    (quiet : (reqs.foldl (Reserving.next cost now) p).limiter.evictions = p.limiter.evictions)
    (quiet' : (reqs.foldl (Reserving.next cost now) q).limiter.evictions = q.limiter.evictions) :
    Alongside limits o now (reqs.foldl (Reserving.next cost now) p)
      (reqs.foldl (Reserving.next cost now) q) := by
  induction reqs generalizing p q with
  | nil => exact inv
  | cons req rest ih =>
    simp only [foldl_cons] at quiet quiet' ⊢
    have others := fun r mem => fixed r (mem_cons_of_mem _ mem)
    by_cases away : skipped req = true
    · simp only [next_skipped away] at quiet quiet' ⊢
      exact ih inv others quiet quiet'
    · rw [Bool.not_eq_true] at away
      obtain ⟨limit, held⟩ := fixed req mem_cons_self away
      have one := next_evictions cost now p req
      have one' := next_evictions cost now q req
      have more := reserving_evictions cost now rest (p.next cost now req)
      have more' := reserving_evictions cost now rest (q.next cost now req)
      obtain ⟨next_, kept⟩ := inv.next nonneg positive away limit held (by omega) (by omega)
      refine ih next_ (fun r mem taken => ?_) (by omega) (by omega)
      obtain ⟨limit', held'⟩ := others r mem taken
      exact ⟨limit', fun some_ => ⟨(held' some_).1, kept r.key (held' some_).2⟩⟩

end

/-! ### The reservation itself -/

/-- In the middle of the `ReserveAll` that only the first run makes: what it has taken is owed. -/
structure Taking (limits : String → Limit) (cost now : ℚ) (reqs : List LimitRequest) (B : Limiter)
    (acc : Reserving) : Prop where
  behind : AllBehind limits now (fun k => drawn k acc.held) acc.limiter B
  nonneg : ∀ h ∈ acc.held, 0 ≤ h.restore
  roomy : ∀ k, 0 < drawn k acc.held → Roomy acc.limiter k (drawn k acc.held) now
  solvent : ∀ req ∈ reqs, skipped req = false → cost ≤ (limits req.key).capacity ∨
    0 ≤ (acc.limiter.aged (limits req.key) now req.key).tokens

section
variable {limits : String → Limit} {now cost : ℚ} {reqs : List LimitRequest} {B : Limiter}
  {acc : Reserving} {req : LimitRequest}

theorem Taking.next (inv : Taking limits cost now reqs B acc) (positive : 0 < cost)
    (mem : req ∈ reqs) (taken : skipped req = false) (limit : req.limit = limits req.key)
    (quiet : (acc.next cost now req).limiter.evictions = acc.limiter.evictions) :
    Taking limits cost now reqs B (acc.next cost now req) := by
  obtain ⟨trails, current⟩ := (inv.behind req.key).looked (limited_of_taken taken limit)
    (le_refl now) (drawn_nonneg inv.nonneg) (inv.roomy req.key)
  have credit := inv.solvent req mem taken
  obtain ⟨a, found⟩ : ∃ a, acc.limiter.aged (limits req.key) now req.key = a := ⟨_, rfl⟩
  obtain ⟨lookups, _, helds⟩ := next_taken inv.behind.rated_first taken limit quiet found
  rw [found] at trails current credit
  have bound := trails.rated.2
  -- what is taken from the bucket is owed to it from now on
  have lowered : Trails (limits req.key) now (drawn req.key acc.held + a.taken cost)
      (a.charged cost) (B.buckets.lookup req.key) := by
    refine trails.lowered (charged_rated trails.rated cost) (charged_refilled a cost) (le_of_eq ?_)
    rw [← charged_add_taken fun oversized => credit.resolve_left fun affordable =>
      absurd affordable (not_le.mpr (bound ▸ oversized))]
    ring
  have stamp : (a.charged cost).refilled = now := (charged_refilled a cost).trans current
  refine ⟨fun k => ?_, ?_, fun k some_ => ?_, fun r inside taken' => ?_⟩
  · show Behind _ now (drawn k (acc.next cost now req).held) _ _
    rw [lookups, helds, drawn_append]
    split
    next here =>
      subst here
      rw [if_pos rfl]
      exact lowered.behind
    next other =>
      rw [if_neg fun same => other same.symm, add_zero]
      exact inv.behind k
  · rw [helds]
    exact forall_mem_concat inv.nonneg (taken_nonneg a positive)
  · rw [helds, drawn_append] at some_ ⊢
    by_cases here : k = req.key
    · subst here
      rw [if_pos rfl]
      refine ⟨a.charged cost, (lookups _).trans (if_pos rfl), ?_⟩
      rw [stamp, sub_self, zero_mul, add_zero]
      exact lowered.fits
    · rw [if_neg fun same => here same.symm, add_zero] at some_ ⊢
      obtain ⟨c, found', fits⟩ := inv.roomy k some_
      exact ⟨c, (lookups k).trans ((if_neg here).trans found'), fits⟩
  · by_cases affordable : cost ≤ (limits r.key).capacity
    · exact .inl affordable
    · have before := (inv.solvent r inside taken').resolve_left affordable
      right
      unfold aged at before ⊢
      rw [lookups]
      by_cases here : r.key = req.key
      · -- the bucket has been emptied by now
        have oversized : a.capacity < cost := by
          rw [bound, ← here]
          exact not_le.mp affordable
        simp [here, Bucket.refill, Bucket.charged, oversized, current]
      · rw [if_neg here]
        exact before

end

/-! ### Giving back -/

section
variable {limits : String → Limit} {o : String → ℚ} {A B : Limiter} {now : ℚ}

theorem behind_repaid {held : List Held}
    (behind : AllBehind limits now (fun k => drawn k held) A B) :
    AllBehind limits now (fun _ => 0) (A.cancel held) B := by
  induction held generalizing A with
  | nil => exact behind
  | cons h rest ih =>
    refine ih (A := A.restore h) fun k => ?_
    have here : Behind _ now (drawn k (h :: rest)) _ _ := behind k
    rw [drawn_cons] at here
    rw [lookup_restore]
    split
    next same =>
      rw [if_pos same.symm] at here
      refine ⟨fun c mem => ?_, fun none => here.absent (map_eq_none_iff.mp none)⟩
      obtain ⟨a, stored, rfl⟩ := map_eq_some_iff.mp mem
      have trails := here.trails a stored
      have clipped : min a.capacity (a.tokens + h.restore) ≤ a.tokens + h.restore :=
        min_le_right _ _
      refine trails.lowered trails.rated rfl ?_
      show min a.capacity (a.tokens + h.restore) + drawn k rest ≤ _
      linarith
    next other =>
      rw [if_neg fun same => other same.symm, zero_add] at here
      exact here

theorem behind_cancelled {xs ys : List Held} (less : List.Forall₂ Held.Less xs ys)
    (nonneg : ∀ h ∈ xs, 0 ≤ h.restore) (owed : ∀ k, 0 ≤ o k)
    (behind : AllBehind limits now o A B)
    (room : ∀ k a, A.buckets.lookup k = some a → 0 < o k →
      a.tokens + (drawn k xs + o k) ≤ a.capacity) :
    AllBehind limits now o (A.cancel xs) (B.cancel ys) := by
  induction less generalizing A B with
  | nil => exact behind
  | @cons x y xs ys pair _ ih =>
    -- both give back to one bucket, the second run at least as much
    obtain ⟨key, le⟩ := pair
    have rest := fun h mem => nonneg h (mem_cons_of_mem _ mem)
    refine ih (A := A.restore x) (B := B.restore y) rest (fun k => ?_) fun k a found some_ => ?_
    · have here := behind k
      rw [lookup_restore, lookup_restore, ← key]
      split
      next same =>
        refine ⟨fun c mem => ?_, fun none => ?_⟩
        · obtain ⟨a, stored, rfl⟩ := map_eq_some_iff.mp mem
          refine (here.trails a stored).restored le (fun some_ => ?_) (owed k)
          have fits := room k a stored some_
          rw [drawn_cons, if_pos same.symm] at fits
          have others : 0 ≤ drawn k xs := drawn_nonneg rest
          linarith
        · rw [here.absent (map_eq_none_iff.mp none), Option.map_none]
      · exact here
    · rw [lookup_restore] at found
      split at found
      next same =>
        obtain ⟨b, stored, rfl⟩ := map_eq_some_iff.mp found
        have fits := room k b stored some_
        rw [drawn_cons, if_pos same.symm] at fits
        have clipped : min b.capacity (b.tokens + x.restore) ≤ b.tokens + x.restore :=
          min_le_right _ _
        show min b.capacity (b.tokens + x.restore) + (drawn k xs + o k) ≤ b.capacity
        linarith
      next other =>
        have fits := room k a found some_
        rwa [drawn_cons, if_neg fun same => other same.symm, zero_add] at fits

end

/-! ### Both runs -/

/-- A reservation by its number, as it is in either run. -/
structure Extra where
  number : Nat
  first : Reservation
  second : Reservation

/-- The first run is behind, with `o` owed to its buckets. The reservations have the same numbers,
and apart from the extra one no shorter delays. -/
structure Slower (limits : String → Limit) (n : Option Extra) (o : String → ℚ) (v u : World) :
    Prop where
  behind : AllBehind limits v.clock o v.limiter u.limiter
  nonneg : ∀ r ∈ v.reservations, ∀ h ∈ r.held, 0 ≤ h.restore
  extra : ∀ e ∈ n, v.reservations[e.number]? = some e.first ∧
    u.reservations[e.number]? = some e.second
  same : v.reservations.length = u.reservations.length
  paired : ∀ i x y, some i ≠ n.map Extra.number → v.reservations[i]? = some x →
    u.reservations[i]? = some y → x.Less y

section
variable {limits : String → Limit} {n : Option Extra} {o : String → ℚ} {v u v' u' : World}
  {cost : Int} {now : ℚ} {reqs : List LimitRequest} {i : Nat}

theorem slower_start (clock : ℚ) :
    Slower limits none (fun _ => 0) (World.start clock) (World.start clock) where
  behind := fun _ => ⟨fun _ found => (nomatch found), fun _ => rfl⟩
  nonneg := nofun
  extra := fun _ none => nomatch none
  same := rfl
  paired := fun _ _ _ _ found => nomatch found

theorem Slower.reserveAll (inv : Slower limits n o v u) (owed : ∀ k, 0 ≤ o k)
    (undisturbed : Undisturbed limits (n.map Extra.number) o v (.reserveAll reqs cost now))
    (h : v.step (.reserveAll reqs cost now) = some v')
    (h' : u.step (.reserveAll reqs cost now) = some u')
    (quiet : u'.limiter.evictions = u.limiter.evictions) : Slower limits n o v' u' := by
  cases h
  cases h'
  obtain ⟨forward, still, fixed⟩ := undisturbed
  have start : Alongside limits o now ⟨v.limiter, 0, [], []⟩ ⟨u.limiter, 0, [], []⟩ :=
    ⟨fun k => (inv.behind k).mono forward, le_refl _, .nil, nofun⟩
  have done := start.all owed (want_pos cost) fixed still quiet
  refine ⟨done.behind, forall_mem_concat inv.nonneg done.nonneg, fun e mine => ?_,
    by simp [inv.same], fun i x y other first second => ?_⟩
  · obtain ⟨first, second⟩ := inv.extra e mine
    exact ⟨getElem?_append_of first, getElem?_append_of second⟩
  · rw [getElem?_append] at first second
    rw [← inv.same] at second
    split at first
    next inside =>
      rw [if_pos inside] at second
      exact inv.paired i x y other first second
    next beyond =>
      rw [if_neg beyond] at second
      obtain ⟨last, rfl⟩ := List.getElem?_eq_some_iff.mp first
      obtain ⟨last', rfl⟩ := List.getElem?_eq_some_iff.mp second
      simp only [getElem_singleton]
      exact ⟨rfl, done.delay, done.held⟩

theorem paired_marked {vs us : List Reservation} {x y : Reservation} {n : Option Nat}
    (same : vs.length = us.length) (first : vs[i]? = some x)
    (paired : ∀ i x y, some i ≠ n → vs[i]? = some x → us[i]? = some y → x.Less y)
    (second : us[i]? = some y) : ∀ j s t, some j ≠ n →
      (vs.set i { x with cancelled := true })[j]? = some s →
      (us.set i { y with cancelled := true })[j]? = some t → s.Less t := by
  intro j s t other here there
  by_cases same_ : i = j
  · subst same_
    have bound := (List.getElem?_eq_some_iff.mp first).1
    rw [getElem?_set_self bound] at here
    rw [getElem?_set_self (same ▸ bound)] at there
    cases here
    cases there
    exact ⟨rfl, (paired i x y other first second).2⟩
  · rw [getElem?_set_ne same_] at here there
    exact paired j s t other here there

section
variable (inv : Slower limits n o v u) (owed : ∀ k, 0 ≤ o k)
include inv owed

theorem Slower.cancel (undisturbed : Undisturbed limits (n.map Extra.number) o v (.cancel i))
    (h : v.step (.cancel i) = some v') (h' : u.step (.cancel i) = some u') :
    Slower limits n o v' u' := by
  obtain ⟨other, room⟩ := undisturbed
  simp only [World.step] at h h'
  split at h
  next x first =>
    split at h'
    next y second =>
      cases h
      cases h'
      refine ⟨fun k => ?_, forall_mem_set inv.nonneg (inv.nonneg x (mem_of_getElem? first)),
        fun e mine => ?_, by simp [inv.same], paired_marked inv.same first inv.paired second⟩
      swap
      · have away : i ≠ e.number := fun same => other (by rw [same, mem_def.mp mine]; rfl)
        simpa only [getElem?_set_ne away] using inv.extra e mine
      obtain ⟨flag, _, less⟩ := inv.paired i x y other first second
      rw [← flag]
      split
      · exact inv.behind k
      · refine behind_cancelled less (inv.nonneg x (mem_of_getElem? first)) owed inv.behind
          (fun k a found some_ => ?_) k
        cases named : names k x.held with
        | false =>
          rw [drawn_of_not_names named, zero_add]
          exact ((inv.behind k).trails a found).fits
        | true =>
          obtain ⟨hold, mem, key⟩ := any_eq_true.mp named
          obtain rfl := of_decide_eq_true key
          exact room x first hold mem some_ a found
    · cases h'
  · cases h

theorem Slower.step {c : Call} (undisturbed : Undisturbed limits (n.map Extra.number) o v c)
    (h : v.step c = some v') (h' : u.step c = some u') (kept : Kept u c) :
    Slower limits n o v' u' := by
  cases c with
  | reserveAll => exact inv.reserveAll owed undisturbed h h' (kept u' h')
  | cancel => exact inv.cancel owed undisturbed h h'
  | forget key =>
    cases h
    cases h'
    refine { inv with behind := fun k => ?_ }
    by_cases here : k = key
    · subst here
      simp only [forget, AList.lookup_erase]
      exact ⟨nofun, fun _ => rfl⟩
    · simp only [forget, AList.lookup_erase_ne here]
      exact inv.behind k
  | _ => exact absurd undisturbed id

theorem Slower.run {calls : List Call}
    (along : AllSteps World.step (Undisturbed limits (n.map Extra.number) o) v calls)
    (along' : AllSteps World.step Kept u calls) (run : exec World.step v calls = some v')
    (run' : exec World.step u calls = some u') : Slower limits n o v' u' := by
  induction calls generalizing v u with
  | nil =>
    cases run
    cases run'
    exact inv
  | cons c rest ih =>
    obtain ⟨x, first, later⟩ := (exec_cons World.step v v' c rest).mp run
    obtain ⟨y, first', later'⟩ := (exec_cons World.step u u' c rest).mp run'
    exact ih (inv.step owed along.1 first first' along'.1) (along.2 x first) (along'.2 y first')
      later later'

end

/-- The reservation that only the first run makes: what it holds is owed. -/
theorem Slower.taken (inv : Slower limits none (fun _ => 0) v u) {r : Reserving}
    (made : v.limiter.reserveAll reqs cost now = r)
    (undisturbed : Undisturbed limits none (fun _ => 0) v (.reserveAll reqs cost now))
    (solvent : ∀ req ∈ reqs, skipped req = false → want cost ≤ (limits req.key).capacity ∨
      0 ≤ (v.limiter.aged (limits req.key) now req.key).tokens)
    (h : v.step (.reserveAll reqs cost now) = some v')
    (h' : u.step (.reserveAll [] cost now) = some u') :
    Slower limits (some ⟨v.reservations.length, ⟨now, r.delay, r.held, false⟩, ⟨now, 0, [], false⟩⟩)
      (fun k => drawn k r.held) v' u' ∧ ∀ h ∈ r.held, 0 ≤ h.restore := by
  cases h
  cases h'
  obtain ⟨forward, still, fixed⟩ := undisturbed
  have start : Taking limits (want cost) now reqs u.limiter ⟨v.limiter, 0, [], []⟩ :=
    ⟨fun k => (inv.behind k).mono forward, by simp, fun k some_ => absurd some_ (lt_irrefl _), solvent⟩
  have done := reserving_invariant (fun acc req mem taken inv quiet =>
    inv.next (want_pos cost) mem taken (fixed req mem taken).1 quiet) start still
  rw [show reqs.foldl (Reserving.next (want cost) now) ⟨v.limiter, 0, [], []⟩ = r from made] at done
  rw [made]
  refine ⟨⟨done.behind, forall_mem_concat inv.nonneg done.nonneg, ?_, by simp [inv.same],
    fun i x y other first second => ?_⟩, done.nonneg⟩
  · -- the two reservations are the last ones of their runs
    rintro _ ⟨⟩
    exact ⟨getElem?_concat_length, by rw [inv.same]; exact getElem?_concat_length⟩
  · have inside : i < v.reservations.length := by
      have bound := (List.getElem?_eq_some_iff.mp first).1
      have away : i ≠ v.reservations.length := fun same => other (congrArg some same)
      simp only [length_append, length_singleton] at bound
      omega
    rw [getElem?_append_left inside] at first
    rw [getElem?_append_left (inv.same ▸ inside)] at second
    exact inv.paired i x y (by simp) first second

theorem Slower.settled {r s : Reservation}
    (inv : Slower limits (some ⟨i, r, s⟩) (fun k => drawn k r.held) v u)
    (stands : r.cancelled = false) (idle : s.held = []) (h : v.step (.cancel i) = some v')
    (h' : u.step (.cancel i) = some u') :
    Slower limits (some ⟨i, { r with cancelled := true }, { s with cancelled := true }⟩)
      (fun _ => 0) v' u' := by
  obtain ⟨first, second⟩ := inv.extra _ rfl
  simp only [World.step, first, second, stands, Bool.false_eq_true, if_false] at h h'
  cases h
  cases h'
  have bound := (List.getElem?_eq_some_iff.mp first).1
  refine ⟨fun k => ?_, forall_mem_set inv.nonneg (inv.nonneg r (mem_of_getElem? first)), ?_,
    by simp [inv.same], paired_marked inv.same first inv.paired second⟩
  · have given := behind_repaid inv.behind k
    rw [idle]
    split <;> exact given
  · rintro _ ⟨⟩
    exact ⟨getElem?_set_self bound, getElem?_set_self (inv.same ▸ bound)⟩

end

/-- A run with a reservation that is cancelled, and the run without it: if nothing disturbs what the
reservation holds until then and no bucket is dropped in either, from the cancellation on no bucket
of the first run holds more, and no other reservation has a shorter delay. -/
theorem cancel_errs_slow (limits : String → Limit) (clock : ℚ) (before between after : List Call)
    (reqs : List LimitRequest) (cost : Int) (now : ℚ) (w x y z v u : World)
    (start : exec World.step (World.start clock) before = some w)
    (took : w.step (.reserveAll reqs cost now) = some x)
    (pending : exec World.step x between = some y)
    (cancelled : y.step (.cancel w.reservations.length) = some z)
    (later : exec World.step z after = some v)
    (without : exec World.step w (.reserveAll [] cost now :: between ++
      .cancel w.reservations.length :: after) = some u)
    (calm : AllSteps World.step (Undisturbed limits none fun _ => 0) (World.start clock)
      (before ++ [.reserveAll reqs cost now]))
    (solvent : ∀ req ∈ reqs, skipped req = false → want cost ≤ (limits req.key).capacity ∨
      0 ≤ (w.limiter.aged (limits req.key) now req.key).tokens)
    (undisturbed : AllSteps World.step (Undisturbed limits (some w.reservations.length) fun k =>
      drawn k (w.limiter.reserveAll reqs cost now).held) x between) (calm' : AllSteps World.step
      (Undisturbed limits (some w.reservations.length) fun _ => 0) z after)
    (kept : AllSteps World.step Kept (World.start clock) (before ++ .reserveAll [] cost now ::
      between ++ .cancel w.reservations.length :: after)) :
    (∀ k t, v.clock ≤ t → (v.limiter.aged (limits k) t k).tokens ≤
      (u.limiter.aged (limits k) t k).tokens) ∧
    ∀ i r s, i ≠ w.reservations.length → v.reservations[i]? = some r →
      u.reservations[i]? = some s → s.delay ≤ r.delay := by
  obtain ⟨first, second⟩ := allSteps_append World.step _ _ w before _ start calm
  obtain ⟨y', run', ends'⟩ := (exec_append World.step w u (_ :: between) _).mp without
  obtain ⟨x', idle, pending'⟩ := (exec_cons World.step w y' _ between).mp run'
  obtain ⟨z', cancelled', later'⟩ := (exec_cons World.step y' u _ after).mp ends'
  rw [append_assoc] at kept
  obtain ⟨kept1, kept2⟩ := allSteps_append World.step _ _ w before _ start kept
  obtain ⟨kept3, kept4⟩ := allSteps_append World.step _ _ y' (_ :: between) _ run' kept2
  -- the runs are the same up to the reservation, which puts the first behind by what it holds
  have common := (slower_start clock).run (fun _ => le_refl _) first kept1 start start
  obtain ⟨taken, nonneg⟩ := common.taken rfl second.1 solvent took idle
  have held := taken.run (fun k => drawn_nonneg nonneg) undisturbed (kept3.2 x' idle) pending pending'
  have settled := (held.settled rfl rfl cancelled cancelled').run (fun _ => le_refl _) calm'
    (kept4.2 z' cancelled') later later'
  constructor
  · intro k t reached
    have behind := settled.behind k
    cases found : v.limiter.buckets.lookup k with
    | none => simp [Limiter.aged, found, behind.absent found]
    | some a =>
      obtain ⟨trails, current⟩ := behind.looked (behind.trails a found).limited reached (le_refl _)
        fun none => absurd none (lt_irrefl _)
      have level := (trails.looked current).2.2
      rwa [add_zero] at level
  · intro i r s away here there
    exact (settled.paired i r s (by simpa using away) here there).2.1

/-- Ten at once and one a second: with two left five are reserved, or none, and cancelled when
another reservation has been made. -/
def cancelledOnce (reqs : List LimitRequest) : List Call :=
  [.reserveAll [⟨"t", tenAtOnce⟩] 8 0, .reserveAll reqs 5 1, .reserveAll [⟨"t", tenAtOnce⟩] 4 2,
    .cancel 1, .reserveAll [⟨"t", tenAtOnce⟩] 1 3]

theorem cancel_errs_slow_once : ∃ v u : World,
    exec World.step (World.start 0) (cancelledOnce [⟨"t", tenAtOnce⟩]) = some v ∧
    exec World.step (World.start 0) (cancelledOnce []) = some u ∧
    (∀ k t, v.clock ≤ t → (v.limiter.aged tenAtOnce t k).tokens ≤
      (u.limiter.aged tenAtOnce t k).tokens) ∧
    ∀ i r s, i ≠ 1 → v.reservations[i]? = some r → u.reservations[i]? = some s →
      s.delay ≤ r.delay := by
  refine ⟨_, _, rfl, rfl, cancel_errs_slow (fun _ => tenAtOnce) 0
    [.reserveAll [⟨"t", tenAtOnce⟩] 8 0] [.reserveAll [⟨"t", tenAtOnce⟩] 4 2]
    [.reserveAll [⟨"t", tenAtOnce⟩] 1 3] [⟨"t", tenAtOnce⟩] 5 1
    _ _ _ _ _ _ rfl rfl rfl rfl rfl rfl ?_ ?_ ?_ ?_ ?_⟩
  all_goals decide +kernel

/-- The bucket is full again before the cancellation, and four are taken: ten tokens are left where
the other run has six. -/
theorem cancelled_after_full : ∃ v u,
    exec World.step (World.start 0) [.reserveAll [⟨"t", tenAtOnce⟩] 5 0,
      .reserveAll [⟨"t", tenAtOnce⟩] 4 9, .cancel 0] = some v ∧
    exec World.step (World.start 0) [.reserveAll [] 5 0,
      .reserveAll [⟨"t", tenAtOnce⟩] 4 9, .cancel 0] = some u ∧
    (v.limiter.aged tenAtOnce 9 "t").tokens = 10 ∧ (u.limiter.aged tenAtOnce 9 "t").tokens = 6 := by
  refine ⟨_, _, rfl, rfl, ?_⟩
  decide +kernel

end Panmail.RateLimit
