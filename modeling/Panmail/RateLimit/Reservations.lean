import Mathlib.Algebra.Order.BigOperators.Group.List
import Panmail.RateLimit.Lookup

/-!
# Reservations never outrun the rate

A reservation is charged when it is made and is good once its delay is over. Each bucket is followed
with a ledger of the reservations on it that stand.
-/
namespace Panmail.RateLimit

open TokenBuckets Runs List

/-! ### The ledger of a bucket -/

def names (k : String) (held : List Held) : Bool := held.any fun h => h.key = k

/-- What it took from it: its cost, as often as it named the bucket. -/
def drawn (k : String) (held : List Held) : ℚ :=
  ((held.filter fun h => h.key = k).map Held.restore).sum

def Reservation.slot (r : Reservation) : ℚ := r.time + r.delay

/-- The total cost, to the bucket, of the reservations not cancelled and good by `t`. -/
def reservedBy (k : String) (t : ℚ) (rs : List Reservation) : ℚ :=
  ((rs.filter fun r => !r.cancelled && r.slot ≤ t).map fun r => drawn k r.held).sum

def Reservation.entry (k : String) (r : Reservation) : Option (Entry ℚ) :=
  if r.cancelled || !names k r.held then none else some ⟨drawn k r.held, r.slot⟩

open Reservation

def ledger (k : String) (rs : List Reservation) : List (Entry ℚ) := rs.filterMap (·.entry k)

section
variable {k : String} {held : List Held} {rs : List Reservation} {r : Reservation}

@[simp] theorem names_append (h : Held) :
    names k (held ++ [h]) = (names k held || decide (h.key = k)) := by simp [names]

theorem drawn_append (h : Held) :
    drawn k (held ++ [h]) = drawn k held + if h.key = k then h.restore else 0 := by
  by_cases here : h.key = k <;> simp [drawn, here]

theorem drawn_cons (h : Held) (rest : List Held) :
    drawn k (h :: rest) = (if h.key = k then h.restore else 0) + drawn k rest := by
  by_cases here : h.key = k <;> simp [drawn, here]

theorem drawn_of_not_names (away : names k held = false) : drawn k held = 0 := by
  have none : held.filter (fun h => h.key = k) = [] := by
    apply filter_eq_nil_iff.mpr
    simpa [names] using away
  simp [drawn, none]

theorem drawn_nonneg (nonneg : ∀ h ∈ held, 0 ≤ h.restore) : 0 ≤ drawn k held := by
  apply sum_nonneg
  intro x mem
  obtain ⟨h, inside, rfl⟩ := mem_map.mp mem
  exact nonneg h (mem_filter.mp inside).1

theorem ledger_append : ledger k (rs ++ [r]) = ledger k rs ++ (r.entry k).toList := by
  cases entry : r.entry k <;> simp [ledger, entry]

theorem reservedBy_eq (t : ℚ) :
    reservedBy k t rs = total ((ledger k rs).filter fun x => x.due ≤ t) := by
  induction rs with
  | nil => rfl
  | cons r rs ih =>
    have rest : reservedBy k t (r :: rs) =
        (if !r.cancelled && r.slot ≤ t then drawn k r.held else 0) + reservedBy k t rs := by
      simp only [reservedBy, filter_cons]
      split <;> simp
    rw [rest, ih]
    -- a reservation without an entry is cancelled or took nothing
    by_cases gone : r.cancelled = true
    · simp [ledger, entry, gone]
    · by_cases named : names k r.held = true
      · by_cases due : r.slot ≤ t <;> simp [ledger, entry, gone, named, due]
      · rw [Bool.not_eq_true] at named
        simp [ledger, entry, named, drawn_of_not_names named]

theorem ledger_cancel (k : String) {i : Nat} (found : rs[i]? = some r) :
    (ledger k (rs.set i { r with cancelled := true })).Sublist (ledger k rs) ∧
      total (ledger k rs) = total (ledger k (rs.set i { r with cancelled := true })) +
        if r.cancelled then 0 else drawn k r.held := by
  induction rs generalizing i with
  | nil => simp at found
  | cons s _ ih =>
    cases i with
    | zero =>
      simp only [getElem?_cons_zero, Option.some.injEq] at found
      subst s
      have struck : entry k { r with cancelled := true } = none := by
        simp [entry]
      simp only [set_cons_zero, ledger, filterMap_cons, struck]
      constructor
      · split
        · exact List.Sublist.refl _
        · exact sublist_cons_self _ _
      · by_cases named : names k r.held = true
        · cases stands : r.cancelled <;> simp [entry, stands, named, add_comm]
        · rw [Bool.not_eq_true] at named
          simp [entry, named, drawn_of_not_names named]
    | succ i =>
      have rest := ih (i := i) (by simpa using found)
      simp only [set_cons_succ, ledger, filterMap_cons] at rest ⊢
      split
      · exact rest
      · refine ⟨rest.1.cons_cons _, ?_⟩
        rw [total_cons, total_cons, rest.2, add_assoc]

end

/-! ### A bucket and its ledger -/

/-- The bucket holds no more than its ledger leaves it, with `taken` charged or still to be
given back on top of the entries. -/
structure Balanced (b : Bucket) (xs : List (Entry ℚ)) (taken : ℚ) : Prop where
  rate : 0 < b.perSec
  room : 0 ≤ b.capacity
  within : b.tokens ≤ b.capacity
  made : b.created ≤ b.refilled
  covered : Covered b.capacity b.perSec b.created b.refilled b.tokens (total xs + taken)
  paced : Paced (fun u => b.capacity + b.perSec * (u - b.created)) 0 xs
  amounts : ∀ x ∈ xs, 0 ≤ x.amount
  dues : ∀ x ∈ xs, b.created ≤ x.due

section
variable {b : Bucket} {xs ys : List (Entry ℚ)} {taken amount now delay : ℚ}

theorem balanced_full {limit : Limit} (limited : limit.unlimited = false) (now : ℚ) :
    Balanced (Bucket.full limit now) [] 0 where
  rate := rateOf_pos limited
  room := le_of_lt (capacity_pos limited)
  within := le_refl _
  made := le_refl _
  covered := by
    rw [total_nil, add_zero]
    exact covered_start (le_of_lt (rateOf_pos limited)) (le_refl _) (le_refl _)
  paced := trivial
  amounts := nofun
  dues := nofun

theorem Balanced.refill (balanced : Balanced b xs taken) (behind : b.refilled ≤ now) :
    Balanced (b.refill now) xs taken where
  rate := by simpa using balanced.rate
  room := by simpa using balanced.room
  within := by
    rw [refill_tokens behind balanced.within, refill_capacity]
    exact min_le_left _ _
  made := by
    rw [refill_refilled behind, refill_created]
    exact le_trans balanced.made behind
  covered := by
    rw [refill_tokens behind balanced.within, refill_refilled behind, refill_capacity,
      refill_perSec, refill_created]
    exact balanced.covered.pass
  paced := by simpa using balanced.paced
  amounts := balanced.amounts
  dues := by simpa using balanced.dues

theorem Balanced.spend (balanced : Balanced b xs taken) (positive : 0 ≤ amount) :
    Balanced { b with tokens := b.tokens - amount } xs (taken + amount) where
  rate := balanced.rate
  room := balanced.room
  within := by
    have within := balanced.within
    linarith
  made := balanced.made
  covered := by
    rw [← add_assoc]
    exact balanced.covered.spend
  paced := balanced.paced
  amounts := balanced.amounts
  dues := balanced.dues

theorem Balanced.refund (balanced : Balanced b xs (amount + taken)) :
    Balanced { b with tokens := min b.capacity (b.tokens + amount) } xs taken where
  rate := balanced.rate
  room := balanced.room
  within := min_le_left _ _
  made := balanced.made
  covered := by
    have covered := balanced.covered
    rw [add_comm amount, ← add_assoc] at covered
    exact covered.refund
  paced := balanced.paced
  amounts := balanced.amounts
  dues := balanced.dues

theorem Balanced.enter (balanced : Balanced b xs taken) (current : b.refilled = now)
    (nonneg : 0 ≤ taken) (wait : 0 ≤ delay) (paid : -(delay * b.perSec) ≤ b.tokens) :
    Balanced b (xs ++ [⟨taken, now + delay⟩]) 0 where
  rate := balanced.rate
  room := balanced.room
  within := balanced.within
  made := balanced.made
  covered := by simpa using balanced.covered
  paced := by
    refine paced_push balanced.paced ?_
    have covered := balanced.covered
    rw [Covered, current] at covered
    linarith
  amounts := by exact forall_mem_concat balanced.amounts nonneg
  dues := by
    refine forall_mem_concat balanced.dues ?_
    have made := balanced.made
    linarith

theorem Balanced.strike (balanced : Balanced b xs 0) (fewer : ys.Sublist xs)
    (struck : total xs = total ys + taken) : Balanced b ys taken where
  rate := balanced.rate
  room := balanced.room
  within := balanced.within
  made := balanced.made
  covered := by
    have covered := balanced.covered
    rw [struck, add_zero] at covered
    exact covered
  paced := balanced.paced.sublist balanced.amounts (le_refl _) fewer
  amounts := fun x mem => balanced.amounts x (fewer.subset mem)
  dues := fun x mem => balanced.dues x (fewer.subset mem)

theorem Balanced.due_by (balanced : Balanced b xs 0) (t : ℚ) :
    (b.created ≤ t → total (xs.filter fun x => x.due ≤ t) ≤
      b.capacity + b.perSec * (t - b.created)) ∧
    (t < b.created → total (xs.filter fun x => x.due ≤ t) = 0) := by
  constructor
  · intro since
    rcases balanced.paced.due_by (monotone_bound (le_of_lt balanced.rate)) balanced.amounts t
      with none | some
    · have flowed := mul_nonneg (le_of_lt balanced.rate) (sub_nonneg.mpr since)
      rw [none, total_nil]
      linarith [balanced.room]
    · simpa using some
  · intro early
    have none : xs.filter (fun x => x.due ≤ t) = [] := by
      apply filter_eq_nil_iff.mpr
      intro x mem due
      exact absurd (of_decide_eq_true due) (not_le.mpr (lt_of_lt_of_le early (balanced.dues x mem)))
    rw [none, total_nil]

end

/-! ### The loop of `ReserveAll` -/

theorem debt_paid {b : Bucket} {delay : ℚ} (rate : 0 < b.perSec) (nonneg : 0 ≤ delay)
    (waited : b.wait ≤ delay) : -(delay * b.perSec) ≤ b.tokens := by
  unfold Bucket.wait at waited
  split at waited
  · have scaled := (div_le_iff₀ rate).mp waited
    linarith
  next credit =>
    have paid := mul_nonneg nonneg (le_of_lt rate)
    linarith

theorem next_evictions (cost now : ℚ) (acc : Reserving) (req : LimitRequest) :
    acc.limiter.evictions ≤ (acc.next cost now req).limiter.evictions := by
  have looked := look_evictions acc.limiter req.key req.limit now
  unfold Reserving.next
  split
  · exact le_refl _
  · dsimp only
    split <;> exact looked

theorem reserving_evictions (cost now : ℚ) (reqs : List LimitRequest) (acc : Reserving) :
    acc.limiter.evictions ≤ (reqs.foldl (Reserving.next cost now) acc).limiter.evictions := by
  induction reqs generalizing acc with
  | nil => exact le_refl _
  | cons req _ ih => exact le_trans (next_evictions cost now acc req) (ih _)

/-- What every request that is not skipped keeps, a `ReserveAll` that drops no bucket keeps. -/
theorem reserving_invariant {P : Reserving → Prop} {cost now : ℚ} {reqs : List LimitRequest}
    (step : ∀ acc, ∀ req ∈ reqs, skipped req = false → P acc →
      (acc.next cost now req).limiter.evictions = acc.limiter.evictions → P (acc.next cost now req))
    {acc : Reserving} (start : P acc)
    (quiet : (reqs.foldl (Reserving.next cost now) acc).limiter.evictions = acc.limiter.evictions) :
    P (reqs.foldl (Reserving.next cost now) acc) := by
  induction reqs generalizing acc with
  | nil => exact start
  | cons req rest ih =>
    rw [foldl_cons] at quiet ⊢
    -- buckets are dropped for good, so none is dropped by this request or by the others
    have first := next_evictions cost now acc req
    have others := reserving_evictions cost now rest (acc.next cost now req)
    refine ih (fun acc r mem => step acc r (mem_cons_of_mem _ mem)) ?_ (by omega)
    by_cases away : skipped req = true
    · rw [next_skipped away]
      exact start
    · exact step acc req mem_cons_self (by simpa using away) start (by omega)

/-- Every bucket is balanced in the middle of a `ReserveAll`, and those it has charged by now
are in credit after the delay so far. -/
structure Charging (limits : String → Limit) (now : ℚ) (rs : List Reservation)
    (acc : Reserving) : Prop where
  rated : acc.limiter.Rated limits
  behind : ∀ key b, acc.limiter.buckets.lookup key = some b → b.refilled ≤ now
  wait : 0 ≤ acc.delay
  nonneg : ∀ h ∈ acc.held, 0 ≤ h.restore
  absent : ∀ k, acc.limiter.buckets.lookup k = none →
    ledger k rs = [] ∧ names k acc.held = false
  present : ∀ k b, acc.limiter.buckets.lookup k = some b →
    Balanced b (ledger k rs) (drawn k acc.held)
  paid : ∀ k b, acc.limiter.buckets.lookup k = some b → names k acc.held = true →
    b.refilled = now ∧ -(acc.delay * b.perSec) ≤ b.tokens

section
variable {limits : String → Limit} {now cost : ℚ} {rs : List Reservation} {acc : Reserving}
  {req : LimitRequest}

theorem Charging.aged (inv : Charging limits now rs acc) {key : String}
    (limited : (limits key).unlimited = false) :
    Balanced (acc.limiter.aged (limits key) now key) (ledger key rs) (drawn key acc.held) ∧
      (acc.limiter.aged (limits key) now key).refilled = now := by
  unfold Limiter.aged
  cases found : acc.limiter.buckets.lookup key with
  | none =>
    obtain ⟨empty, fresh⟩ := inv.absent key found
    rw [empty, drawn_of_not_names fresh]
    exact ⟨balanced_full limited now, rfl⟩
  | some b =>
    have behind := inv.behind key b found
    exact ⟨(inv.present key b found).refill behind, refill_refilled behind⟩

theorem next_affordable (rated : acc.limiter.Rated limits) (taken : skipped req = false)
    (limit : req.limit = limits req.key) (affordable : cost ≤ req.limit.capacity)
    (quiet : (acc.next cost now req).limiter.evictions = acc.limiter.evictions) {charged : Bucket}
    (charge : charged = { acc.limiter.aged (limits req.key) now req.key with
      tokens := (acc.limiter.aged (limits req.key) now req.key).tokens - cost }) :
    (∀ k, (acc.next cost now req).limiter.buckets.lookup k =
        if k = req.key then some charged else acc.limiter.buckets.lookup k) ∧
      (acc.next cost now req).delay = max acc.delay charged.wait ∧
      (acc.next cost now req).held = acc.held ++ [⟨req.key, cost⟩] := by
  have holds : ¬ (acc.limiter.aged (limits req.key) now req.key).capacity < cost := by
    rw [(aged_rated rated req.key now).2, ← limit]
    exact not_lt.mpr affordable
  have all := next_taken rated taken limit quiet rfl
  simpa only [Bucket.charged, Bucket.taken, holds, if_false, ← charge] using all

theorem Charging.next (inv : Charging limits now rs acc) (positive : 0 < cost)
    (taken : skipped req = false) (limit : req.limit = limits req.key)
    (affordable : cost ≤ req.limit.capacity)
    (quiet : (acc.next cost now req).limiter.evictions = acc.limiter.evictions) :
    Charging limits now rs (acc.next cost now req) := by
  obtain ⟨balanced, current⟩ := inv.aged (limited_of_taken taken limit)
  have rated := aged_rated inv.rated req.key now
  obtain ⟨charged, charge⟩ : ∃ charged, charged =
    { acc.limiter.aged (limits req.key) now req.key with
      tokens := (acc.limiter.aged (limits req.key) now req.key).tokens - cost } := ⟨_, rfl⟩
  obtain ⟨lookups, delays, held⟩ :=
    next_affordable inv.rated taken limit affordable quiet charge
  have spent := balanced.spend (le_of_lt positive)
  rw [← charge] at spent
  refine ⟨?_, ?_, ?_, ?_, ?_, ?_, ?_⟩
  · intro key b found
    rw [lookups] at found
    split at found
    next same =>
      cases found
      rw [same, charge]
      exact rated
    · exact inv.rated key b found
  · intro key b found
    rw [lookups] at found
    split at found
    next same =>
      cases found
      rw [charge]
      exact le_of_eq current
    · exact inv.behind key b found
  · rw [delays]
    exact le_max_of_le_left inv.wait
  · rw [held]
    exact forall_mem_concat inv.nonneg (le_of_lt positive)
  · intro k missing
    rw [lookups] at missing
    split at missing
    · cases missing
    next other =>
      obtain ⟨empty, fresh⟩ := inv.absent k missing
      rw [held, names_append, fresh]
      exact ⟨empty, by simpa using fun same => other same.symm⟩
  · intro k b found
    rw [lookups] at found
    rw [held, drawn_append]
    split at found
    next same =>
      cases found
      rw [if_pos same.symm, same]
      exact spent
    next other =>
      rw [if_neg fun same => other same.symm, add_zero]
      exact inv.present k b found
  · intro k b found named
    rw [lookups] at found
    rw [held, names_append] at named
    rw [delays]
    split at found
    next same =>
      cases found
      refine ⟨by rw [charge]; exact current, ?_⟩
      -- the wait is as long as the debt takes to be paid off
      exact debt_paid spent.rate (le_max_of_le_left inv.wait) (le_max_right _ _)
    next other =>
      have away : req.key ≠ k := fun same => other same.symm
      have before : names k acc.held = true := by simpa [away] using named
      obtain ⟨refilled, paid⟩ := inv.paid k b found before
      have rate := (inv.present k b found).rate
      -- for other buckets the wait has only become longer
      have longer := mul_le_mul_of_nonneg_right (le_max_left acc.delay charged.wait)
        (le_of_lt rate)
      exact ⟨refilled, by linarith⟩

end

/-! ### Runs -/

structure Reserved (limits : String → Limit) (w : World) : Prop where
  rated : w.limiter.Rated limits
  behind : ∀ key b, w.limiter.buckets.lookup key = some b → b.refilled ≤ w.clock
  nonneg : ∀ r ∈ w.reservations, ∀ h ∈ r.held, 0 ≤ h.restore
  absent : ∀ k, w.limiter.buckets.lookup k = none → ledger k w.reservations = []
  present : ∀ k b, w.limiter.buckets.lookup k = some b → Balanced b (ledger k w.reservations) 0

/-- A call of `ReserveAll` or `Cancel`; a `ReserveAll` on a clock that does not go back, with
the limits fixed and a cost that the buckets it names can hold. -/
def Orderly (limits : String → Limit) (w : World) : Call → Prop
  | .reserveAll reqs cost now => w.clock ≤ now ∧ ∀ req ∈ reqs, skipped req = false →
      req.limit = limits req.key ∧ want cost ≤ req.limit.capacity
  | .cancel _ => True
  | .allow _ _ _ _ | .allowAll _ _ _ | .forget _ => False

instance (limits : String → Limit) (w : World) : ∀ c, Decidable (Orderly limits w c)
  | .reserveAll _ _ _ => inferInstanceAs (Decidable (_ ∧ ∀ req ∈ _, _))
  | .cancel _ => isTrue trivial
  | .allow _ _ _ _ | .allowAll _ _ _ | .forget _ => isFalse id

theorem reserved_start (limits : String → Limit) (clock : ℚ) :
    Reserved limits (World.start clock) where
  rated := fun _ _ found => nomatch found
  behind := fun _ _ found => nomatch found
  nonneg := nofun
  absent := fun _ _ => rfl
  present := fun _ _ found => nomatch found

section
variable {limits : String → Limit} {w v : World} {c : Call}

theorem reserved_reserveAll (inv : Reserved limits w) {reqs : List LimitRequest}
    {cost : Int} {now : ℚ} (orderly : Orderly limits w (.reserveAll reqs cost now))
    (h : w.step (.reserveAll reqs cost now) = some v)
    (quiet : v.limiter.evictions = w.limiter.evictions) : Reserved limits v := by
  cases h
  obtain ⟨forward, fixed⟩ := orderly
  have start : Charging limits now w.reservations ⟨w.limiter, 0, [], []⟩ := by
    refine ⟨inv.rated, ?_, le_refl _, ?_, ?_, inv.present, ?_⟩
    · exact fun key b found => le_trans (inv.behind key b found) forward
    · exact nofun
    · exact fun k missing => ⟨inv.absent k missing, rfl⟩
    · exact fun _ _ _ named => nomatch named
  have done : Charging limits now w.reservations (w.limiter.reserveAll reqs cost now) := by
    refine reserving_invariant (fun acc req mem taken inv quiet => ?_) start quiet
    obtain ⟨limit, affordable⟩ := fixed req mem taken
    exact inv.next (want_pos cost) taken limit affordable quiet
  refine ⟨done.rated, done.behind, ?_, ?_, ?_⟩
  · exact forall_mem_concat inv.nonneg done.nonneg
  · intro k missing
    obtain ⟨empty, fresh⟩ := done.absent k missing
    simp [ledger_append, empty, entry, fresh]
  · intro k b found
    have balanced := done.present k b found
    cases named : names k (w.limiter.reserveAll reqs cost now).held with
    | false =>
      rw [drawn_of_not_names named] at balanced
      simpa [ledger_append, entry, named] using balanced
    | true =>
      obtain ⟨current, paid⟩ := done.paid k b found named
      have entered := balanced.enter current (drawn_nonneg done.nonneg) done.wait paid
      simpa [ledger_append, entry, slot, named] using entered

theorem cancel_balanced (held : List Held) (l : Limiter) (clock : ℚ)
    (rs : List Reservation) (rated : l.Rated limits)
    (behind : ∀ key b, l.buckets.lookup key = some b → b.refilled ≤ clock)
    (absent : ∀ k, l.buckets.lookup k = none → ledger k rs = [])
    (present : ∀ k b, l.buckets.lookup k = some b → Balanced b (ledger k rs) (drawn k held)) :
    (l.cancel held).Rated limits ∧
      (∀ key b, (l.cancel held).buckets.lookup key = some b → b.refilled ≤ clock) ∧
      (∀ k, (l.cancel held).buckets.lookup k = none → ledger k rs = []) ∧
      ∀ k b, (l.cancel held).buckets.lookup k = some b → Balanced b (ledger k rs) 0 := by
  induction held generalizing l with
  | nil => exact ⟨rated, behind, absent, present⟩
  | cons h rest ih =>
    have unfolded : l.cancel (h :: rest) = (l.restore h).cancel rest := rfl
    -- one bucket gets its share back, and what is drawn is less by that
    refine ih _ ?_ ?_ ?_ ?_
    · exact restored_of (fun key b => b.Rated (limits key)) rated fun _ _ _ holds => holds
    · exact restored_of (fun _ b => b.refilled ≤ clock) behind fun _ _ _ holds => holds
    · intro k missing
      rw [lookup_restore] at missing
      split at missing
      · exact absent k (by simpa using missing)
      · exact absent k missing
    · intro k b stored
      rw [lookup_restore] at stored
      split at stored
      next here =>
        obtain ⟨c, found, rfl⟩ := Option.map_eq_some_iff.mp stored
        have balanced := present k c found
        rw [drawn_cons, if_pos here.symm] at balanced
        exact balanced.refund
      next other =>
        have balanced := present k b stored
        rw [drawn_cons, if_neg fun same => other same.symm, zero_add] at balanced
        exact balanced

theorem cancel_evictions (held : List Held) (l : Limiter) :
    (l.cancel held).evictions = l.evictions := by
  induction held generalizing l with
  | nil => rfl
  | cons h _ ih =>
    refine (ih (l.restore h)).trans ?_
    unfold Limiter.restore
    split <;> rfl

theorem reserved_cancel (inv : Reserved limits w) {i : Nat}
    (h : w.step (.cancel i) = some v) : Reserved limits v := by
  simp only [World.step] at h
  split at h <;> cases h
  next r found =>
    have struck := fun k => ledger_cancel k found
    have nonneg : ∀ x ∈ w.reservations.set i { r with cancelled := true }, ∀ h ∈ x.held,
        0 ≤ h.restore :=
      forall_mem_set inv.nonneg (inv.nonneg r (mem_of_getElem? found))
    have absent : ∀ k, w.limiter.buckets.lookup k = none →
        ledger k (w.reservations.set i { r with cancelled := true }) = [] := by
      intro k missing
      have fewer := (struck k).1
      rw [inv.absent k missing] at fewer
      exact sublist_nil.mp fewer
    cases gone : r.cancelled with
    | true =>
      refine ⟨inv.rated, inv.behind, nonneg, absent, fun k b found_ => ?_⟩
      have same := (struck k).2
      rw [gone, if_pos rfl] at same
      exact (inv.present k b found_).strike (struck k).1 same
    | false =>
      obtain ⟨rated, behind, missing, present⟩ := cancel_balanced r.held w.limiter w.clock
        (w.reservations.set i { r with cancelled := true }) inv.rated inv.behind absent
        fun k b found_ => by
          have less := (struck k).2
          rw [gone, if_neg Bool.false_ne_true] at less
          exact (inv.present k b found_).strike (struck k).1 less
      exact ⟨rated, behind, nonneg, missing, present⟩

theorem step_evictions (h : w.step c = some v) (orderly : Orderly limits w c) :
    w.limiter.evictions ≤ v.limiter.evictions := by
  cases c with
  | reserveAll reqs cost now =>
    cases h
    exact reserving_evictions (want cost) now reqs ⟨w.limiter, 0, [], []⟩
  | cancel =>
    simp only [World.step] at h
    split at h
    · cases h
      split
      · exact le_refl _
      · exact le_of_eq (cancel_evictions _ _).symm
    · cases h
  | _ => exact absurd orderly id

theorem Reserved.step (inv : Reserved limits w) (orderly : Orderly limits w c)
    (h : w.step c = some v) (quiet : v.limiter.evictions = w.limiter.evictions) :
    Reserved limits v := by
  cases c with
  | reserveAll => exact reserved_reserveAll inv orderly h quiet
  | cancel => exact reserved_cancel inv h
  | _ => exact absurd orderly id

end

def tenAtOnce : Limit := ⟨60, 10⟩

def pacedCalls : List Call :=
  [.reserveAll [⟨"t", tenAtOnce⟩] 8 0, .reserveAll [⟨"t", tenAtOnce⟩] 8 1,
    .reserveAll [⟨"t", tenAtOnce⟩] 4 1, .cancel 1]

end Panmail.RateLimit
