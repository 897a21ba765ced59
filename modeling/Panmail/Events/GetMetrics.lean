import Panmail.Events.Metrics

/-!
# `GetMetrics`

A range that is closed at both ends is totalled by the walk over mixed counters. Without a range
the totals of the types are read as they stand; a range open at one end adds up minutes. Where
counters have nothing to say, the events themselves are counted.
-/
namespace Panmail.Events

open ByteStrings KeyValue Runs Delivery List

def metricTotals (counters : Store Bytes Bytes) (tenantID : String) : Totals :=
  let start := utf8 "metrics:" ++ (utf8 tenantID ++ [colon])
  (counters.scan start (start ++ [255])).foldl (fun res r =>
    let parts := r.1.splitOn colon
    if parts.length < 3 then res else res.set (parts.getLast?.getD []) (counterValue r.2)) .empty

/-- The bucket and the type that a counter of a series is for. -/
def seriesParts (family : Family) (key : Bytes) : Option (Bytes × Bytes) :=
  match family, key.splitOn colon with
  | .day, _ :: _ :: date :: type :: _ => some (date, type)
  | .hour, _ :: _ :: _ :: hour :: type :: _ => some (hour, type)
  | .minute, _ :: _ :: _ :: hour :: minute :: type :: _ => some (hour ++ colon :: minute, type)
  | _, _ => none

abbrev Series := Store Bytes Totals

def eventsBetween (db : DB) (tenantID : String) (start end_ : Int) : List EmailEvent :=
  let filter : ListFilter := ⟨0, [], "", .unspecified, start, end_, "", false, false, ""⟩
  let bounds := Pebble.listBounds tenantID filter
  (db.scan bounds.1 bounds.2).filterMap Pebble.body

/-- The name of an event's bucket where no counters are found; an hour is written in full. -/
def eventBucket (family : Family) (e : EmailEvent) : Bytes :=
  match family with
  | .hour => family.format e.timestamp ++ utf8 ":00"
  | _ => family.format e.timestamp

def getTimeSeriesMetrics (db : DB) (counters : Store Bytes Bytes) (tenantID : String)
    (start end_ : Int) (granularity : Family) : Series :=
  let base := granularity.base tenantID
  let lower := if start = zeroTime then base else base ++ granularity.format start
  let upper := if end_ = zeroTime then base ++ [255]
    else base ++ (granularity.format end_ ++ [255])
  let res : Series := (counters.scan lower upper).foldl (fun res r =>
    match seriesParts granularity r.1 with
    | none => res
    | some (bucket, type) =>
      res.set bucket (((res.get bucket).getD .empty).set type (counterValue r.2))) .empty
  if res.rows ≠ [] then res
  else (eventsBetween db tenantID start end_).foldl (fun res e =>
    let bucket := eventBucket granularity e
    res.set bucket (addTo ((res.get bucket).getD .empty) (utf8 (typeStr e.type)) 1)) .empty

def eventTotals (db : DB) (tenantID : String) (start end_ : Int) : Totals :=
  (eventsBetween db tenantID start end_).foldl (fun res e => addTo res (utf8 (typeStr e.type)) 1)
    .empty

/-- The walk over the counters of a closed range may take at most `fuel` rounds. -/
def getMetrics (db : DB) (counters : Store Bytes Bytes) (tenantID : String) (fuel : Nat)
    (start end_ : Int) : Option Totals :=
  if start = zeroTime ∧ end_ = zeroTime then some (metricTotals counters tenantID)
  else if start ≠ zeroTime ∧ end_ ≠ zeroTime then
    if end_ < start then some .empty
    else
      (rangeCounters counters tenantID fuel start end_).map fun res =>
        if res.rows ≠ [] then res else eventTotals db tenantID start end_
  else
    let series := getTimeSeriesMetrics db counters tenantID start end_ .minute
    some (if series.rows ≠ [] then
      series.rows.foldl (fun res bucket =>
        bucket.2.rows.foldl (fun res r => addTo res r.1 r.2) res) .empty
    else eventTotals db tenantID start end_)

/-! ### Totals of a closed range -/

/-- The number of a tenant's events of a type whose minute is one of the range. -/
def countInMinutes (es : List EmailEvent) (t : String) (start end_ : Int) (type : EventType) : Nat :=
  es.countP fun e => e.tenantID = t ∧ e.type = type ∧
    Family.minute.bucket start ≤ Family.minute.bucket e.timestamp ∧
      Family.minute.bucket e.timestamp ≤ Family.minute.bucket end_

/-- Each type has its number, as an `int64`. -/
def CountsTypes (es : List EmailEvent) (t : String) (start end_ : Int) (totals : Totals) : Prop :=
  ∀ type, (totals.get (utf8 (typeStr type))).getD 0 = int64 (countInMinutes es t start end_ type)

/-- The range, in whole minutes, is no longer than a `Duration`. -/
def WholeMinutesFit (start end_ : Int) : Prop :=
  FitsDuration (Family.minute.bucket end_ - Family.minute.bucket start + 1)

section
variable {es : List EmailEvent} {counters : Store Bytes Bytes} {t : String} {start end_ : Int}
  {e : EmailEvent}

theorem between_minutes (es : List EmailEvent) (t : String) (start end_ : Int) (type : EventType) :
    between es t (truncate start) (nanosPerMinute * (Family.minute.bucket end_ + 1))
      (utf8 (typeStr type)) = countInMinutes es t start end_ type := by
  have step : Family.minute.minutes = 1 := rfl
  refine countP_congr fun e _ => ?_
  have aligned : Family.minute.minutes ∣ Family.minute.bucket start := Int.one_dvd _
  have interval := bucket_between (n := Family.minute.bucket end_ - Family.minute.bucket start + 1)
    aligned e.timestamp
  have last : Family.minute.bucket start + 1 * (Family.minute.bucket end_ -
      Family.minute.bucket start + 1 - 1) = Family.minute.bucket end_ := by omega
  have next : Family.minute.bucket start + 1 * (Family.minute.bucket end_ -
      Family.minute.bucket start + 1) = Family.minute.bucket end_ + 1 := by omega
  rw [step, last, next, bucket_minute, bucket_minute] at interval
  have named : utf8 (typeStr e.type) = utf8 (typeStr type) ↔ e.type = type :=
    ⟨fun same => typeStr_inj (utf8_injective same), fun same => by rw [same]⟩
  rw [decide_eq_true_eq, decide_eq_true_eq, named, truncate]
  constructor
  · rintro ⟨own, low, high, same⟩
    exact ⟨own, same, interval.mpr ⟨low, high⟩⟩
  · rintro ⟨own, same, within⟩
    obtain ⟨low, high⟩ := interval.mp within
    exact ⟨own, low, high, same⟩

theorem walkable_of_range (counted : Counted es counters) (tenants : ∀ e ∈ es, Tenant e.tenantID)
    (dates : ∀ e ∈ es, Dated e.timestamp) (tenant : Tenant t) (set : zeroTime < start)
    (ordered : start ≤ end_) (dated : Dated end_) (fit : WholeMinutesFit start end_) :
    Walkable es counters t (Family.minute.bucket start) (Family.minute.bucket end_) := by
  have sameDay (at_ : Int) : Dated (nanosPerMinute * Family.minute.bucket at_) ↔ Dated at_ := by
    unfold Dated dayOf
    rw [bucket_day, day_bucket]
  have zero : Dated zeroTime := by decide
  refine ⟨counted, tenants, dates, tenant, ?_, (sameDay end_).mpr dated, ?_, fit⟩
  · exact (sameDay start).mpr (zero.mid dated (le_of_lt set) ordered)
  · have after : Family.minute.bucket zeroTime ≤ Family.minute.bucket start :=
      Int.ediv_le_ediv (by decide) (le_of_lt set)
    rwa [zeroTime_eq, bucket_minute] at after

theorem rangeCounters_spec (tenants : ∀ e ∈ es, Tenant e.tenantID)
    (dates : ∀ e ∈ es, Dated e.timestamp) (tenant : Tenant t) (set : zeroTime < start)
    (ordered : start ≤ end_) (dated : Dated end_) (fit : WholeMinutesFit start end_) :
    ∃ totals, Tallied totals (between es t (truncate start)
        (nanosPerMinute * (Family.minute.bucket end_ + 1))) ∧
      ∀ counters, Counted es counters → ∃ enough, ∀ fuel, enough ≤ fuel →
        rangeCounters counters t fuel start end_ = some totals := by
  have empty : Tallied (.empty : Totals) fun _ => 0 := fun _ => rfl
  have minutes : Family.minute.bucket start ≤ Family.minute.bucket end_ :=
    Int.ediv_le_ediv (by decide) ordered
  obtain ⟨enough, returns⟩ : ∃ enough : Nat, ∀ {counters}, Counted es counters → ∀ fuel,
      enough ≤ fuel → ∃ totals, rangeCounters counters t fuel start end_ = some totals ∧
        Tallied totals (between es t (truncate start)
          (nanosPerMinute * (Family.minute.bucket end_ + 1))) := by
    refine ⟨(Family.minute.bucket end_ + 2 - Family.minute.bucket start).toNat,
      fun counted fuel enough => ?_⟩
    have walkable := walkable_of_range counted tenants dates tenant set ordered dated fit
    obtain ⟨totals, returned, tallied⟩ := walkable.whole le_rfl (by omega) fuel (by omega) empty
    exact ⟨totals, returned, fun k => (tallied k).trans (by simp only [Nat.zero_add, truncate])⟩
  obtain ⟨totals, _, tallied⟩ := returns (counted_countersOf es) enough le_rfl
  refine ⟨totals, tallied, fun counters counted => ⟨enough, fun fuel many => ?_⟩⟩
  obtain ⟨totals', returned, tallied'⟩ := returns counted fuel many
  have same : totals' = totals := Store.ext_get fun k => (tallied' k).trans (tallied k).symm
  rw [returned, same]

theorem countsTypes_of_tallied {totals : Totals}
    (tallied : Tallied totals (between es t (truncate start)
      (nanosPerMinute * (Family.minute.bucket end_ + 1)))) : CountsTypes es t start end_ totals := by
  intro type
  rw [tallied, tally_getD, between_minutes]

theorem rangeCounters_overflow (tooLong : ¬ WholeMinutesFit start end_)
    (counters : Store Bytes Bytes) (t : String) (fuel : Nat) :
    rangeCounters counters t fuel start end_ = none :=
  rangeLoop_overflow fuel tooLong .empty

theorem mem_eventsBetween {as : List StoreAction} {s : EventStore}
    (run : exec EventStore.step .init as = some s)
    (along : AllSteps EventStore.step Proper .init as) (tenant : NoColon t)
    (set : start ≠ zeroTime) (set' : end_ ≠ zeroTime) (low : 0 ≤ start) (ordered : start ≤ end_)
    (high : end_ ≤ maxInt64) (found : e ∈ eventsBetween s.db t start end_) :
    e ∈ stored s.db ∧ e.tenantID = t ∧ start ≤ e.timestamp ∧ (e.timestamp : Int) ≤ end_ := by
  obtain ⟨c, reads, keyable, targeted⟩ := represented_of_run run along
  obtain ⟨r, row, body⟩ := mem_filterMap.mp found
  obtain ⟨e', rfl, own, of, _⟩ := Pebble.found_of_scan reads keyable targeted tenant row
  cases body
  have stamped : Datable e.timestamp := own.timestamp
  have timed : walkOf ⟨0, [], "", .unspecified, start, end_, "", false, false, ""⟩ ≠ .message := nofun
  have kept : Pebble.Kept start end_ e.timestamp :=
    (Pebble.within_iff_kept own of timed).mp (Store.mem_scan.mp row).2
  refine ⟨mem_stored.mpr (Store.mem_scan.mp row).1, of, ?_, ?_⟩
  · have later := kept.1 set
    have bound := stamped.2
    rw [maxInt64] at bound high
    omega
  · have earlier := kept.2 set'
    rwa [Int.emod_eq_of_lt (low.trans ordered) (lt_of_le_of_lt high (by decide))] at earlier

theorem getMetrics_closed (set : start ≠ zeroTime) (set' : end_ ≠ zeroTime) (ordered : start ≤ end_)
    (db : DB) (counters : Store Bytes Bytes) (t : String) (fuel : Nat) :
    getMetrics db counters t fuel start end_ =
      (rangeCounters counters t fuel start end_).map fun res =>
        if res.rows ≠ [] then res else eventTotals db t start end_ := by
  rw [getMetrics, if_neg (fun both => set both.1), if_pos ⟨set, set'⟩, if_neg (not_lt.mpr ordered)]

theorem between_pos (mem : e ∈ es) (own : e.tenantID = t) (low : start ≤ e.timestamp)
    (high : (e.timestamp : Int) ≤ end_) :
    0 < between es t (truncate start) (nanosPerMinute * (Family.minute.bucket end_ + 1))
      (utf8 (typeStr e.type)) := by
  rw [between_minutes]
  refine countP_pos_iff.mpr ⟨e, mem, ?_⟩
  rw [decide_eq_true_eq]
  exact ⟨own, rfl, Int.ediv_le_ediv (by decide) low, Int.ediv_le_ediv (by decide) high⟩

/-- The totals of `GetMetrics` by the counters are, for each type, the number of events whose minute
is one of the range, whatever the order of merging, exactly when the whole minutes of the range are
no longer than a `Duration`; otherwise the walk never returns. Over the instants whose nanoseconds
fit 64 bits this is what `GetMetrics` returns. -/
theorem totals_exact_iff (tenants : ∀ e ∈ es, Tenant e.tenantID)
    (dates : ∀ e ∈ es, Dated e.timestamp) (tenant : Tenant t) (set : zeroTime < start)
    (ordered : start ≤ end_) (dated : Dated end_) : ((∃ totals, CountsTypes es t start end_ totals ∧
        ∀ counters, Counted es counters → ∃ enough, ∀ fuel, enough ≤ fuel →
          rangeCounters counters t fuel start end_ = some totals) ↔ WholeMinutesFit start end_) ∧
    ∀ (as : List StoreAction) (s : EventStore), exec EventStore.step .init as = some s →
      AllSteps EventStore.step Proper .init as → (∀ e ∈ stored s.db, e ∈ es) →
      0 ≤ start → end_ ≤ maxInt64 → ((∃ totals, CountsTypes es t start end_ totals ∧
          ∀ counters, Counted es counters → ∃ enough, ∀ fuel, enough ≤ fuel →
            getMetrics s.db counters t fuel start end_ = some totals) ↔
        WholeMinutesFit start end_) := by
  constructor
  · constructor
    · rintro ⟨totals, _, returned⟩
      obtain ⟨enough, returned⟩ := returned _ (counted_countersOf es)
      by_contra tooLong
      have never := rangeCounters_overflow tooLong (countersOf es) t enough
      rw [returned enough le_rfl] at never
      cases never
    · intro fit
      obtain ⟨totals, tallied, returned⟩ :=
        rangeCounters_spec tenants dates tenant set ordered dated fit
      exact ⟨totals, countsTypes_of_tallied tallied, returned⟩
  · intro as s run along among low high
    have early : zeroTime < 0 := by decide
    have closed := getMetrics_closed (ne_of_gt set) (by omega) ordered s.db
    constructor
    · rintro ⟨totals, _, returned⟩
      obtain ⟨enough, returned⟩ := returned _ (counted_countersOf es)
      by_contra tooLong
      have never := rangeCounters_overflow tooLong (countersOf es) t enough
      have some_ := returned enough le_rfl
      rw [closed, never] at some_
      cases some_
    · intro fit
      obtain ⟨totals, tallied, returned⟩ :=
        rangeCounters_spec tenants dates tenant set ordered dated fit
      refine ⟨totals, countsTypes_of_tallied tallied, fun counters counted =>
        (returned counters counted).imp fun _ returned fuel enough => ?_⟩
      rw [closed, returned fuel enough, Option.map_some]
      split
      · rfl
      next none_ =>
        -- no counter, so no event in these minutes, and none in the range itself
        have blank : totals = .empty := Store.ext_get fun k => by
          rw [Store.get, not_not.mp none_]
          rfl
        have missing : eventsBetween s.db t start end_ = [] := by
          apply eq_nil_iff_forall_not_mem.mpr
          intro e found
          obtain ⟨member, own, after, before⟩ := mem_eventsBetween run along tenant.plain
            (ne_of_gt set) (by omega) low ordered high found
          have counted_ := tallied (utf8 (typeStr e.type))
          have positive := between_pos (among e member) own after before
          rw [blank, Store.get_empty, tally, if_neg (by omega)] at counted_
          cases counted_
        rw [eventTotals, missing, blank]
        rfl

end

/-! ### Progress of the walk -/

def nextPosition (last cur : Int) : Int := (nextSpan cur last).2 + (nextSpan cur last).1.step

def position (start end_ : Int) (rounds : Nat) : Int :=
  (nextPosition (truncate end_))^[rounds] (truncate start)

section
variable {c l : Int}

theorem nextPosition_forward (after : zeroMinute ≤ c) (ordered : c ≤ l)
    (fits : FitsDuration (l - c + 1)) : ∃ n, 1 ≤ n ∧ c + n ≤ l + 1 ∧
      nextPosition (nanosPerMinute * l) (nanosPerMinute * c) = nanosPerMinute * (c + n) := by
  obtain ⟨family, q, some_, _, within, span⟩ := nextSpan_spec after ordered fits
  have minutes : 1 ≤ family.minutes := by cases family <;> decide
  refine ⟨_, one_le_mul_of_one_le_of_one_le minutes some_, within, ?_⟩
  rw [nextPosition, span, family.step_eq]
  ring

/-- The rounds do not outnumber the minutes left. -/
theorem rangeLoop_returns (counters : Store Bytes Bytes) (t : String) (after : zeroMinute ≤ c)
    (inside : c ≤ l + 1) (fits : FitsDuration (l - c + 1)) {fuel : Nat}
    (enough : l + 1 - c < fuel) (res : Totals) :
    (rangeLoop counters t (nanosPerMinute * l) fuel (nanosPerMinute * c) res).isSome = true := by
  induction fuel generalizing c res with
  | zero => omega
  | succ _ ih =>
    rw [rangeLoop]
    split
    · rfl
    next within =>
      have ordered : c ≤ l := by
        by_contra past
        exact within (Int.mul_lt_mul_of_pos_left (by omega) (by decide))
      obtain ⟨n, some_, bound, next⟩ := nextPosition_forward after ordered fits
      rw [nextPosition] at next
      simp only [next]
      exact ih (by omega) bound (fits.mono (by omega)) (by omega) _

/-- All along the walk of a range that fits, it stands at a whole minute, at most just past the
range. -/
theorem position_spec (after : zeroMinute ≤ c) (ordered : c ≤ l)
    (fits : FitsDuration (l - c + 1)) (rounds : Nat)
    (within : ∀ k < rounds, (nextPosition (nanosPerMinute * l))^[k] (nanosPerMinute * c) ≤
      nanosPerMinute * l) : ∃ d, c ≤ d ∧ d ≤ l + 1 ∧
        (nextPosition (nanosPerMinute * l))^[rounds] (nanosPerMinute * c) = nanosPerMinute * d := by
  induction rounds with
  | zero => exact ⟨c, le_rfl, by omega, rfl⟩
  | succ rounds ih =>
    obtain ⟨d, low, _, here⟩ := ih fun k before => within k (by omega)
    have inside := within rounds (by omega)
    rw [here] at inside
    have inRange : d ≤ l := Int.le_of_mul_le_mul_left inside (by decide)
    obtain ⟨n, some_, bound, next⟩ :=
      nextPosition_forward (by omega) inRange (fits.mono (by omega))
    refine ⟨d + n, by omega, bound, ?_⟩
    rw [Function.iterate_succ_apply', here, next]

end

/-- For every start and end from the year 1 on, the walk returns and each of its rounds moves
forward exactly when the whole minutes of the range are no longer than a `Duration`. -/
theorem walk_progresses_iff (start end_ : Int) (early : zeroTime ≤ start) (ordered : start ≤ end_) :
    ((∀ counters t, ∃ enough, ∀ fuel, enough ≤ fuel →
        (rangeCounters counters t fuel start end_).isSome = true) ∧
      ∀ rounds, (∀ k ≤ rounds, position start end_ k ≤ truncate end_) →
        position start end_ rounds < position start end_ (rounds + 1)) ↔
      WholeMinutesFit start end_ := by
  have after : zeroMinute ≤ Family.minute.bucket start := by
    have later : Family.minute.bucket zeroTime ≤ Family.minute.bucket start :=
      Int.ediv_le_ediv (by decide) early
    rwa [zeroTime_eq, bucket_minute] at later
  have minutes : Family.minute.bucket start ≤ Family.minute.bucket end_ :=
    Int.ediv_le_ediv (by decide) ordered
  constructor
  · rintro ⟨returns, _⟩
    obtain ⟨enough, returned⟩ := returns .empty ""
    by_contra tooLong
    have some_ := returned enough le_rfl
    -- a range too long for a `Duration` is walked for ever
    rw [rangeCounters_overflow tooLong] at some_
    cases some_
  · intro fit
    refine ⟨fun counters t => ⟨(Family.minute.bucket end_ + 2 - Family.minute.bucket start).toNat,
      fun fuel enough => ?_⟩, fun rounds within => ?_⟩
    · exact rangeLoop_returns counters t after (by omega) fit (by omega) _
    · obtain ⟨d, low, _, here⟩ := position_spec after minutes fit rounds
        fun k before => within k (by omega)
      have inside := within rounds le_rfl
      rw [position, truncate, truncate, here] at inside
      have inRange : d ≤ Family.minute.bucket end_ := Int.le_of_mul_le_mul_left inside (by decide)
      obtain ⟨n, some_, _, next⟩ :=
        nextPosition_forward (by omega) inRange (FitsDuration.mono fit (by omega))
      rw [position, position, Function.iterate_succ_apply', truncate, truncate, here, next]
      exact Int.mul_lt_mul_of_pos_left (by omega) (by decide)

/-- A day and a half. -/
theorem walk_progresses_days : ∃ enough, ∀ fuel, enough ≤ fuel →
    (rangeCounters (countersOf [openedByA]) "t1" fuel 0 (36 * 60 * nanosPerMinute)).isSome = true :=
  ((walk_progresses_iff 0 (36 * 60 * nanosPerMinute) (by decide) (by decide)).mpr
    (by unfold WholeMinutesFit FitsDuration; decide)).1 _ _

/-- From 1900 to 2300: the first round goes back by 292 years, and the walk never returns. -/
theorem long_walk_goes_back : (∀ (counters : Store Bytes Bytes) (t : String) (fuel : Nat),
    rangeCounters counters t fuel (-2208988800 * 10 ^ 9) (10413792000 * 10 ^ 9) = none) ∧
      position (-2208988800 * 10 ^ 9) (10413792000 * 10 ^ 9) 1 <
        position (-2208988800 * 10 ^ 9) (10413792000 * 10 ^ 9) 0 := by
  have tooLong : ¬ WholeMinutesFit (-2208988800 * 10 ^ 9) (10413792000 * 10 ^ 9) := by
    unfold WholeMinutesFit FitsDuration
    decide
  exact ⟨rangeCounters_overflow tooLong, by decide⟩

/-! ### A range of a few minutes, and the longest one -/

def openedLater : EmailEvent :=
  ⟨"e3", "t1", "p1", "smtp", "m1", .opened, "a@x.org", "Hi", 90 * 10 ^ 9, ""⟩

theorem totals_of_first_minute : ∃ totals,
    CountsTypes [openedByA, bouncedAtB, openedLater] "t1" 1 10 totals ∧
      ∀ counters, Counted [openedByA, bouncedAtB, openedLater] counters → ∃ enough, ∀ fuel,
        enough ≤ fuel → rangeCounters counters "t1" fuel 1 10 = some totals :=
  (totals_exact_iff (by decide) (by decide) (by decide) (by decide)
    (by decide) (by decide)).1.mpr (by unfold WholeMinutesFit FitsDuration; decide)

/-- From 1970 to 11 April 2262, 23:47, which a `Duration` still spans, the walk never returns. -/
theorem longest_range_never_returns :
    (9223372020 * 10 ^ 9 : Int) - 0 ≤ maxInt64 ∧ ∀ (db : DB) (fuel : Nat),
      rangeCounters (countersOf [openedByA]) "t1" fuel 0 (9223372020 * 10 ^ 9) = none ∧
        getMetrics db (countersOf [openedByA]) "t1" fuel 0 (9223372020 * 10 ^ 9) = none := by
  have tooLong : ¬ WholeMinutesFit 0 (9223372020 * 10 ^ 9) := by
    unfold WholeMinutesFit FitsDuration
    decide
  refine ⟨by decide, fun db fuel => ?_⟩
  have never := rangeCounters_overflow tooLong (countersOf [openedByA]) "t1" fuel
  refine ⟨never, ?_⟩
  rw [getMetrics_closed (by decide) (by decide) (by decide), never, Option.map_none]

end Panmail.Events
