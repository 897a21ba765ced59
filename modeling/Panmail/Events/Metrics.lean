import Mathlib.Data.List.DropRight
import Mathlib.Tactic.Ring
import Panmail.Events.Counters

/-!
# Totals over a range of time

`GetMetrics` totals a closed range from the coarsest counters that tile it: minutes up to the
first full hour, hours up to the first midnight, whole days, and the same at the other end.
-/
namespace Panmail.Events

open ByteStrings KeyValue Delivery List Int Prod Family

/-- `map[string]int64`. -/
abbrev Totals := Store Bytes Int

def addTo (res : Totals) (type : Bytes) (n : Int) : Totals :=
  res.set type (int64 ((res.get type).getD 0 + n))

/-- What follows the last colon. -/
def lastPart (key : Bytes) : Option Bytes :=
  if colon ∈ key then some (key.rtakeWhile (· ≠ colon)) else none

/-- `int64(decodeUint64(…))`. -/
def counterValue (v : Bytes) : Int := int64 (decodeUint64 v).toNat

def sumCounters (counters : Store Bytes Bytes) (res : Totals) (family : Family) (tenantID : String)
    (from_ through : Int) : Totals :=
  let base := family.base tenantID
  let rows := counters.scan (base ++ family.format from_) (base ++ (family.format through ++ [255]))
  rows.foldl (fun res r =>
    match lastPart r.1 with
    | none => res
    | some type => addTo res type (counterValue r.2)) res

/-- `time.Time.Sub`, which stops at the longest `Duration`. -/
def sub (t u : Int) : Int := max (-2 ^ 63) (min maxInt64 (t - u))

/-- The next counters of the walk: their family, and the last of their buckets. -/
def nextSpan (cur last : Int) : Family × Int :=
  -- what is left of the range, in whole minutes including the last one
  let remaining := int64 (sub last cur + Family.minute.step)
  let midnight : Prop := Family.hour.bucket cur % 24 = 0
  let fullHour : Prop := Family.minute.bucket cur % 60 = 0
  let (family, boundary) : Family × Int :=
    if midnight ∧ fullHour ∧ Family.day.step ≤ remaining then (.day, zeroTime)
    else if fullHour ∧ Family.hour.step ≤ remaining then
      (.hour, (Family.day.bucket cur + 1) * Family.day.step)
    else (.minute, (Family.hour.bucket cur + 1) * Family.hour.step)
  let n := remaining.tdiv family.step
  let n := if boundary = zeroTime then n else min n ((sub boundary cur).tdiv family.step)
  (family, cur + int64 ((n - 1) * family.step))

/-- The loop of `rangeCounters`, for at most so many rounds. -/
def rangeLoop (counters : Store Bytes Bytes) (tenantID : String) (last : Int) :
    Nat → Int → Totals → Option Totals
  | 0, _, _ => none
  | fuel + 1, cur, res =>
    if last < cur then some res
    else
      let (family, through) := nextSpan cur last
      rangeLoop counters tenantID last fuel (through + family.step)
        (sumCounters counters res family tenantID cur through)

/-- `Truncate(time.Minute)`. -/
def truncate (at_ : Int) : Int := nanosPerMinute * Family.minute.bucket at_

def rangeCounters (counters : Store Bytes Bytes) (tenantID : String) (fuel : Nat)
    (start end_ : Int) : Option Totals :=
  rangeLoop counters tenantID (truncate end_) fuel (truncate start) .empty

/-! ### One scan -/

def between (es : List EmailEvent) (t : String) (low high : Int) (type : Bytes) : Nat :=
  es.countP fun e => e.tenantID = t ∧ low ≤ e.timestamp ∧ (e.timestamp : Int) < high ∧
    utf8 (typeStr e.type) = type

/-- A total that is there when there is something to count. -/
def tally (n : Nat) : Option Int := if n = 0 then none else some (int64 n)

def Tallied (res : Totals) (n : Bytes → Nat) : Prop := ∀ type, res.get type = tally (n type)

section

theorem int64_add_int64 (a b : Int) : int64 (int64 a + int64 b) = int64 (a + b) := by
  unfold int64
  rw [bmod_add_bmod, add_bmod_bmod]

theorem int64_toNat_ofNat (n : Nat) : int64 (UInt64.ofNat n).toNat = int64 n := by
  exact emod_bmod n (2 ^ 64)

theorem tally_getD (n : Nat) : (tally n).getD 0 = int64 n := by
  unfold tally
  split
  next zero =>
    rw [zero]
    simp [int64]
  next => rw [Option.getD_some]

end

section
variable {res : Totals} {n : Bytes → Nat}

theorem Tallied.addTo (tallied : Tallied res n) {type v : Bytes} {count : Nat} (some_ : 0 < count)
    (value : decodeUint64 v = UInt64.ofNat count) : Tallied (addTo res type (counterValue v))
      (fun k => n k + if k = type then count else 0) := by
  intro k
  rw [Events.addTo, Store.get_set]
  split
  next here =>
    subst here
    have total : int64 ((res.get k).getD 0 + counterValue v) = int64 ((n k + count : Nat) : Int) := by
      rw [tallied k, tally_getD, counterValue, value, int64_toNat_ofNat, int64_add_int64,
        natCast_add]
    simp only [if_true]
    rw [total, tally, if_neg (by omega)]
  next away =>
    simp only [away, if_false, Nat.add_zero]
    exact tallied k

theorem Tallied.rows (tallied : Tallied res n) (count : Bytes → Nat) (rows : List (Bytes × Bytes))
    (read : ∀ r ∈ rows, (∃ type, lastPart r.1 = some type) ∧ 0 < count r.1 ∧
      decodeUint64 r.2 = UInt64.ofNat (count r.1)) : Tallied (rows.foldl (fun res r =>
        match lastPart r.1 with
        | none => res
        | some type => Events.addTo res type (counterValue r.2)) res)
      (fun k => n k + (((rows.map fst).filter (lastPart · = some k)).map count).sum) := by
  induction rows generalizing res n with
  | nil => exact tallied
  | cons r _ ih =>
    obtain ⟨⟨type, named⟩, positive, value⟩ := read r mem_cons_self
    have first : Tallied (Events.addTo res type (counterValue r.2)) _ :=
      tallied.addTo positive value
    have tail := ih first fun x mem => read x (mem_cons_of_mem r mem)
    intro k
    have here := tail k
    rw [foldl_cons, named]
    refine here.trans (congrArg tally ?_)
    simp only [map_cons, filter_cons, named, Option.some.injEq, decide_eq_true_eq]
    by_cases own : type = k
    · simp [own, Nat.add_assoc]
    · simp [own, Ne.symm own]

end

section
variable {es : List EmailEvent} {counters : Store Bytes Bytes} {t : String} {family : Family}
variable {from_ through : Int} {e : EmailEvent}

theorem lastPart_append {x y : Bytes} (free : colon ∉ y) : lastPart (x ++ colon :: y) = some y := by
  have mem : colon ∈ x ++ colon :: y := by simp
  have kept : ∀ b ∈ y.reverse, decide (b ≠ colon) = true := by
    intro b inside
    simp only [ne_eq, decide_eq_true_eq]
    rintro rfl
    exact free (mem_reverse.mp inside)
  rw [lastPart, if_pos mem, List.rtakeWhile, reverse_append, reverse_cons,
    append_assoc, takeWhile_append_of_pos kept]
  simp

theorem lastPart_bucketKey (family : Family) (e : EmailEvent) :
    lastPart (bucketKey family e) = some (utf8 (typeStr e.type)) := by
  rw [bucketKey, ← append_assoc]
  exact lastPart_append (typeStr_plain e.type).notMem

theorem bucketKey_between (tenant : Tenant t) (own : Tenant e.tenantID) (dated : Dated e.timestamp)
    (low : Dated from_) (high : Dated through) (other : Family) :
    (family.base t ++ family.format from_ ≤ bucketKey other e ∧
        bucketKey other e < family.base t ++ (family.format through ++ [255])) ↔
      other = family ∧ e.tenantID = t ∧ family.bucket from_ ≤ family.bucket e.timestamp ∧
        family.bucket e.timestamp ≤ family.bucket through := by
  constructor
  · rintro ⟨lower, upper⟩
    obtain ⟨rest, shape⟩ := start_of_between lower upper
    obtain ⟨rfl, rfl, _⟩ := base_inj own tenant shape
    exact ⟨rfl, rfl, (dated.between_iff low high _ _).mp ⟨lower, upper⟩⟩
  · rintro ⟨rfl, rfl, within⟩
    exact (dated.between_iff low high _ _).mpr within

theorem sum_count_eq_countP {ks : List Bytes} (nodup : ks.Nodup) (xs : List Bytes) :
    (ks.map fun k => xs.count k).sum = xs.countP (· ∈ ks) := by
  induction ks with
  | nil => simp
  | cons k _ ih =>
    obtain ⟨fresh, nodup⟩ := nodup_cons.mp nodup
    rw [map_cons, sum_cons, ih nodup]
    clear ih
    induction xs with
    | nil => rfl
    | cons x _ ih =>
      simp only [count_cons, countP_cons, mem_cons, beq_iff_eq, decide_eq_true_eq]
        at ih ⊢
      by_cases here : x = k
      · subst here
        simp only [if_true, true_or, fresh, if_false]
        omega
      · simp only [here, if_false, false_or]
        omega

theorem sum_ite_eq_countP (es : List EmailEvent) (p : EmailEvent → Prop) [DecidablePred p] :
    (es.map fun e => if p e then 1 else 0).sum = es.countP (p ·) := by
  induction es with
  | nil => rfl
  | cons _ _ ih =>
    rw [map_cons, sum_cons, ih, countP_cons]
    simp only [decide_eq_true_eq]
    omega

variable (counted : Counted es counters) (tenants : ∀ e ∈ es, Tenant e.tenantID)
variable (dates : ∀ e ∈ es, Dated e.timestamp) (tenant : Tenant t) (low : Dated from_)
variable (high : Dated through) {k : Bytes}

def scanned (counters : Store Bytes Bytes) (family : Family) (t : String) (from_ through : Int) :
    List (Bytes × Bytes) :=
  counters.scan (family.base t ++ family.format from_)
    (family.base t ++ (family.format through ++ [255]))

include counted in
theorem mem_scanned : k ∈ (scanned counters family t from_ through).map fst ↔
    k ∈ es.flatMap increments ∧ family.base t ++ family.format from_ ≤ k ∧
      k < family.base t ++ (family.format through ++ [255]) := by
  rw [← counted.get_iff]
  constructor
  · intro mem
    obtain ⟨⟨_, v⟩, row, rfl⟩ := mem_map.mp mem
    obtain ⟨found, bounds⟩ := Store.mem_scan.mp row
    exact ⟨⟨v, found⟩, bounds⟩
  · rintro ⟨⟨v, found⟩, bounds⟩
    exact mem_map.mpr ⟨(k, v), Store.mem_scan.mpr ⟨found, bounds⟩, rfl⟩

theorem metricKey_notMem_scanned (e : EmailEvent) :
    metricKey e ∉ (scanned counters family t from_ through).map fst := by
  intro mem
  obtain ⟨⟨k, v⟩, row, named⟩ := mem_map.mp mem
  obtain ⟨_, lower, upper⟩ := Store.mem_scan.mp row
  obtain ⟨rest, start⟩ := start_of_between lower upper
  exact metricKey_ne_base e (named.symm.trans start)

include counted tenants dates tenant low high

theorem bucketKey_mem_scanned (inside : e ∈ es) (other : Family) :
    bucketKey other e ∈ (scanned counters family t from_ through).map fst ↔
      other = family ∧ e.tenantID = t ∧ family.bucket from_ ≤ family.bucket e.timestamp ∧
        family.bucket e.timestamp ≤ family.bucket through := by
  have present : bucketKey other e ∈ es.flatMap increments := by
    refine mem_flatMap.mpr ⟨e, inside, ?_⟩
    cases other <;> simp [increments]
  rw [mem_scanned counted,
    bucketKey_between tenant (tenants e inside) (dates e inside) low high other]
  simp only [present, true_and]

theorem bucket_of_scanned (mem : k ∈ (scanned counters family t from_ through).map fst) :
    ∃ e ∈ es, k = bucketKey family e := by
  obtain ⟨e, inside, one⟩ := mem_flatMap.mp ((mem_scanned counted).mp mem).1
  have bucket {other : Family} (named : k = bucketKey other e) : k = bucketKey family e := by
    rw [named] at mem
    rw [named, ((bucketKey_mem_scanned counted tenants dates tenant low high inside other).mp
      mem).1]
  refine ⟨e, inside, ?_⟩
  simp only [increments, mem_cons, not_mem_nil, or_false] at one
  rcases one with metric | day | hour | minute
  · exact absurd (metric ▸ mem) (metricKey_notMem_scanned e)
  · exact bucket day
  · exact bucket hour
  · exact bucket minute

theorem increments_scanned (inside : e ∈ es) (k : Bytes) : (increments e).countP
        (· ∈ ((scanned counters family t from_ through).map fst).filter
          (lastPart · = some k)) =
      if e.tenantID = t ∧ family.bucket from_ ≤ family.bucket e.timestamp ∧
        family.bucket e.timestamp ≤ family.bucket through ∧ utf8 (typeStr e.type) = k
      then 1 else 0 := by
  have bucket (other : Family) : bucketKey other e ∈
      (scanned counters family t from_ through).map fst ↔ _ :=
    bucketKey_mem_scanned counted tenants dates tenant low high inside other
  have metric : metricKey e ∉ (scanned counters family t from_ through).map fst :=
    metricKey_notMem_scanned e
  simp only [increments, countP_cons, countP_nil, mem_filter, bucket, metric,
    lastPart_bucketKey, Option.some.injEq, decide_eq_true_eq, false_and, if_false]
  cases family <;> simp [and_assoc]

theorem sumCounters_spec {res : Totals} {n : Bytes → Nat} (tallied : Tallied res n) :
    Tallied (sumCounters counters res family t from_ through) (fun k => n k + es.countP fun e =>
      e.tenantID = t ∧ family.bucket from_ ≤ family.bucket e.timestamp ∧
        family.bucket e.timestamp ≤ family.bucket through ∧ utf8 (typeStr e.type) = k) := by
  have rows := tallied.rows (fun k => (es.flatMap increments).count k)
    (scanned counters family t from_ through) (by
      rintro ⟨k, v⟩ row
      have mem := mem_map_of_mem (f := fst) row
      obtain ⟨e, _, named⟩ := bucket_of_scanned counted tenants dates tenant low high mem
      refine ⟨⟨utf8 (typeStr e.type), ?_⟩, ?_, counted.value (Store.mem_scan.mp row).1⟩
      · rw [show k = bucketKey family e from named, lastPart_bucketKey]
      · exact count_pos_iff.mpr ((mem_scanned counted).mp mem).1)
  intro k
  refine (rows k).trans (congrArg (fun m => tally (n k + m)) ?_)
  have nodup : (((scanned counters family t from_ through).map fst).filter
      (lastPart · = some k)).Nodup :=
    (pairwise_map.mpr ((counters.scan_sorted _ _).imp fun lt => ne_of_lt lt)).filter _
  rw [sum_count_eq_countP nodup, countP_flatMap, ← sum_ite_eq_countP]
  refine congrArg List.sum (map_congr_left fun e inside => ?_)
  exact increments_scanned counted tenants dates tenant low high inside k

end

/-! ### The walk -/

section
variable {c l a b n : Int}

theorem bucket_minute (c : Int) : minute.bucket (nanosPerMinute * c) = c :=
  mul_ediv_cancel_left c (by decide)

theorem bucket_hour (c : Int) : hour.bucket (nanosPerMinute * c) = c / 60 := by
  rw [hour_bucket, bucket_minute]

theorem bucket_day (c : Int) : day.bucket (nanosPerMinute * c) = c / 1440 := by
  rw [day_bucket, bucket_minute]

def Family.minutes : Family → Int
  | .day => 1440
  | .hour => 60
  | .minute => 1

theorem Family.step_eq (family : Family) : family.step = nanosPerMinute * family.minutes := by
  cases family with
  | day => rfl
  | hour => rfl
  | minute => exact (mul_one _).symm

theorem mul_step (family : Family) (b : Int) :
    b * family.step = nanosPerMinute * (b * family.minutes) := by
  rw [family.step_eq, mul_left_comm]

theorem step_le_iff (family : Family) (a : Int) :
    family.step ≤ nanosPerMinute * a ↔ family.minutes ≤ a := by
  rw [family.step_eq]
  exact Int.mul_le_mul_left (by decide)

theorem tdiv_step (family : Family) (nonneg : 0 ≤ a) :
    (nanosPerMinute * a).tdiv family.step = a / family.minutes := by
  rw [family.step_eq, mul_tdiv_mul_of_pos _ _ (by decide), tdiv_eq_ediv_of_nonneg nonneg]

theorem sub_minutes (after : c ≤ b) (fits : nanosPerMinute * (b - c) ≤ maxInt64) :
    sub (nanosPerMinute * b) (nanosPerMinute * c) = nanosPerMinute * (b - c) := by
  have nonneg : 0 ≤ nanosPerMinute * (b - c) := mul_nonneg (by decide) (by omega)
  rw [sub, ← mul_sub]
  omega

/-- A stretch of whole minutes fits a `Duration`. -/
def FitsDuration (minutes : Int) : Prop := nanosPerMinute * minutes ≤ maxInt64

theorem FitsDuration.mono (fits : FitsDuration a) (less : b ≤ a) : FitsDuration b :=
  (mul_le_mul_of_nonneg_left less (by decide)).trans fits

theorem remaining_eq (ordered : c ≤ l) (fits : FitsDuration (l - c + 1)) :
    int64 (sub (nanosPerMinute * l) (nanosPerMinute * c) + minute.step) =
      nanosPerMinute * (l - c + 1) := by
  have nonneg : 0 ≤ nanosPerMinute * (l - c + 1) := mul_nonneg (by decide) (by omega)
  rw [sub_minutes ordered (fits.mono (by omega)), step, ← mul_add_one]
  exact int64_of_range nonneg fits

theorem through_eq (family : Family) (some_ : 1 ≤ n) (within : family.minutes * n ≤ a)
    (fits : FitsDuration a) : nanosPerMinute * c + int64 ((n - 1) * family.step) =
      nanosPerMinute * (c + family.minutes * (n - 1)) := by
  have minutes : 0 ≤ family.minutes := by cases family <;> decide
  have nonneg : 0 ≤ family.minutes * (n - 1) := mul_nonneg minutes (by omega)
  have below : family.minutes * (n - 1) ≤ a := by
    rw [mul_sub]
    omega
  rw [mul_step, mul_comm (n - 1), mul_add,
    int64_of_range (mul_nonneg (by decide) nonneg) (fits.mono below)]

def zeroMinute : Int := -1035593280

theorem zeroTime_eq : zeroTime = nanosPerMinute * zeroMinute := by decide

theorem boundary_eq (family : Family) (after : zeroMinute ≤ c) (next : c < b * family.minutes)
    (near : b * family.minutes - c ≤ 1440) :
    b * family.step ≠ zeroTime ∧ sub (b * family.step) (nanosPerMinute * c) =
      nanosPerMinute * (b * family.minutes - c) := by
  rw [mul_step, zeroTime_eq]
  constructor
  · intro same
    have equal := Int.eq_of_mul_eq_mul_left (by decide) same
    omega
  · have day : FitsDuration 1440 := by
      unfold FitsDuration
      decide
    exact sub_minutes (by omega) (day.mono near)

theorem nextSpan_day (ordered : c ≤ l) (fits : FitsDuration (l - c + 1)) (midnight : c % 1440 = 0)
    (whole : 1440 ≤ l - c + 1) : nextSpan (nanosPerMinute * c) (nanosPerMinute * l) =
      (.day, nanosPerMinute * (c + 1440 * ((l - c + 1) / 1440 - 1))) := by
  have chosen : c / 60 % 24 = 0 ∧ c % 60 = 0 ∧ day.minutes ≤ l - c + 1 :=
    ⟨by omega, by omega, whole⟩
  have through := through_eq (c := c) .day (n := (l - c + 1) / 1440) (by omega)
    (show 1440 * ((l - c + 1) / 1440) ≤ l - c + 1 by omega) fits
  simp only [nextSpan, remaining_eq ordered fits, bucket_minute, bucket_hour, step_le_iff, chosen,
    and_self, if_true, tdiv_step _ (show 0 ≤ l - c + 1 by omega)]
  exact congrArg _ through

theorem spanTo_eq (family upper : Family) (after : zeroMinute ≤ c) (ordered : c ≤ l)
    (fits : FitsDuration (l - c + 1)) (some_ : 1 ≤ n) (within : family.minutes * n ≤ l - c + 1)
    (count : min ((l - c + 1) / family.minutes)
      (((c / upper.minutes + 1) * upper.minutes - c) / family.minutes) = n) :
    let boundary := (c / upper.minutes + 1) * upper.step
    let whole := (nanosPerMinute * (l - c + 1)).tdiv family.step
    nanosPerMinute * c + int64 (((if boundary = zeroTime then whole
        else min whole ((sub boundary (nanosPerMinute * c)).tdiv family.step)) - 1) * family.step) =
      nanosPerMinute * (c + family.minutes * (n - 1)) := by
  have length : 0 < upper.minutes ∧ upper.minutes ≤ 1440 := by cases upper <;> decide
  have next : c < (c / upper.minutes + 1) * upper.minutes := lt_ediv_add_one_mul_self c length.1
  have near : (c / upper.minutes + 1) * upper.minutes - c ≤ 1440 := by
    have below := Int.ediv_mul_le c (Int.ne_of_gt length.1)
    rw [add_mul]
    omega
  obtain ⟨set, left⟩ := boundary_eq upper after next near
  simp only [set, if_false, left, tdiv_step _ (show 0 ≤ l - c + 1 by omega),
    tdiv_step _ (sub_nonneg.mpr next.le), count]
  exact through_eq family some_ within fits

theorem nextSpan_hour (after : zeroMinute ≤ c) (ordered : c ≤ l) (fits : FitsDuration (l - c + 1))
    (fullHour : c % 60 = 0) (whole : 60 ≤ l - c + 1)
    (notDay : ¬ (c % 1440 = 0 ∧ 1440 ≤ l - c + 1)) :
    nextSpan (nanosPerMinute * c) (nanosPerMinute * l) =
      (.hour, nanosPerMinute * (c + 60 * (min ((l - c + 1) / 60) (24 - c % 1440 / 60) - 1))) := by
  have refused : ¬ (c / 60 % 24 = 0 ∧ c % 60 = 0 ∧ day.minutes ≤ l - c + 1) := by
    rintro ⟨hour, minute, long⟩
    exact notDay ⟨by omega, long⟩
  have chosen : c % 60 = 0 ∧ hour.minutes ≤ l - c + 1 := ⟨fullHour, whole⟩
  simp only [nextSpan, remaining_eq ordered fits, bucket_minute, bucket_hour, bucket_day,
    step_le_iff]
  rw [if_neg refused, if_pos chosen]
  refine congrArg _ (spanTo_eq .hour .day after ordered fits (by omega) ?_ ?_) <;>
    simp only [minutes] <;> omega

theorem nextSpan_minute (after : zeroMinute ≤ c) (ordered : c ≤ l)
    (fits : FitsDuration (l - c + 1)) (notHour : ¬ (c % 60 = 0 ∧ 60 ≤ l - c + 1)) :
    nextSpan (nanosPerMinute * c) (nanosPerMinute * l) =
      (.minute, nanosPerMinute * (c + 1 * (min (l - c + 1) (60 - c % 60) - 1))) := by
  have notDay : ¬ (c / 60 % 24 = 0 ∧ c % 60 = 0 ∧ day.minutes ≤ l - c + 1) := by
    rintro ⟨_, minute, long⟩
    rw [minutes] at long
    exact notHour ⟨minute, by omega⟩
  have refused : ¬ (c % 60 = 0 ∧ hour.minutes ≤ l - c + 1) := notHour
  simp only [nextSpan, remaining_eq ordered fits, bucket_minute, bucket_hour, step_le_iff]
  rw [if_neg notDay, if_neg refused]
  refine congrArg _ (spanTo_eq .minute .hour after ordered fits (by omega) ?_ ?_) <;>
    simp only [minutes] <;> omega

theorem nextSpan_spec (after : zeroMinute ≤ c) (ordered : c ≤ l) (fits : FitsDuration (l - c + 1)) :
    ∃ (family : Family) (n : Int), 1 ≤ n ∧ family.minutes ∣ c ∧ c + family.minutes * n ≤ l + 1 ∧
      nextSpan (nanosPerMinute * c) (nanosPerMinute * l) =
        (family, nanosPerMinute * (c + family.minutes * (n - 1))) := by
  by_cases day : c % 1440 = 0 ∧ 1440 ≤ l - c + 1
  · exact ⟨.day, _, by omega, dvd_of_emod_eq_zero day.1, by rw [minutes]; omega,
      nextSpan_day ordered fits day.1 day.2⟩
  by_cases hour : c % 60 = 0 ∧ 60 ≤ l - c + 1
  · exact ⟨.hour, _, by omega, dvd_of_emod_eq_zero hour.1, by rw [minutes]; omega,
      nextSpan_hour after ordered fits hour.1 hour.2 day⟩
  · exact ⟨.minute, _, by omega, one_dvd c, by rw [minutes]; omega,
      nextSpan_minute after ordered fits hour⟩

end

theorem nextSpan_overflow {c l : Int} (tooLong : ¬ FitsDuration (l - c + 1)) :
    nextSpan (nanosPerMinute * c) (nanosPerMinute * l) =
      (.minute, nanosPerMinute * (c - 153722867)) := by
  have long : 153722867 ≤ l - c := by
    by_contra short
    have most : FitsDuration 153722867 := by
      unfold FitsDuration
      decide
    exact tooLong (most.mono (by omega))
  -- `Sub` saturates, and with the last minute added the rest wraps around
  have remaining : int64 (sub (nanosPerMinute * l) (nanosPerMinute * c) + minute.step) =
        -9223371993709551616 ∨
      int64 (sub (nanosPerMinute * l) (nanosPerMinute * c) + minute.step) =
        -9223371976854775809 := by
    rw [sub, ← mul_sub]
    by_cases exact_ : l - c = 153722867
    · left
      rw [exact_]
      decide
    · right
      have more : nanosPerMinute * 153722868 ≤ nanosPerMinute * (l - c) :=
        mul_le_mul_of_nonneg_left (by omega) (by decide)
      have capped : min maxInt64 (nanosPerMinute * (l - c)) = maxInt64 := by
        have top : maxInt64 ≤ nanosPerMinute * 153722868 := by decide
        omega
      rw [capped]
      decide
  have boundary : 0 ≤ (sub ((c / 60 + 1) * hour.step) (nanosPerMinute * c)).tdiv
      minute.step := by
    have next : nanosPerMinute * c ≤ (c / 60 + 1) * hour.step := by
      rw [mul_step]
      refine mul_le_mul_of_nonneg_left ?_ (by decide)
      rw [minutes]
      omega
    refine Int.tdiv_nonneg ?_ (by decide)
    have top : 0 ≤ maxInt64 := by decide
    unfold sub
    omega
  have negative : int64 (sub (nanosPerMinute * l) (nanosPerMinute * c) + minute.step) < 0 := by
    omega
  have minutes : (int64 (sub (nanosPerMinute * l) (nanosPerMinute * c) + minute.step)).tdiv
      minute.step = -153722866 := by
    rcases remaining with value | value <;> rw [value] <;> decide
  simp only [nextSpan, bucket_hour]
  generalize int64 (sub (nanosPerMinute * l) (nanosPerMinute * c) + minute.step) = left at *
  have notDay : ¬ day.step ≤ left := by
    have positive : 0 ≤ day.step := by decide
    omega
  have notHour : ¬ hour.step ≤ left := by
    have positive : 0 ≤ hour.step := by decide
    omega
  -- the boundary of the hour is ahead, so the negative number of minutes is the smaller
  have least : (if (c / 60 + 1) * hour.step = zeroTime then (-153722866 : Int)
      else min (-153722866) ((sub ((c / 60 + 1) * hour.step) (nanosPerMinute * c)).tdiv
        minute.step)) = -153722866 := by
    split
    · rfl
    · omega
  simp only [notDay, notHour, and_false, if_false, minutes, least]
  -- and the walk steps back by 292 years
  have back : int64 ((-153722866 - 1) * minute.step) = nanosPerMinute * -153722867 := by
    decide
  rw [back, ← mul_add]
  rfl

theorem Dated.mid {a b x : Int} (low : Dated a) (high : Dated b) (after : a ≤ x) (before : x ≤ b) :
    Dated x := by
  have first : day.bucket a ≤ day.bucket x := Int.ediv_le_ediv (by decide) after
  have second : day.bucket x ≤ day.bucket b := Int.ediv_le_ediv (by decide) before
  obtain ⟨start, _⟩ := low
  obtain ⟨_, finish⟩ := high
  unfold Dated
  unfold dayOf at finish ⊢
  omega

theorem between_add (es : List EmailEvent) (t : String) {low mid high : Int} (first : low ≤ mid)
    (second : mid ≤ high) (type : Bytes) :
    between es t low mid type + between es t mid high type = between es t low high type := by
  unfold between
  induction es with
  | nil => rfl
  | cons e =>
    simp only [countP_cons, decide_eq_true_eq]
    have once : (if e.tenantID = t ∧ low ≤ e.timestamp ∧ (e.timestamp : Int) < mid ∧
          utf8 (typeStr e.type) = type then 1 else 0) +
        (if e.tenantID = t ∧ mid ≤ e.timestamp ∧ (e.timestamp : Int) < high ∧
          utf8 (typeStr e.type) = type then 1 else 0) =
        if e.tenantID = t ∧ low ≤ e.timestamp ∧ (e.timestamp : Int) < high ∧
          utf8 (typeStr e.type) = type then 1 else 0 := by
      by_cases own : e.tenantID = t ∧ utf8 (typeStr e.type) = type
      · simp only [own, true_and, and_true]
        split <;> split <;> split <;> omega
      · have out (p q : Prop) : ¬ (e.tenantID = t ∧ p ∧ q ∧ utf8 (typeStr e.type) = type) :=
          fun ⟨tenant, _, _, named⟩ => own ⟨tenant, named⟩
        simp only [out, if_false]
    omega

theorem between_empty (es : List EmailEvent) (t : String) {low high : Int} (none_ : high ≤ low)
    (type : Bytes) : between es t low high type = 0 := by
  apply countP_eq_zero.mpr
  intro e _
  simp only [decide_eq_true_eq]
  omega

theorem bucket_between {family : Family} {c n : Int} (aligned : family.minutes ∣ c) (at_ : Int) :
    (family.bucket (nanosPerMinute * c) ≤ family.bucket at_ ∧ family.bucket at_ ≤
        family.bucket (nanosPerMinute * (c + family.minutes * (n - 1)))) ↔
      nanosPerMinute * c ≤ at_ ∧ at_ < nanosPerMinute * (c + family.minutes * n) := by
  obtain ⟨q, rfl⟩ := aligned
  have positive : 0 < family.step := by cases family <;> decide
  have bucket (x : Int) : family.bucket (nanosPerMinute * (family.minutes * x)) = x := by
    rw [bucket, ← mul_assoc, ← family.step_eq]
    exact mul_ediv_cancel_left x (by omega)
  have start : family.minutes * q + family.minutes * (n - 1) = family.minutes * (q + n - 1) := by
    ring
  have finish : nanosPerMinute * (family.minutes * q + family.minutes * n) =
      (q + n) * family.step := by
    rw [family.step_eq]
    ring
  have first : nanosPerMinute * (family.minutes * q) = q * family.step := by
    rw [family.step_eq]
    ring
  rw [start, bucket, bucket, finish, first, Family.bucket, Int.le_ediv_iff_mul_le positive,
    ← Int.ediv_lt_iff_lt_mul positive]
  omega

section
variable {es : List EmailEvent} {counters : Store Bytes Bytes} {t : String}

variable {l c : Int}

structure Walkable (es : List EmailEvent) (counters : Store Bytes Bytes) (t : String)
    (first l : Int) : Prop where
  counted : Counted es counters
  tenants : ∀ e ∈ es, Tenant e.tenantID
  dates : ∀ e ∈ es, Dated e.timestamp
  tenant : Tenant t
  low : Dated (nanosPerMinute * first)
  high : Dated (nanosPerMinute * l)
  set : zeroMinute ≤ first
  fits : FitsDuration (l - first + 1)

variable {first : Int}

theorem countP_span {family : Family} (aligned : family.minutes ∣ c) (n : Int) (k : Bytes) :
    (es.countP fun e => e.tenantID = t ∧
        family.bucket (nanosPerMinute * c) ≤ family.bucket e.timestamp ∧
        family.bucket e.timestamp ≤ family.bucket (nanosPerMinute * (c + family.minutes * (n - 1))) ∧
        utf8 (typeStr e.type) = k) =
      between es t (nanosPerMinute * c) (nanosPerMinute * (c + family.minutes * n)) k := by
  refine countP_congr fun e _ => ?_
  have interval := bucket_between (n := n) aligned e.timestamp
  rw [decide_eq_true_eq, decide_eq_true_eq]
  constructor
  · rintro ⟨own, low, high, named⟩
    obtain ⟨start, finish⟩ := interval.mp ⟨low, high⟩
    exact ⟨own, start, finish, named⟩
  · rintro ⟨own, start, finish, named⟩
    obtain ⟨low, high⟩ := interval.mpr ⟨start, finish⟩
    exact ⟨own, low, high, named⟩

/-- The walk adds what there is to count up to the last minute. Each of its rounds takes at least
one of the minutes left, so they are enough rounds. -/
theorem Walkable.whole (walkable : Walkable es counters t first l) (after : first ≤ c)
    (inside : c ≤ l + 1) (fuel : Nat) (enough : l + 1 - c < fuel) {res : Totals} {n : Bytes → Nat}
    (tallied : Tallied res n) : ∃ res',
      rangeLoop counters t (nanosPerMinute * l) fuel (nanosPerMinute * c) res = some res' ∧
        Tallied res' fun k => n k + between es t (nanosPerMinute * c) (nanosPerMinute * (l + 1)) k := by
  have scale {a b : Int} (le : a ≤ b) : nanosPerMinute * a ≤ nanosPerMinute * b :=
    mul_le_mul_of_nonneg_left le (by decide)
  -- each round takes at least one of the minutes left, so they are enough rounds
  induction fuel generalizing c res n with
  | zero => omega
  | succ fuel ih =>
    rw [rangeLoop]
    by_cases beyond : l < c
    · have past : nanosPerMinute * l < nanosPerMinute * c := mul_lt_mul_of_pos_left beyond (by decide)
      refine ⟨res, by rw [if_pos past], fun k => ?_⟩
      simp only [between_empty es t (scale beyond), Nat.add_zero]
      exact tallied k
    have ordered : c ≤ l := by omega
    obtain ⟨family, q, some_, aligned, within, span⟩ := nextSpan_spec
      (walkable.set.trans after) ordered (walkable.fits.mono (by omega))
    have minutes : 1 ≤ family.minutes := by cases family <;> decide
    have more : 0 ≤ family.minutes * (q - 1) := mul_nonneg (by omega) (by omega)
    have product : family.minutes * q = family.minutes * (q - 1) + family.minutes := by ring
    have next : nanosPerMinute * (c + family.minutes * (q - 1)) + family.step =
        nanosPerMinute * (c + family.minutes * q) := by
      rw [family.step_eq]
      ring
    have low : Dated (nanosPerMinute * c) := walkable.low.mid walkable.high (scale after)
      (scale ordered)
    have high : Dated (nanosPerMinute * (c + family.minutes * (q - 1))) :=
      walkable.low.mid walkable.high (scale (by omega)) (scale (by omega))
    have sums : Tallied (sumCounters counters res family t (nanosPerMinute * c) _) _ :=
      sumCounters_spec walkable.counted walkable.tenants walkable.dates walkable.tenant low high tallied
    -- the rest of the walk starts behind the span of this round
    obtain ⟨res', returned, tallied'⟩ := ih (by omega) within (by omega) sums
    refine ⟨res', ?_, fun k => (tallied' k).trans (congrArg tally ?_)⟩
    · rw [if_neg (not_lt.mpr (scale ordered)), span]
      simp only [next]
      exact returned
    · have sum := between_add es t (scale (show c ≤ c + family.minutes * q by omega)) (scale within) k
      dsimp only
      rw [countP_span aligned q, Nat.add_assoc, sum]

theorem rangeLoop_overflow (fuel : Nat) (tooLong : ¬ FitsDuration (l - c + 1)) (res : Totals) :
    rangeLoop counters t (nanosPerMinute * l) fuel (nanosPerMinute * c) res = none := by
  induction fuel generalizing c res with
  | zero => rfl
  | succ _ ih =>
    have ordered : c ≤ l := by
      by_contra past
      have none_ : FitsDuration 0 := by
        unfold FitsDuration
        decide
      exact tooLong (none_.mono (by omega))
    have notOver : ¬ nanosPerMinute * l < nanosPerMinute * c :=
      not_lt.mpr (mul_le_mul_of_nonneg_left ordered (by decide))
    have next : nanosPerMinute * (c - 153722867) + minute.step =
        nanosPerMinute * (c - 153722866) := by
      rw [step, ← mul_add_one]
      congr 1
      omega
    rw [rangeLoop, if_neg notOver, nextSpan_overflow tooLong]
    simp only [next]
    exact ih (fun fits => tooLong (fits.mono (by omega))) _

end

end Panmail.Events
