import Mathlib.Data.UInt
import Panmail.Delivery.Settle
import Panmail.Events.Listing
import Panmail.Lib.MergeOperator
import Panmail.Lib.Rfc3339

/-!
# Counters of events

Each write adds one to the event's counters: its type's total, and the buckets of its day, hour and
minute. An increment is an operand of the store's merge operator. The counters have key families of
their own, so they are a store of their own here.
-/
namespace Panmail.Events

open ByteStrings KeyValue MergeOperator Delivery List

/-! ### The merge operator -/

def putUint64 (n : UInt64) : Bytes := littleEndian 8 n.toNat

def decodeUint64 (b : Bytes) : UInt64 :=
  if b.length < 8 then 0 else UInt64.ofNat (fromLittleEndian (b.take 8))

/-- Its state is the sum. -/
def counterValueMerger : Merger Bytes UInt64 where
  merge := decodeUint64
  mergeNewer sum value := sum + decodeUint64 value
  mergeOlder sum value := sum + decodeUint64 value
  finish := putUint64

theorem decode_put (n : UInt64) : decodeUint64 (putUint64 n) = n := by
  have whole : (putUint64 n).length = 8 := length_littleEndian 8 n.toNat
  rw [decodeUint64, if_neg (by omega), take_of_length_le (le_of_eq whole), putUint64,
    fromLittleEndian_littleEndian]
  exact UInt64.toNat_inj.mp (by simp)

theorem counter_adds : Adds counterValueMerger decodeUint64 id where
  merge _ := rfl
  mergeNewer _ _ := rfl
  mergeOlder _ _ := rfl
  finish := decode_put

/-! ### The families -/

inductive Family where
  | day | hour | minute
  deriving DecidableEq

def Family.start : Family → String
  | .day => "timeseries:"
  | .hour => "timeseries:hour:"
  | .minute => "timeseries:minute:"

def nanosPerMinute : Int := 60 * 10 ^ 9

def Family.step : Family → Int
  | .day => nanosPerMinute * 1440
  | .hour => nanosPerMinute * 60
  | .minute => nanosPerMinute

def space : Byte := 32

/-- The bucket of an instant: buckets are counted from 1970, as the instants are. -/
def Family.bucket (family : Family) (at_ : Int) : Int := at_ / family.step

/-- The day of an instant in the calendar, which starts with the year 0. -/
def dayOf (at_ : Int) : Nat := (Rfc3339.epoch + Family.day.bucket at_).toNat

/-- The text of the bucket of an instant, in the family's layout. -/
def Family.format (at_ : Int) : Family → Bytes
  | .day => Rfc3339.dateText (Rfc3339.dateOf (dayOf at_))
  | .hour => Rfc3339.dateText (Rfc3339.dateOf (dayOf at_)) ++ space ::
      Rfc3339.padded 2 (Family.hour.bucket at_ % 24).toNat
  | .minute => Rfc3339.dateText (Rfc3339.dateOf (dayOf at_)) ++ space ::
      (Rfc3339.padded 2 (Family.hour.bucket at_ % 24).toNat ++ colon ::
        Rfc3339.padded 2 (Family.minute.bucket at_ % 60).toNat)

def trimStart (start s : String) : String :=
  if start.toList.isPrefixOf s.toList then String.ofList (s.toList.drop start.length) else s

def typeStr (type : EventType) : String := trimStart "EMAIL_EVENT_TYPE_" type.string

theorem trimStart_append (start s : String) : trimStart start (start ++ s) = s := by
  have front : start.toList.isPrefixOf (start ++ s).toList = true := by
    rw [ isPrefixOf_iff_prefix, String.toList_append]
    exact prefix_append _ _
  rw [trimStart, if_pos front, String.toList_append, ← String.length_toList, drop_left,
    String.ofList_toList]

theorem typeStr_eq (type : EventType) : typeStr type = match type with
    | .unspecified => "UNSPECIFIED" | .sent => "SENT" | .delivered => "DELIVERED"
    | .opened => "OPENED" | .clicked => "CLICKED" | .bounced => "BOUNCED"
    | .hardBounce => "HARD_BOUNCE" | .softBounce => "SOFT_BOUNCE" | .spamReport => "SPAM_REPORT"
    | .unsubscribed => "UNSUBSCRIBED" | .dropped => "DROPPED" | .rejected => "REJECTED"
    | .pending => "PENDING" | .deferred => "DEFERRED" | .complained => "COMPLAINED" :=
  trimStart_append _ _

theorem typeStr_plain (type : EventType) : NoColon (typeStr type) := by
  rw [NoColon, typeStr_eq]
  cases type <;> simp

theorem typeStr_inj {type other : EventType} (same : typeStr type = typeStr other) :
    type = other := by
  rw [typeStr_eq, typeStr_eq] at same
  cases type <;> cases other <;> first | rfl | simp at same

def Family.base (family : Family) (tenantID : String) : Bytes :=
  utf8 family.start ++ (utf8 tenantID ++ [colon])

def bucketKey (family : Family) (e : EmailEvent) : Bytes :=
  family.base e.tenantID ++ (family.format e.timestamp ++ colon :: utf8 (typeStr e.type))

def metricKey (e : EmailEvent) : Bytes :=
  utf8 "metrics:" ++ (utf8 e.tenantID ++ colon :: utf8 (typeStr e.type))

def increments (e : EmailEvent) : List Bytes :=
  [metricKey e, bucketKey .day e, bucketKey .hour e, bucketKey .minute e]

def operands (es : List EmailEvent) (k : Bytes) : List Bytes :=
  ((es.flatMap increments).filter (· == k)).map fun _ => putUint64 1

/-- The counters of events: each key that has operands holds some combination of them. -/
structure Counted (es : List EmailEvent) (counters : Store Bytes Bytes) : Prop where
  present : ∀ k v, counters.get k = some v → Combined counterValueMerger (operands es k) v
  absent : ∀ k, counters.get k = none → operands es k = []

section
variable {es : List EmailEvent} {counters : Store Bytes Bytes} {k v : Bytes}

theorem operands_eq_nil : operands es k = [] ↔ k ∉ es.flatMap increments := by
  rw [operands, map_eq_nil_iff, filter_eq_nil_iff]
  constructor
  · intro none_ mem
    exact none_ k mem (beq_self_eq_true k)
  · intro missing x mem same
    exact missing (eq_of_beq same ▸ mem)

/-- Whatever the order of merging, a counter is the number of its increments. -/
theorem Counted.value (counted : Counted es counters) (found : counters.get k = some v) :
    decodeUint64 v = UInt64.ofNat ((es.flatMap increments).count k) := by
  have sum := combined_sum counter_adds (counted.present k v found)
  have ones (xs : List Bytes) :
      ((xs.map fun _ => putUint64 1).map decodeUint64).sum = UInt64.ofNat xs.length := by
    induction xs with
    | nil => rfl
    | cons _ _ ih =>
      rw [map_cons, map_cons, sum_cons, ih, decode_put, length_cons]
      simp [add_comm]
  rw [sum, operands, ones, count_eq_length_filter]

theorem Counted.get_iff (counted : Counted es counters) :
    (∃ v, counters.get k = some v) ↔ k ∈ es.flatMap increments := by
  constructor
  · rintro ⟨v, found⟩
    by_contra missing
    exact combined_ne_nil (counted.present k v found) (operands_eq_nil.mpr missing)
  · intro mem
    cases found : counters.get k with
    | some v => exact ⟨v, rfl⟩
    | none => exact absurd mem (operands_eq_nil.mp (counted.absent k found))

end

def incrementCounter (counters : Store Bytes Bytes) (k : Bytes) : Store Bytes Bytes :=
  counters.set k (match counters.get k with
    | none => putUint64 1
    | some v => putUint64 (decodeUint64 v + decodeUint64 (putUint64 1)))

def countersOf (es : List EmailEvent) : Store Bytes Bytes :=
  (es.flatMap increments).foldl incrementCounter .empty

theorem counted_countersOf (es : List EmailEvent) : Counted es (countersOf es) := by
  have keys (ks : List Bytes) (k : Bytes) :
      ((ks.foldl incrementCounter Store.empty).get k).elim
        ((ks.filter (· == k)).map (fun _ => putUint64 1) = [])
        (Combined counterValueMerger ((ks.filter (· == k)).map fun _ => putUint64 1)) := by
    induction ks using List.reverseRecOn with
    | nil => simp
    | append_singleton ks other ih =>
      rw [foldl_append, foldl_cons, foldl_nil, incrementCounter, Store.get_set,
        filter_append, map_append]
      by_cases here : k = other
      · subst here
        have kept : [k].filter (· == k) = [k] := by simp
        rw [if_pos rfl, kept]
        cases found : (ks.foldl incrementCounter Store.empty).get k with
        | none =>
          rw [found, Option.elim_none] at ih
          simp only [ih, nil_append, map_cons, map_nil]
          exact .operand _
        | some =>
          rw [found] at ih
          exact .finish (.newer (.start ih) (.operand _))
      · have skipped : [other].filter (· == k) = [] := by simp [Ne.symm here]
        rw [if_neg here, skipped, map_nil, append_nil]
        exact ih
  constructor
  · intro k v found
    have combined := keys (es.flatMap increments) k
    rw [countersOf] at found
    rw [found] at combined
    exact combined
  · intro k found
    have none_ := keys (es.flatMap increments) k
    rw [countersOf] at found
    rw [found] at none_
    exact none_

/-! ### Buckets sort as text -/

/-- An instant of the years 0 to 9999, which the layouts write with four digits. -/
def Dated (at_ : Int) : Prop :=
  0 ≤ Rfc3339.epoch + Family.day.bucket at_ ∧ dayOf at_ < Rfc3339.daysBeforeYear 10000

open Family

instance (at_ : Int) : Decidable (Dated at_) := inferInstanceAs (Decidable (_ ∧ _))

section
variable {at_ other : Int} {family : Family}

theorem hour_bucket (at_ : Int) : hour.bucket at_ = minute.bucket at_ / 60 :=
  (Int.ediv_ediv_of_nonneg (by decide)).symm

theorem day_bucket (at_ : Int) : day.bucket at_ = minute.bucket at_ / 1440 :=
  (Int.ediv_ediv_of_nonneg (by decide)).symm

theorem padded_two {n : Nat} (small : n < 100) : Rfc3339.padded 2 n = fixed 2 n :=
  zeroPad_decimal small

theorem Dated.date_lt (dated : Dated at_) (dated' : Dated other) :
    Rfc3339.dateText (Rfc3339.dateOf (dayOf at_)) < Rfc3339.dateText (Rfc3339.dateOf (dayOf other)) ↔
      day.bucket at_ < day.bucket other := by
  rw [Rfc3339.dateText_lt dated.2 dated'.2, dayOf, dayOf]
  have low := dated.1
  have low' := dated'.1
  omega

theorem Dated.length_date (dated : Dated at_) :
    (Rfc3339.dateText (Rfc3339.dateOf (dayOf at_))).length = 10 :=
  Rfc3339.length_dateText (Rfc3339.dateOf_spec _).1 (Rfc3339.dateOf_year_lt dated.2)

/-- After the date, the later parts count when the day is the same. -/
theorem Dated.date_append_lt (dated : Dated at_) (dated' : Dated other) {us vs : Bytes} :
    Rfc3339.dateText (Rfc3339.dateOf (dayOf at_)) ++ us <
        Rfc3339.dateText (Rfc3339.dateOf (dayOf other)) ++ vs ↔
      day.bucket at_ < day.bucket other ∨
        day.bucket at_ = day.bucket other ∧ us < vs := by
  rw [append_lt_append (dated.length_date.trans dated'.length_date.symm), dated.date_lt dated']
  constructor
  · rintro (less | ⟨same, less⟩)
    · exact .inl less
    · have notLess := (dated.date_lt dated').not.mp (same ▸ lt_irrefl _)
      have notMore := (dated'.date_lt dated).not.mp (same ▸ lt_irrefl _)
      exact .inr ⟨by omega, less⟩
  · rintro (less | ⟨same, less⟩)
    · exact .inl less
    · exact .inr ⟨by rw [dayOf, dayOf, same], less⟩

variable (family) in
theorem Dated.format_lt (dated : Dated at_) (dated' : Dated other) :
    family.format at_ < family.format other ↔ family.bucket at_ < family.bucket other := by
  have hour := hour_bucket at_
  have hour' := hour_bucket other
  have day := day_bucket at_
  have day' := day_bucket other
  cases family with
  | day => exact dated.date_lt dated'
  | hour =>
    rw [Family.format, Family.format, dated.date_append_lt dated', padded_two (by omega),
      padded_two (by omega), cons_lt_cons_iff, fixed_lt_fixed (by omega) (by omega)]
    simp only [lt_irrefl, false_or, true_and]
    omega
  | minute =>
    rw [Family.format, Family.format, dated.date_append_lt dated', padded_two (by omega),
      padded_two (by omega), padded_two (by omega), padded_two (by omega), cons_lt_cons_iff,
      Rfc3339.fixed_cons_lt (by omega) (by omega), fixed_lt_fixed (by omega) (by omega)]
    simp only [lt_irrefl, false_or, true_and]
    omega

theorem Dated.length_format (dated : Dated at_) (dated' : Dated other) :
    (family.format at_).length = (family.format other).length := by
  have dates := dated.length_date.trans dated'.length_date.symm
  cases family with
  | day => exact dates
  | hour =>
    rw [Family.format, Family.format, padded_two (by omega), padded_two (by omega)]
    simp [dates]
  | minute =>
    rw [Family.format, Family.format, padded_two (by omega), padded_two (by omega),
      padded_two (by omega), padded_two (by omega)]
    simp [dates]

/-- The bounds of a scan hold the buckets from one to another. -/
theorem Dated.between_iff {from_ through : Int} (dated : Dated at_) (low : Dated from_)
    (high : Dated through) (start rest : Bytes) :
    (start ++ family.format from_ ≤ start ++ (family.format at_ ++ colon :: rest) ∧
        start ++ (family.format at_ ++ colon :: rest) < start ++ (family.format through ++ [255])) ↔
      family.bucket from_ ≤ family.bucket at_ ∧ family.bucket at_ ≤ family.bucket through := by
  have lower : family.format at_ ++ colon :: rest < family.format from_ ↔
      family.bucket at_ < family.bucket from_ := by
    have split_ : family.format at_ ++ colon :: rest < family.format from_ ++ [] ↔ _ :=
      append_lt_append (dated.length_format low)
    rw [append_nil] at split_
    rw [split_, dated.format_lt family low]
    simp
  have upper : family.format at_ ++ colon :: rest < family.format through ++ [255] ↔
      family.bucket at_ ≤ family.bucket through := by
    have below : colon :: rest < [(255 : Byte)] := cons_lt_cons_iff.mpr (.inl (by decide))
    rw [append_lt_append (dated.length_format high), dated.format_lt family high]
    constructor
    · rintro (less | ⟨same, _⟩)
      · exact le_of_lt less
      · have notMore := (high.format_lt family dated).not.mp (same ▸ lt_irrefl _)
        omega
    · intro le
      by_cases less : family.bucket at_ < family.bucket through
      · exact .inl less
      · have notLess := (dated.format_lt family high).not.mpr less
        have notMore := (high.format_lt family dated).not.mpr (by omega)
        exact .inr ⟨le_antisymm (not_lt.mp notMore) (not_lt.mp notLess), below⟩
  rw [← not_lt, append_lt_append_left, append_lt_append_left, lower, upper, not_lt]

end

/-! ### Whose counter a key is -/

structure Tenant (t : String) : Prop where
  plain : NoColon t
  notHour : t ≠ "hour"
  notMinute : t ≠ "minute"

instance (t : String) : Decidable (Tenant t) :=
  decidable_of_iff (NoColon t ∧ t ≠ "hour" ∧ t ≠ "minute")
    ⟨fun ⟨a, b, c⟩ => ⟨a, b, c⟩, fun ⟨a, b, c⟩ => ⟨a, b, c⟩⟩

section
variable {t u : String} {family other : Family} {x y : Bytes}

/-- What follows the first word of a key. -/
def Family.tail (t : String) (x : Bytes) : Family → Bytes
  | .day => utf8 t ++ colon :: x
  | .hour => utf8 "hour" ++ colon :: (utf8 t ++ colon :: x)
  | .minute => utf8 "minute" ++ colon :: (utf8 t ++ colon :: x)

theorem base_append (family : Family) (t : String) (x : Bytes) :
    family.base t ++ x = utf8 "timeseries" ++ colon :: family.tail t x := by
  have day : utf8 "timeseries:" = utf8 "timeseries" ++ [colon] := by decide
  have hour : utf8 "timeseries:hour:" = utf8 "timeseries" ++ colon :: (utf8 "hour" ++ [colon]) := by
    decide
  have minute : utf8 "timeseries:minute:" =
      utf8 "timeseries" ++ colon :: (utf8 "minute" ++ [colon]) := by decide
  cases family with
  | day => simp [Family.base, Family.start, Family.tail, day]
  | hour => simp [Family.base, Family.start, Family.tail, hour]
  | minute => simp [Family.base, Family.start, Family.tail, minute]

theorem base_inj (tenant : Tenant t) (tenant' : Tenant u)
    (same : family.base t ++ x = other.base u ++ y) : family = other ∧ t = u ∧ x = y := by
  rw [base_append, base_append, append_cancel_left_eq, List.cons.injEq] at same
  replace same := same.2
  have hour : NoColon "hour" := by decide
  have minute : NoColon "minute" := by decide
  have heads {a b : String} {v w : Bytes} (plain : NoColon a) (plain' : NoColon b)
      (same : utf8 a ++ colon :: v = utf8 b ++ colon :: w) : a = b ∧ v = w := by
    obtain ⟨front, rest⟩ := Text.append_separator_inj plain.notMem plain'.notMem same
    exact ⟨utf8_injective front, rest⟩
  cases family with
  | day =>
    cases other with
    | day => exact ⟨rfl, heads tenant.plain tenant'.plain same⟩
    | hour => exact absurd (heads tenant.plain hour same).1 tenant.notHour
    | minute => exact absurd (heads tenant.plain minute same).1 tenant.notMinute
  | hour =>
    cases other with
    | day => exact absurd (heads hour tenant'.plain same).1.symm tenant'.notHour
    | hour => exact ⟨rfl, heads tenant.plain tenant'.plain (heads hour hour same).2⟩
    | minute => exact absurd (heads hour minute same).1 (by decide)
  | minute =>
    cases other with
    | day => exact absurd (heads minute tenant'.plain same).1.symm tenant'.notMinute
    | hour => exact absurd (heads minute hour same).1 (by decide)
    | minute => exact ⟨rfl, heads tenant.plain tenant'.plain (heads minute minute same).2⟩

theorem metricKey_ne_base (e : EmailEvent) : metricKey e ≠ family.base t ++ x := by
  have metrics : utf8 "metrics:" = utf8 "metrics" ++ [colon] := by decide
  intro same
  rw [metricKey, metrics, base_append, append_assoc] at same
  have plain : NoColon "metrics" := by decide
  have plain' : NoColon "timeseries" := by decide
  have words := (Text.append_separator_inj plain.notMem plain'.notMem same).1
  exact absurd (utf8_injective words) (by decide)

end

end Panmail.Events
