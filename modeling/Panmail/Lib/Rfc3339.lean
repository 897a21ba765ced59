import Mathlib.Data.Nat.Find
import Mathlib.Data.List.DropRight
import Panmail.Lib.Bytes

/-!
# RFC 3339 timestamps

An instant, counted in nanoseconds from the start of 1970, as a date and a time of day in UTC
with the fraction of a second cut after its last digit that is not zero, and read back. Dates
are of the Gregorian calendar, in which year 0 is a leap year, and a day is counted from the
first day of that year.
-/
namespace Rfc3339

open ByteStrings List

/-! ### The calendar -/

def leapYear (year : Nat) : Bool := year % 4 = 0 && (year % 100 ≠ 0 || year % 400 = 0)

def daysIn (year month : Nat) : Nat :=
  match month with
  | 2 => if leapYear year then 29 else 28
  | 4 | 6 | 9 | 11 => 30
  | _ => 31

def daysBeforeYear (year : Nat) : Nat :=
  365 * year + (year + 3) / 4 + (year + 399) / 400 - (year + 99) / 100

def daysOfMonths (year : Nat) : Nat → Nat
  | 0 => 0
  | months + 1 => daysOfMonths year months + daysIn year (months + 1)

structure Date where
  year : Nat
  month : Nat
  day : Nat

def Date.days (d : Date) : Nat :=
  daysBeforeYear d.year + daysOfMonths d.year (d.month - 1) + (d.day - 1)

def dateOf (days : Nat) : Date :=
  let year := Nat.findGreatest (fun y => daysBeforeYear y ≤ days) (days / 365)
  let dayOfYear := days - daysBeforeYear year
  let months := Nat.findGreatest (fun m => daysOfMonths year m ≤ dayOfYear) 11
  ⟨year, months + 1, dayOfYear - daysOfMonths year months + 1⟩

def epoch : Nat := 719528

theorem daysBeforeYear_succ (year : Nat) : daysBeforeYear (year + 1) =
    daysBeforeYear year + if leapYear year then 366 else 365 := by
  have leap : leapYear year = true ↔ year % 4 = 0 ∧ (year % 100 ≠ 0 ∨ year % 400 = 0) := by
    simp [leapYear]
  have four : (year + 1 + 3) / 4 = (year + 3) / 4 + if year % 4 = 0 then 1 else 0 := by
    split <;> omega
  have hundred : (year + 1 + 99) / 100 = (year + 99) / 100 + if year % 100 = 0 then 1 else 0 := by
    split <;> omega
  have fourHundred : (year + 1 + 399) / 400 =
      (year + 399) / 400 + if year % 400 = 0 then 1 else 0 := by split <;> omega
  have fewer : (year + 99) / 100 ≤ 365 * year + (year + 3) / 4 + (year + 399) / 400 := by omega
  simp only [daysBeforeYear, leap, four, hundred, fourHundred]
  generalize (year + 3) / 4 = fours at *
  generalize (year + 99) / 100 = hundreds at *
  generalize (year + 399) / 400 = fourHundreds at *
  clear four hundred fourHundred
  split_ifs <;> omega

theorem daysOfMonths_year (year : Nat) :
    daysOfMonths year 12 = if leapYear year then 366 else 365 := by
  simp only [daysOfMonths, daysIn]
  split <;> rfl

theorem findGreatest_between {f : Nat → Nat} {n most : Nat} (zero : f 0 ≤ n)
    (exceeded : n < f (most + 1)) : f (Nat.findGreatest (fun i => f i ≤ n) most) ≤ n ∧
      n < f (Nat.findGreatest (fun i => f i ≤ n) most + 1) := by
  constructor
  · exact Nat.findGreatest_spec (P := fun i => f i ≤ n) (Nat.zero_le _) zero
  · rcases Nat.lt_or_ge (Nat.findGreatest (fun i => f i ≤ n) most) most with inside | last
    · exact Nat.not_le.mp (Nat.findGreatest_is_greatest (P := fun i => f i ≤ n)
        (Nat.lt_succ_self _) inside)
    · have top := le_antisymm (Nat.findGreatest_le (P := fun i => f i ≤ n) most) last
      rw [top]
      exact exceeded

theorem le_daysBeforeYear (year : Nat) : 365 * year ≤ daysBeforeYear year := by
  unfold daysBeforeYear
  omega

structure Date.Valid (d : Date) : Prop where
  month : 1 ≤ d.month ∧ d.month ≤ 12
  day : 1 ≤ d.day ∧ d.day ≤ daysIn d.year d.month

theorem dateOf_spec (days : Nat) : (dateOf days).Valid ∧ (dateOf days).days = days ∧
    daysBeforeYear (dateOf days).year ≤ days := by
  have exceeded : days < daysBeforeYear (days / 365 + 1) := by
    have enough := le_daysBeforeYear (days / 365 + 1)
    omega
  obtain ⟨started, ended⟩ := findGreatest_between (f := daysBeforeYear) (Nat.zero_le _) exceeded
  simp only [dateOf]
  generalize Nat.findGreatest (fun y => daysBeforeYear y ≤ days) (days / 365) = year at *
  rw [daysBeforeYear_succ] at ended
  have within : days - daysBeforeYear year < daysOfMonths year (11 + 1) := by
    rw [daysOfMonths_year]
    omega
  obtain ⟨begun, left⟩ := findGreatest_between (f := daysOfMonths year) (Nat.zero_le _) within
  have most := Nat.findGreatest_le (P := fun m => daysOfMonths year m ≤ days - daysBeforeYear year) 11
  generalize Nat.findGreatest (fun m => daysOfMonths year m ≤ days - daysBeforeYear year) 11 = months at *
  rw [daysOfMonths] at left
  refine ⟨⟨⟨?_, ?_⟩, ?_, ?_⟩, ?_, started⟩
  all_goals simp only [Date.days, Nat.add_sub_cancel]
  all_goals omega

/-! ### Printing -/

def hyphen : Byte := 45
def dot : Byte := 46
def separator : Byte := 58
def timeMark : Byte := 84
def zulu : Byte := 90

def padded (width n : Nat) : Bytes := zeroPad width (decimal n)

/-- The fraction of a second, without zeros at its end. -/
def fraction (nanos : Nat) : Bytes :=
  let digits := (fixed 9 nanos).rdropWhile (· = digit 0)
  if digits = [] then [] else dot :: digits

def format (t : Nat) : Bytes :=
  let seconds := t / 10 ^ 9
  let date := dateOf (epoch + seconds / 86400)
  let clock := seconds % 86400
  padded 4 date.year ++ hyphen :: (padded 2 date.month ++ hyphen :: (padded 2 date.day ++
    timeMark :: (padded 2 (clock / 3600) ++ separator :: (padded 2 (clock / 60 % 60) ++
      separator :: (padded 2 (clock % 60) ++ (fraction (t % 10 ^ 9) ++ [zulu]))))))

/-! ### Reading -/

/-- A number of so many digits, in a range. -/
def readNumber (width least most : Nat) (s : Bytes) : Option (Nat × Bytes) :=
  let digits := s.take width
  if digits.length = width ∧ digits.all isDigit ∧ least ≤ value digits ∧ value digits ≤ most then
    some (value digits, s.drop width)
  else none

def expect (b : Byte) : Bytes → Option Bytes
  | c :: rest => if c = b then some rest else none
  | [] => none

/-- The digits after a dot, of which nine count. -/
def readFraction : Bytes → Nat × Bytes
  | c :: rest =>
    let digits := rest.takeWhile isDigit
    if c = dot ∧ digits ≠ [] then
      (value (digits.take 9) * 10 ^ (9 - (digits.take 9).length), rest.dropWhile isDigit)
    else (0, c :: rest)
  | [] => (0, [])

/-- The offset of a zone, in seconds. -/
def readZone (s : Bytes) : Option Int :=
  if s = [zulu] then some 0
  else match s with
  | sign :: rest => do
    let (hours, rest) ← readNumber 2 0 23 rest
    let rest ← expect separator rest
    let (minutes, rest) ← readNumber 2 0 59 rest
    if rest ≠ [] then none
    else if sign = plus then some ((hours * 60 + minutes) * 60)
    else if sign = minus then some (-((hours * 60 + minutes) * 60))
    else none
  | [] => none

def parse (s : Bytes) : Option Int := do
  let (year, s) ← readNumber 4 0 9999 s
  let s ← expect hyphen s
  let (month, s) ← readNumber 2 1 12 s
  let s ← expect hyphen s
  let (day, s) ← readNumber 2 1 (daysIn year month) s
  let s ← expect timeMark s
  let (hour, s) ← readNumber 2 0 23 s
  let s ← expect separator s
  let (minute, s) ← readNumber 2 0 59 s
  let s ← expect separator s
  let (second, s) ← readNumber 2 0 59 s
  let (nanos, s) := readFraction s
  let offset ← readZone s
  let days : Int := (Date.days ⟨year, month, day⟩ : Int) - epoch
  some ((days * 86400 + (hour * 3600 + minute * 60 + second : Nat) - offset) * 10 ^ 9 + nanos)

/-! ### The round trip -/

def limit : Nat := (daysBeforeYear 10000 - epoch) * 86400 * 10 ^ 9

section
variable {width least most n days t : Nat} {rest : Bytes}

theorem readNumber_fixed (fits : n < 10 ^ width) (low : least ≤ n) (high : n ≤ most) :
    readNumber width least most (fixed width n ++ rest) = some (n, rest) := by
  have length := length_fixed width n
  have all : (fixed width n).all isDigit = true :=
    all_eq_true.mpr fun b mem => isDigit_fixed mem
  simp only [readNumber, take_left' length, drop_left' length, length, all,
    value_fixed fits, low, high, and_self, if_true]

theorem expect_self (b : Byte) : expect b (b :: rest) = some rest := if_pos rfl

/-- Zeros at the end of a fraction count for nothing. -/
theorem value_rdropWhile (s : Bytes) :
    value (s.rdropWhile (· = digit 0)) * 10 ^ (s.length - (s.rdropWhile (· = digit 0)).length) =
      value s := by
  induction s using List.reverseRecOn with
  | nil => rfl
  | append_singleton s b ih =>
    rw [rdropWhile_concat]
    split
    next zero =>
      simp only [decide_eq_true_eq] at zero
      have start := rdropWhile_prefix (· = digit 0) s
      have shorter := start.length_le
      have count : (s ++ [b]).length - (s.rdropWhile (· = digit 0)).length =
          s.length - (s.rdropWhile (· = digit 0)).length + 1 := by
        rw [length_append, length_singleton]
        omega
      rw [count, Nat.pow_succ, ← Nat.mul_assoc, ih, value_concat, zero]
      have nothing : (digit 0).val - 48 = 0 := by decide
      omega
    next => simp

theorem readFraction_fraction (fits : n < 10 ^ 9) : readFraction (fraction n ++ [zulu]) = (n, [zulu]) := by
  have whole := value_rdropWhile (fixed 9 n)
  have start := rdropWhile_prefix (· = digit 0) (fixed 9 n)
  have shorter := start.length_le
  have digits : ∀ b ∈ (fixed 9 n).rdropWhile (· = digit 0), isDigit b = true := fun b mem =>
    isDigit_fixed (start.subset mem)
  rw [value_fixed fits, length_fixed] at whole
  unfold fraction
  generalize (fixed 9 n).rdropWhile (· = digit 0) = ds at whole shorter digits
  cases ds with
  | nil =>
    have zero : n = 0 := by simpa [value] using whole.symm
    subst zero
    rfl
  | cons d others =>
    have taken : (d :: others ++ [zulu]).takeWhile isDigit = d :: others := by
      rw [takeWhile_append_of_pos digits]
      simp [List.takeWhile, isDigit, zulu]
    have left : (d :: others ++ [zulu]).dropWhile isDigit = [zulu] := by
      rw [dropWhile_append_of_pos digits]
      simp [List.dropWhile, isDigit, zulu]
    have nine : (d :: others).take 9 = d :: others := take_of_length_le shorter
    have read : readFraction (dot :: (d :: others ++ [zulu])) = (n, [zulu]) := by
      simp only [readFraction, taken, left, nine, whole, ne_eq, reduceCtorEq, not_false_eq_true,
        and_self, if_true]
    exact read

theorem daysIn_le (year month : Nat) : daysIn year month ≤ 31 := by
  unfold daysIn
  split
  · split <;> decide
  all_goals decide

theorem daysBeforeYear_mono : Monotone daysBeforeYear := by
  refine monotone_nat_of_le_succ fun year => ?_
  rw [daysBeforeYear_succ]
  exact Nat.le_add_right _ _

theorem dateOf_year_lt (early : days < daysBeforeYear 10000) : (dateOf days).year < 10000 := by
  by_contra late
  have reached := (dateOf_spec days).2.2
  have passed := (daysBeforeYear_mono (Nat.le_of_not_lt late)).trans reached
  omega

theorem year_lt (early : t < limit) : (dateOf (epoch + t / 10 ^ 9 / 86400)).year < 10000 := by
  have before : t / 10 ^ 9 / 86400 < daysBeforeYear 10000 - epoch := by
    have seconds : t / 10 ^ 9 < (daysBeforeYear 10000 - epoch) * 86400 :=
      (Nat.div_lt_iff_lt_mul (by decide)).mpr early
    exact (Nat.div_lt_iff_lt_mul (by decide)).mpr seconds
  exact dateOf_year_lt (by omega)

theorem format_fixed (early : t < limit) : format t =
      fixed 4 (dateOf (epoch + t / 10 ^ 9 / 86400)).year ++ hyphen ::
        (fixed 2 (dateOf (epoch + t / 10 ^ 9 / 86400)).month ++ hyphen ::
          (fixed 2 (dateOf (epoch + t / 10 ^ 9 / 86400)).day ++ timeMark ::
            (fixed 2 (t / 10 ^ 9 % 86400 / 3600) ++ separator ::
              (fixed 2 (t / 10 ^ 9 % 86400 / 60 % 60) ++ separator ::
                (fixed 2 (t / 10 ^ 9 % 86400 % 60) ++ (fraction (t % 10 ^ 9) ++ [zulu])))))) := by
  have year := year_lt early
  obtain ⟨⟨month, day⟩, _⟩ := dateOf_spec (epoch + t / 10 ^ 9 / 86400)
  have days := daysIn_le (dateOf (epoch + t / 10 ^ 9 / 86400)).year
    (dateOf (epoch + t / 10 ^ 9 / 86400)).month
  simp only [format, padded]
  rw [zeroPad_decimal (by omega), zeroPad_decimal (by omega), zeroPad_decimal (by omega),
    zeroPad_decimal (by omega), zeroPad_decimal (by omega), zeroPad_decimal (by omega)]

theorem instant_eq (t : Nat) (same : days = epoch + t / 10 ^ 9 / 86400) :
    (((days : Int) - epoch) * 86400 + ((t / 10 ^ 9 % 86400 / 3600 * 3600 +
      t / 10 ^ 9 % 86400 / 60 % 60 * 60 + t / 10 ^ 9 % 86400 % 60 : Nat) : Int) - 0) * 10 ^ 9 +
        (t % 10 ^ 9 : Nat) = t := by
  have clock (c : Nat) : c / 3600 * 3600 + c / 60 % 60 * 60 + c % 60 = c := by omega
  have elapsed : (days : Int) - epoch = (t / 10 ^ 9 / 86400 : Nat) := by omega
  rw [clock, elapsed, sub_zero]
  have seconds := Nat.div_add_mod' (t / 10 ^ 9) 86400
  have whole := Nat.div_add_mod' t (10 ^ 9)
  generalize t / 10 ^ 9 = s at *
  have parts : ((s / 86400 : Nat) : Int) * 86400 + (s % 86400 : Nat) = s := by
    exact_mod_cast seconds
  rw [parts]
  exact_mod_cast whole

theorem parse_format (early : t < limit) : parse (format t) = some (t : Int) := by
  have year := year_lt early
  obtain ⟨⟨month, day⟩, same, _⟩ := dateOf_spec (epoch + t / 10 ^ 9 / 86400)
  have days := daysIn_le (dateOf (epoch + t / 10 ^ 9 / 86400)).year
    (dateOf (epoch + t / 10 ^ 9 / 86400)).month
  rw [format_fixed early, parse, readNumber_fixed (by omega) (Nat.zero_le _) (by omega)]
  generalize dateOf (epoch + t / 10 ^ 9 / 86400) = date at *
  have zone : readZone [zulu] = some 0 := rfl
  have next_ (b : Byte) (rest : Bytes) (k : Bytes → Option Int) :
      (expect b (b :: rest) >>= k) = k rest := by
    rw [expect_self]
    rfl
  have read {β : Type} (x : β) (k : β → Option Int) : (some x >>= k) = k x := rfl
  rw [read]
  dsimp only
  rw [next_, readNumber_fixed (by omega) month.1 month.2, read]
  rw [next_, readNumber_fixed (by omega) day.1 day.2, read]
  rw [next_, readNumber_fixed (by omega) (Nat.zero_le _) (by omega), read]
  rw [next_, readNumber_fixed (by omega) (Nat.zero_le _) (by omega), read]
  dsimp only
  rw [next_, readNumber_fixed (by omega) (Nat.zero_le _) (by omega), read]
  dsimp only
  rw [readFraction_fraction (Nat.mod_lt t (by decide))]
  dsimp only
  rw [zone, read]
  rw [instant_eq t same]

theorem notMem_format {b : Byte} (early : t < limit) (other : isDigit b = false)
    (free : b ∉ [hyphen, dot, separator, timeMark, zulu]) : b ∉ format t := by
  have digits (width n : Nat) : b ∉ fixed width n := fun mem => by
    rw [isDigit_fixed mem] at other
    cases other
  simp only [mem_cons, not_or] at free
  have fraction_ (n : Nat) : b ∉ fraction n := by
    have start := rdropWhile_prefix (· = digit 0) (fixed 9 n)
    simp only [fraction]
    split
    · simp
    · simp only [mem_cons, not_or]
      exact ⟨free.2.1, fun mem => digits 9 n (start.subset mem)⟩
  rw [format_fixed early]
  simp only [mem_append, mem_cons, digits, fraction_, free, or_self,
    not_false_eq_true]

end

/-! ### Dates as text -/

/-- The layout `2006-01-02`. -/
def dateText (d : Date) : Bytes :=
  padded 4 d.year ++ hyphen :: (padded 2 d.month ++ hyphen :: padded 2 d.day)

section
variable {d d' : Date}

theorem daysOfMonths_mono (year : Nat) : Monotone (daysOfMonths year) :=
  monotone_nat_of_le_succ fun _ => Nat.le_add_right _ _

theorem Date.Valid.days_lt (valid : d.Valid) :
    d.days < daysBeforeYear d.year + daysOfMonths d.year d.month := by
  obtain ⟨month, day⟩ := valid
  obtain ⟨before, same⟩ : ∃ k, d.month = k + 1 := ⟨d.month - 1, by omega⟩
  rw [Date.days, same, daysOfMonths, Nat.add_sub_cancel]
  rw [same] at day
  omega

/-- A date that is earlier in the order of year, month and day is an earlier day. -/
theorem days_lt_of_lex (valid : d.Valid)
    (lex : d.year < d'.year ∨ d.year = d'.year ∧ (d.month < d'.month ∨
      d.month = d'.month ∧ d.day < d'.day)) : d.days < d'.days := by
  have within := valid.days_lt
  rcases lex with year | ⟨year, month | ⟨month, day⟩⟩
  · have year_ : daysBeforeYear d.year + daysOfMonths d.year d.month ≤
        daysBeforeYear (d.year + 1) := by
      have all := daysOfMonths_mono d.year valid.month.2
      rw [daysOfMonths_year] at all
      rw [daysBeforeYear_succ]
      omega
    have later := daysBeforeYear_mono year
    have start : daysBeforeYear d'.year ≤ d'.days := by
      unfold Date.days
      omega
    exact lt_of_lt_of_le within (year_.trans (later.trans start))
  · have later := daysOfMonths_mono d'.year (show d.month ≤ d'.month - 1 by omega)
    rw [year] at within
    unfold Date.days at within ⊢
    omega
  · have first := valid.day.1
    unfold Date.days
    rw [year, month]
    omega

theorem fixed_cons_lt {width n m : Nat} {b : Byte} {us vs : Bytes} (left : n < 10 ^ width)
    (right : m < 10 ^ width) : fixed width n ++ b :: us < fixed width m ++ b :: vs ↔
      n < m ∨ n = m ∧ us < vs := by
  rw [append_lt_append (by simp), fixed_lt_fixed left right, cons_lt_cons_iff]
  constructor
  · rintro (less | ⟨same, less | ⟨_, less⟩⟩)
    · exact .inl less
    · exact absurd less (lt_irrefl _)
    · exact .inr ⟨fixed_inj left right same, less⟩
  · rintro (less | ⟨rfl, less⟩)
    · exact .inl less
    · exact .inr ⟨rfl, .inr ⟨rfl, less⟩⟩

theorem dateText_fixed (valid : d.Valid) (year : d.year < 10000) :
    dateText d = fixed 4 d.year ++ hyphen :: (fixed 2 d.month ++ hyphen :: fixed 2 d.day) := by
  obtain ⟨month, day⟩ := valid
  have days := daysIn_le d.year d.month
  simp only [dateText, padded]
  rw [zeroPad_decimal (by omega), zeroPad_decimal (by omega), zeroPad_decimal (by omega)]

theorem length_dateText (valid : d.Valid) (year : d.year < 10000) : (dateText d).length = 10 := by
  simp [dateText_fixed valid year]

theorem dateText_lt_iff (valid : d.Valid) (valid' : d'.Valid) (year : d.year < 10000)
    (year' : d'.year < 10000) : dateText d < dateText d' ↔ d.year < d'.year ∨
      d.year = d'.year ∧ (d.month < d'.month ∨ d.month = d'.month ∧ d.day < d'.day) := by
  have days := daysIn_le d.year d.month
  have days' := daysIn_le d'.year d'.month
  have month := valid.month
  have month' := valid'.month
  have day := valid.day
  have day' := valid'.day
  rw [dateText_fixed valid year, dateText_fixed valid' year', fixed_cons_lt (by omega) (by omega),
    fixed_cons_lt (by omega) (by omega), fixed_lt_fixed (by omega) (by omega)]

theorem dateText_lt {i j : Nat} (left : i < daysBeforeYear 10000) (right : j < daysBeforeYear 10000) :
    dateText (dateOf i) < dateText (dateOf j) ↔ i < j := by
  obtain ⟨valid, same, _⟩ := dateOf_spec i
  obtain ⟨valid', same', _⟩ := dateOf_spec j
  rw [dateText_lt_iff valid valid' (dateOf_year_lt left) (dateOf_year_lt right)]
  constructor
  · intro lex
    have less := days_lt_of_lex valid lex
    rwa [same, same'] at less
  · intro less
    by_contra other
    -- the dates are the other way round, or equal
    have back : ((dateOf j).year < (dateOf i).year ∨ (dateOf j).year = (dateOf i).year ∧
          ((dateOf j).month < (dateOf i).month ∨
            (dateOf j).month = (dateOf i).month ∧ (dateOf j).day < (dateOf i).day)) ∨
        (dateOf j).year = (dateOf i).year ∧ (dateOf j).month = (dateOf i).month ∧
          (dateOf j).day = (dateOf i).day := by omega
    rcases back with lex | ⟨y, m, d⟩
    · have reverse := days_lt_of_lex valid' lex
      omega
    · have equal : (dateOf j).days = (dateOf i).days := by
        unfold Date.days
        rw [y, m, d]
      omega

end

end Rfc3339
