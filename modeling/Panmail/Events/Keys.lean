import Panmail.Delivery.Events
import Panmail.Lib.Bytes
import Panmail.Lib.KeyValue

/-!
# The keys of the event store

The Pebble store keeps an event under several keys, whose parts are joined by colons. Time
appears in them as a decimal of fixed width that counts down, so that the newest comes first.
-/
namespace Panmail.Events

open ByteStrings Delivery List

def colon : Byte := 58

def maxInt64 : Int := 2 ^ 63 - 1

/-- The arithmetic of `int64` wraps around. -/
def int64 (n : Int) : Int := n.bmod (2 ^ 64)

/-- `UnixNano` of an instant, given in nanoseconds since 1970. -/
def unixNano (at_ : Int) : Int := int64 at_

def timestampWidth : Nat := 19

def descendingTimestamp (at_ : Int) : Bytes :=
  zeroPad timestampWidth (formatInt (int64 (maxInt64 - unixNano at_)))

/-- The instants from 1970 on that nanoseconds in 64 bits reach, up to 2262. -/
def Datable (at_ : Int) : Prop := 0 ≤ at_ ∧ at_ ≤ maxInt64

instance (at_ : Int) : Decidable (Datable at_) := inferInstanceAs (Decidable (_ ∧ _))

section
variable {at_ other n : Int}

theorem int64_of_range (low : 0 ≤ n) (high : n ≤ maxInt64) : int64 n = n := by
  have bound : n ≤ 2 ^ 63 - 1 := high
  unfold int64
  rw [Int.bmod_def]
  omega

theorem unixNano_of_datable (dated : Datable at_) : unixNano at_ = at_ :=
  int64_of_range dated.1 dated.2

/-- What a datable instant counts down to. -/
def countdown (at_ : Int) : Nat := (maxInt64 - at_).toNat

section
variable (dated : Datable at_)
include dated

theorem countdown_cast : (countdown at_ : Int) = maxInt64 - at_ :=
  Int.toNat_of_nonneg (Int.sub_nonneg.mpr dated.2)

theorem countdown_bound : countdown at_ < 2 ^ 63 := by
  have cast := countdown_cast dated
  have low := dated.1
  have top : maxInt64 = 2 ^ 63 - 1 := rfl
  omega

theorem countdown_fits : countdown at_ < 10 ^ timestampWidth :=
  (countdown_bound dated).trans (by decide)

theorem int64_countdown : int64 (maxInt64 - unixNano at_) = countdown at_ := by
  have low := dated.1
  have cast := countdown_cast dated
  rw [unixNano_of_datable dated, int64_of_range (by omega) (by omega), cast]

theorem descendingTimestamp_eq :
    descendingTimestamp at_ = fixed timestampWidth (countdown at_) := by
  have shown : formatInt (countdown at_ : Int) = decimal (countdown at_) := by
    have nonneg : ¬ (countdown at_ : Int) < 0 := by omega
    rw [formatInt, if_neg nonneg, Int.natAbs_natCast]
  rw [descendingTimestamp, int64_countdown dated, shown]
  exact zeroPad_decimal (countdown_fits dated)

theorem descendingTimestamp_lt (dated' : Datable other) :
    descendingTimestamp at_ < descendingTimestamp other ↔ other < at_ := by
  have left := countdown_cast dated
  have right := countdown_cast dated'
  rw [descendingTimestamp_eq dated, descendingTimestamp_eq dated',
    fixed_lt_fixed (countdown_fits dated) (countdown_fits dated')]
  omega

theorem descendingTimestamp_le (dated' : Datable other) :
    descendingTimestamp at_ ≤ descendingTimestamp other ↔ other ≤ at_ := by
  rw [← not_lt, descendingTimestamp_lt dated' dated, not_lt]

theorem descendingTimestamp_inj (dated' : Datable other) :
    descendingTimestamp at_ = descendingTimestamp other ↔ at_ = other := by
  constructor
  · intro same
    have one := (descendingTimestamp_le dated dated').mp (le_of_eq same)
    have two := (descendingTimestamp_le dated' dated).mp (le_of_eq same.symm)
    omega
  · exact congrArg _

theorem descendingTimestamp_ne_nil : descendingTimestamp at_ ≠ [] := by
  rw [descendingTimestamp_eq dated]
  intro empty
  have short := congrArg List.length empty
  simp [timestampWidth] at short

theorem length_descendingTimestamp : (descendingTimestamp at_).length = timestampWidth := by
  rw [descendingTimestamp_eq dated, length_fixed]

theorem formatPadded_bound :
    formatPadded timestampWidth (int64 (maxInt64 - unixNano at_)) = descendingTimestamp at_ := by
  rw [formatPadded_of_nonneg]
  · rfl
  · rw [int64_countdown dated]
    omega

end

/-- The countdown of an instant and one more is that of the instant before, also where it wraps
around. -/
theorem int64_next (at_ : Int) : int64 (int64 (maxInt64 - unixNano at_) + 1) =
    int64 (maxInt64 - unixNano (at_ - 1)) := by
  simp only [int64, unixNano, Int.bmod_add_bmod, Int.sub_bmod_bmod]
  congr 1
  omega

/-- A lower bound of a walk through time, with what follows the timestamp. -/
theorem bound_le_timestamp (dated : Datable at_) (dated' : Datable other) (rest : Bytes) :
    descendingTimestamp other ++ [colon] ≤ descendingTimestamp at_ ++ colon :: rest ↔
      at_ ≤ other := by
  have lengths : (descendingTimestamp at_).length = (descendingTimestamp other).length := by
    rw [length_descendingTimestamp dated, length_descendingTimestamp dated']
  rw [← not_lt, append_lt_append lengths, descendingTimestamp_lt dated dated']
  simp

/-- A negative bound stands before every timestamp: a sign is before the digits. -/
theorem negative_le_timestamp (negative : n < 0) (dated : Datable at_) (rest : Bytes) :
    formatPadded timestampWidth n ++ [colon] ≤ descendingTimestamp at_ ++ colon :: rest := by
  rw [descendingTimestamp_eq dated, formatPadded, if_pos negative, ← not_lt]
  cases form : fixed timestampWidth (countdown at_) with
  | nil => exact absurd (congrArg List.length form) (by simp [timestampWidth])
  | cons b =>
    have first : isDigit b = true := isDigit_fixed (form ▸ mem_cons_self)
    simp only [isDigit, Bool.and_eq_true, decide_eq_true_eq] at first
    have above : minus < b := by
      show 45 < b.val
      omega
    rw [cons_append, cons_append, cons_lt_cons_iff]
    rintro (less | ⟨same, _⟩)
    · exact absurd less (not_lt.mpr (le_of_lt above))
    · exact absurd above (same ▸ lt_irrefl _)

/-- The bound of any instant is that of the instant's remainder in 64 bits. -/
theorem wrapped_le_timestamp (dated : Datable at_) (rest : Bytes) :
    formatPadded timestampWidth (int64 (maxInt64 - unixNano other)) ++ [colon] ≤
      descendingTimestamp at_ ++ colon :: rest ↔ at_ ≤ other % 2 ^ 64 := by
  by_cases reached : other % 2 ^ 64 ≤ maxInt64
  · have there : Datable (other % 2 ^ 64) := ⟨Int.emod_nonneg _ (by decide), reached⟩
    have same : unixNano other = unixNano (other % 2 ^ 64) := (Int.emod_bmod ..).symm
    rw [same, formatPadded_bound there, bound_le_timestamp dated there]
  · -- past 2262 the countdown wraps around to a negative number
    have negative : int64 (maxInt64 - unixNano other) < 0 := by
      simp only [int64, unixNano, Int.bmod_def, maxInt64] at reached ⊢
      split <;> omega
    have top := dated.2
    exact iff_of_true (negative_le_timestamp negative dated rest) (by omega)

theorem notMem_descendingTimestamp (dated : Datable at_) {b : Byte} (other : isDigit b = false) :
    b ∉ descendingTimestamp at_ := by
  rw [descendingTimestamp_eq dated]
  intro mem
  exact absurd (isDigit_fixed mem) (by simp [other])

theorem parse_descendingTimestamp (dated : Datable at_) :
    parseInt64 (descendingTimestamp at_) = maxInt64 - at_ := by
  rw [descendingTimestamp_eq dated, ← countdown_cast dated]
  exact parseInt64_fixed (countdown_fits dated) (countdown_bound dated)

end

/-! ### Keys -/

structure Pair where
  tenantID : String
  messageID : String
  recipient : String
  deriving DecidableEq

inductive Key where
  | event (tenantID : String) (tsDesc : Bytes) (id : String)
  | eventID (id : String)
  | msgEvent (pair : Pair) (tsDesc : Bytes) (id : String)
  | latestTs (pair : Pair)
  | latestEvent (pair : Pair) (tsDesc : Bytes)
  deriving DecidableEq

def Key.family : Key → String
  | .event .. => "events"
  | .eventID _ => "event_id"
  | .msgEvent .. => "msg_events"
  | .latestTs _ => "latest_ts"
  | .latestEvent .. => "latest_events"

def Key.parts : Key → Bytes
  | .event tenantID tsDesc id => utf8 tenantID ++ colon :: (tsDesc ++ colon :: utf8 id)
  | .eventID id => utf8 id
  | .msgEvent p tsDesc id =>
    utf8 p.tenantID ++ colon :: (utf8 p.messageID ++ colon ::
      ((utf8 p.recipient ++ colon :: tsDesc) ++ colon :: utf8 id))
  | .latestTs p => utf8 p.tenantID ++ colon :: (utf8 p.messageID ++ colon :: utf8 p.recipient)
  | .latestEvent p tsDesc =>
    utf8 p.tenantID ++ colon :: (tsDesc ++ colon :: (utf8 p.messageID ++ colon ::
      utf8 p.recipient))

def Key.bytes (k : Key) : Bytes := utf8 k.family ++ colon :: k.parts

def NoColon (s : String) : Prop := ':' ∉ s.toList

instance (s : String) : Decidable (NoColon s) := inferInstanceAs (Decidable (_ ∉ _))

structure Pair.Plain (p : Pair) : Prop where
  tenantID : NoColon p.tenantID
  messageID : NoColon p.messageID

/-- The parts of a key that another one follows have no colon, except a recipient. -/
def Key.Plain : Key → Prop
  | .event tenantID tsDesc id => NoColon tenantID ∧ colon ∉ tsDesc ∧ NoColon id
  | .eventID _ => True
  | .msgEvent p tsDesc id => p.Plain ∧ colon ∉ tsDesc ∧ NoColon id
  | .latestTs p => p.Plain
  | .latestEvent p tsDesc => p.Plain ∧ colon ∉ tsDesc

theorem NoColon.notMem {s : String} (plain : NoColon s) : colon ∉ utf8 s :=
  notMem_utf8 (c := ':') (by decide) plain rfl

theorem Key.family_plain (k : Key) : NoColon k.family := by
  cases k <;> simp only [Key.family] <;> decide

theorem Pair.Plain.ids_inj {p q : Pair} (plain : p.Plain) (plain' : q.Plain) {x y : Bytes}
    (same : utf8 p.tenantID ++ colon :: (utf8 p.messageID ++ colon :: x) =
      utf8 q.tenantID ++ colon :: (utf8 q.messageID ++ colon :: y)) :
    p.tenantID = q.tenantID ∧ p.messageID = q.messageID ∧ x = y := by
  obtain ⟨tenant, rest⟩ := Text.append_separator_inj plain.tenantID.notMem
    plain'.tenantID.notMem same
  obtain ⟨message, last⟩ := Text.append_separator_inj plain.messageID.notMem
    plain'.messageID.notMem rest
  exact ⟨utf8_injective tenant, utf8_injective message, last⟩

theorem Pair.ext_of {p q : Pair} (tenant : p.tenantID = q.tenantID)
    (message : p.messageID = q.messageID) (recipient : p.recipient = q.recipient) : p = q := by
  cases p
  cases q
  simp_all

theorem Key.bytes_inj {k l : Key} (plain : k.Plain) (plain' : l.Plain)
    (same : k.bytes = l.bytes) : k = l := by
  obtain ⟨family, parts⟩ := Text.append_separator_inj k.family_plain.notMem
    l.family_plain.notMem same
  replace family := utf8_injective family
  cases k with
  | event =>
    cases l with
    | event =>
      obtain ⟨tenant, rest⟩ := Text.append_separator_inj plain.1.notMem plain'.1.notMem parts
      obtain ⟨time, last⟩ := Text.append_separator_inj plain.2.1 plain'.2.1 rest
      rw [utf8_injective tenant, time, utf8_injective last]
    | _ => simp [Key.family] at family
  | eventID =>
    cases l with
    | eventID => rw [utf8_injective parts]
    | _ => simp [Key.family] at family
  | msgEvent =>
    cases l with
    | msgEvent =>
      obtain ⟨tenant, message, rest⟩ := plain.1.ids_inj plain'.1 parts
      -- the recipient may hold colons: what follows it is read from the end
      obtain ⟨front, last⟩ := append_separator_inj_right plain.2.2.notMem plain'.2.2.notMem rest
      obtain ⟨recipient, time⟩ := append_separator_inj_right plain.2.1 plain'.2.1 front
      rw [Pair.ext_of tenant message (utf8_injective recipient), time, utf8_injective last]
    | _ => simp [Key.family] at family
  | latestTs =>
    cases l with
    | latestTs =>
      obtain ⟨tenant, message, recipient⟩ := Pair.Plain.ids_inj plain plain' parts
      rw [Pair.ext_of tenant message (utf8_injective recipient)]
    | _ => simp [Key.family] at family
  | latestEvent =>
    cases l with
    | latestEvent =>
      obtain ⟨tenant, rest⟩ := Text.append_separator_inj plain.1.tenantID.notMem
        plain'.1.tenantID.notMem parts
      obtain ⟨time, rest⟩ := Text.append_separator_inj plain.2 plain'.2 rest
      obtain ⟨message, recipient⟩ := Text.append_separator_inj plain.1.messageID.notMem
        plain'.1.messageID.notMem rest
      rw [Pair.ext_of (utf8_injective tenant) (utf8_injective message)
        (utf8_injective recipient), time]
    | _ => simp [Key.family] at family

theorem Key.bytes_eq_iff {k l : Key} (plain : k.Plain) (plain' : l.Plain) :
    k.bytes = l.bytes ↔ k = l :=
  ⟨Key.bytes_inj plain plain', congrArg Key.bytes⟩

/-! ### The keys of an event -/

def tsDesc (e : EmailEvent) : Bytes := descendingTimestamp e.timestamp

def pairOf (e : EmailEvent) : Pair := ⟨e.tenantID, e.messageID, e.recipient⟩

def eventKey (e : EmailEvent) : Key := .event e.tenantID (tsDesc e) e.id

def idKey (e : EmailEvent) : Key := .eventID e.id

def msgEventKey (e : EmailEvent) : Key := .msgEvent (pairOf e) (tsDesc e) e.id

/-- An event whose ids have no colon, from the years that the keys can hold. -/
structure Keyable (e : EmailEvent) : Prop where
  tenantID : NoColon e.tenantID
  messageID : NoColon e.messageID
  id : NoColon e.id
  timestamp : Datable e.timestamp

instance (e : EmailEvent) : Decidable (Keyable e) :=
  decidable_of_iff (NoColon e.tenantID ∧ NoColon e.messageID ∧ NoColon e.id ∧ Datable e.timestamp)
    ⟨fun ⟨a, b, c, d⟩ => ⟨a, b, c, d⟩, fun ⟨a, b, c, d⟩ => ⟨a, b, c, d⟩⟩

section
variable {e : EmailEvent}

section
variable (keyable : Keyable e)
include keyable

theorem Keyable.tsDesc_plain : colon ∉ tsDesc e :=
  notMem_descendingTimestamp keyable.timestamp (by decide)

theorem Keyable.tsDesc_ne_nil : tsDesc e ≠ [] :=
  descendingTimestamp_ne_nil keyable.timestamp

theorem Keyable.pair_plain : (pairOf e).Plain :=
  ⟨keyable.tenantID, keyable.messageID⟩

theorem Keyable.eventKey_plain : (eventKey e).Plain :=
  ⟨keyable.tenantID, keyable.tsDesc_plain, keyable.id⟩

theorem Keyable.msgEventKey_plain : (msgEventKey e).Plain :=
  ⟨keyable.pair_plain, keyable.tsDesc_plain, keyable.id⟩

end

end
end Panmail.Events
