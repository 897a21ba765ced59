import Mathlib.Data.List.Lex
import Mathlib.Data.List.Basic
import Mathlib.Order.Fin.Basic
import Mathlib.Tactic.Ring
import Panmail.Lib.Text

/-!
# Texts and numbers as byte strings

Byte strings are compared byte by byte, as an ordered store compares its keys. A text is
written in UTF-8, where a byte below 128 only ever stands for itself and the bytes from 248 on
do not occur. A number is written in decimal; padded with zeros to a fixed width, numbers sort
as they count.
-/
namespace ByteStrings

open List Nat String UInt8

abbrev Byte := Fin 256

instance byte_neZero : NeZero 256 := ⟨by decide⟩

abbrev Bytes := List Byte

/-! ### Texts -/

def utf8 (s : String) : Bytes := (s.toList.flatMap String.utf8EncodeChar).map UInt8.toFin

variable {s t : String} {c : Char} {b : Byte} {α : Type*}

theorem utf8_injective (same : utf8 s = utf8 t) : s = t := by
  have bytes : s.toList.flatMap utf8EncodeChar = t.toList.flatMap utf8EncodeChar :=
    map_injective_iff.mpr (fun _ _ => UInt8.toFin_inj.mp) same
  apply String.toByteArray_inj.mp
  rw [← String.utf8Encode_toList, ← String.utf8Encode_toList, List.utf8Encode, List.utf8Encode,
    bytes]

@[simp] theorem utf8_inj : utf8 s = utf8 t ↔ s = t :=
  ⟨utf8_injective, congrArg utf8⟩

/-- A byte of a character is the character's own code, or one of those that do not stand
alone. -/
theorem mem_utf8EncodeChar {b : UInt8} (mem : b ∈ utf8EncodeChar c) :
    (b.toNat = c.toNat ∧ b.toNat < 128) ∨ (128 ≤ b.toNat ∧ b.toNat < 248) := by
  have code : c.val.toNat = c.toNat := rfl
  simp only [utf8EncodeChar] at mem
  -- one case for each length of an encoding
  split at mem
  · simp only [mem_singleton] at mem
    subst mem
    simp only [toNat_ofNat']
    omega
  · right
    split at mem
    · simp only [mem_cons, not_mem_nil, or_false] at mem
      rcases mem with rfl | rfl <;> simp only [toNat_ofNat'] <;> omega
    · split at mem
      · simp only [mem_cons, not_mem_nil, or_false] at mem
        rcases mem with rfl | rfl | rfl <;> simp only [toNat_ofNat'] <;> omega
      · simp only [mem_cons, not_mem_nil, or_false] at mem
        rcases mem with rfl | rfl | rfl | rfl <;> simp only [toNat_ofNat'] <;> omega

theorem mem_utf8 (mem : b ∈ utf8 s) :
    (b.val < 128 ∧ ∃ c ∈ s.toList, b.val = c.toNat) ∨ (128 ≤ b.val ∧ b.val < 248) := by
  obtain ⟨raw, at_, rfl⟩ := mem_map.mp mem
  obtain ⟨c, inside, of⟩ := mem_flatMap.mp at_
  rcases mem_utf8EncodeChar of with ⟨own, low⟩ | other
  · exact .inl ⟨low, c, inside, own⟩
  · exact .inr other

theorem notMem_utf8 (ascii : c.toNat < 128) (missing : c ∉ s.toList) (code : b.val = c.toNat) :
    b ∉ utf8 s := by
  intro mem
  rcases mem_utf8 mem with ⟨_, d, inside, own⟩ | other
  · have same : d = c := Char.toNat_inj.mp (own.symm.trans code)
    exact missing (same ▸ inside)
  · omega

theorem top_notMem_utf8 (s : String) : (255 : Byte) ∉ utf8 s := by
  intro mem
  have top : (255 : Byte).val = 255 := rfl
  rcases mem_utf8 mem with own | other
  · omega
  · omega

def ofAscii (s : Bytes) : String := String.ofList (s.map fun b => Char.ofNat b.val)

theorem utf8EncodeChar_byte (ascii : b.val < 128) :
    utf8EncodeChar (Char.ofNat b.val) = [ofNat b.val] := by
  have all : ∀ b : Fin 128, utf8EncodeChar (Char.ofNat b.val) = [ofNat b.val] := by
    decide
  exact all ⟨b.val, ascii⟩

theorem utf8_ofAscii {s : Bytes} (ascii : ∀ b ∈ s, b.val < 128) : utf8 (ofAscii s) = s := by
  unfold utf8 ofAscii
  rw [toList_ofList]
  induction s with
  | nil => rfl
  | cons b _ ih =>
    rw [map_cons, flatMap_cons, utf8EncodeChar_byte (ascii b mem_cons_self),
      singleton_append, map_cons,
      ih fun b mem => ascii b (mem_cons_of_mem _ mem)]
    congr 1
    apply Fin.ext
    simp [toFin]

/-! ### Joined texts -/

/-- A separator that does not occur in the last part tells where that part starts. -/
theorem append_separator_inj_right {sep : α} {a b x y : List α} (left : sep ∉ x) (right : sep ∉ y)
    (same : a ++ sep :: x = b ++ sep :: y) : a = b ∧ x = y := by
  have mirrored : x.reverse ++ sep :: a.reverse = y.reverse ++ sep :: b.reverse := by
    simpa using congrArg List.reverse same
  obtain ⟨ends, starts⟩ := Text.append_separator_inj (by simpa using left) (by simpa using right)
    mirrored
  exact ⟨reverse_injective starts, reverse_injective ends⟩

theorem append_lt_append [LinearOrder α] {xs ys us vs : List α} (lengths : xs.length = ys.length) :
    xs ++ us < ys ++ vs ↔ xs < ys ∨ (xs = ys ∧ us < vs) := by
  induction xs generalizing ys with
  | nil =>
    cases ys with
    | nil => simp
    | cons => cases lengths
  | cons _ _ ih =>
    cases ys with
    | nil => cases lengths
    | cons =>
      have tails := ih (succ.inj lengths)
      simp only [cons_append, cons_lt_cons_iff, tails, List.cons.injEq]
      tauto

theorem append_lt_append_left [LinearOrder α] {xs us vs : List α} :
    xs ++ us < xs ++ vs ↔ us < vs := by
  rw [append_lt_append rfl]
  simp

/-- What lies between two strings with a common start has that start. -/
theorem start_of_between [LinearOrder α] {xs us vs k : List α} (low : xs ++ us ≤ k)
    (high : k < xs ++ vs) : ∃ rest, k = xs ++ rest := by
  induction xs generalizing k with
  | nil => exact ⟨k, rfl⟩
  | cons x rest ih =>
    cases k with
    | nil => exact absurd low (by simp)
    | cons b others =>
      rw [cons_append, ← not_lt, cons_lt_cons_iff, not_or] at low
      rw [cons_append, cons_lt_cons_iff] at high
      have same : b = x := by
        rcases high with less | ⟨same, _⟩
        · exact absurd less low.1
        · exact same
      subst same
      have upper : others < rest ++ vs := by
        rcases high with less | ⟨_, upper⟩
        · exact absurd less (lt_irrefl b)
        · exact upper
      obtain ⟨tail, rfl⟩ := ih (not_lt.mp fun less => low.2 ⟨rfl, less⟩) upper
      exact ⟨tail, rfl⟩

/-! ### Numbers -/

def minus : Byte := 45

def plus : Byte := 43

def digit (d : Nat) : Byte := Fin.ofNat 256 (48 + d)

def decimal (n : Nat) : Bytes := (Nat.toDigits 10 n).map fun c => Fin.ofNat 256 c.toNat

/-- Pad with zeros at the front up to a width. -/
def zeroPad (width : Nat) (s : Bytes) : Bytes := List.replicate (width - s.length) (digit 0) ++ s

def formatInt (n : Int) : Bytes := if n < 0 then minus :: decimal n.natAbs else decimal n.natAbs

/-- The decimal form padded with zeros after the sign, as `%0*d` prints it. -/
def formatPadded (width : Nat) (n : Int) : Bytes :=
  if n < 0 then minus :: zeroPad (width - 1) (decimal n.natAbs) else zeroPad width (decimal n.natAbs)

def fixed : Nat → Nat → Bytes
  | 0, _ => []
  | width + 1, n => fixed width (n / 10) ++ [digit (n % 10)]

def isDigit (b : Byte) : Bool := 48 ≤ b.val && b.val ≤ 57

def value (s : Bytes) : Nat := s.foldl (fun n b => 10 * n + (b.val - 48)) 0

/-- `ParseInt` to 64 bits with its error ignored: a number out of range becomes the nearest in
range, anything else 0. -/
def parseInt64 (s : Bytes) : Int :=
  let unsigned (rest : Bytes) : Option Nat :=
    if rest ≠ [] ∧ rest.all isDigit then some (value rest) else none
  match s with
  | [] => 0
  | b :: rest =>
    if b = minus then
      match unsigned rest with
      | some n => -(min n (2 ^ 63) : Nat)
      | none => 0
    else
      match unsigned (if b = plus then rest else s) with
      | some n => (min n (2 ^ 63 - 1) : Nat)
      | none => 0

theorem append_lt_top {s : Bytes} (present : s ≠ []) (free : (255 : Byte) ∉ s) (rest : Bytes) :
    s ++ rest < [255] := by
  cases s with
  | nil => exact absurd rfl present
  | cons b =>
    have below : b < 255 := by
      have different : b ≠ 255 := fun same => free (same ▸ mem_cons_self)
      exact lt_of_le_of_ne (Fin.le_last b) different
    exact cons_lt_cons_iff.mpr (.inl below)

theorem lt_top {s : Bytes} (free : (255 : Byte) ∉ s) : s < [255] := by
  cases s with
  | nil => exact nil_lt_cons ..
  | cons => simpa using append_lt_top (by simp) free []

theorem formatPadded_of_nonneg {width : Nat} {n : Int} (nonneg : 0 ≤ n) :
    formatPadded width n = zeroPad width (formatInt n) := by
  have positive : ¬ n < 0 := by omega
  rw [formatPadded, formatInt, if_neg positive, if_neg positive]

section
variable {width n m : Nat}

@[simp] theorem length_fixed (width n : Nat) : (fixed width n).length = width := by
  induction width generalizing n with
  | zero => rfl
  | succ _ ih => simp [fixed, ih]

theorem isDigit_fixed (mem : b ∈ fixed width n) : isDigit b = true := by
  induction width generalizing n with
  | zero => cases mem
  | succ _ ih =>
    rcases mem_append.mp mem with front | last
    · exact ih front
    · rw [mem_singleton.mp last]
      have range : n % 10 < 10 := mod_lt n (by decide)
      have code : (digit (n % 10)).val = 48 + n % 10 := mod_eq_of_lt (by omega)
      simp only [isDigit, code, Bool.and_eq_true, decide_eq_true_eq]
      omega

theorem digit_lt_digit (left : n < 10) (right : m < 10) : digit n < digit m ↔ n < m := by
  have low : (digit n).val = 48 + n := mod_eq_of_lt (by omega)
  have high : (digit m).val = 48 + m := mod_eq_of_lt (by omega)
  rw [Fin.lt_def, low, high]
  omega

theorem fixed_lt_fixed (left : n < 10 ^ width) (right : m < 10 ^ width) :
    fixed width n < fixed width m ↔ n < m := by
  induction width generalizing n m with
  | zero =>
    simp only [pow_zero, lt_one_iff] at left right
    simp [left, right, fixed]
  | succ width ih =>
    have strict {a b : Nat} (below : a < 10 ^ (width + 1)) (above : b < 10 ^ (width + 1)) :=
      @ih (a / 10) (b / 10) (by omega) (by omega)
    have same : fixed width (n / 10) = fixed width (m / 10) ↔ n / 10 = m / 10 := by
      constructor
      · intro equal
        have one := (strict left right).not.mp (by simp [equal])
        have other := (strict right left).not.mp (by simp [equal])
        omega
      · exact congrArg _
    have last : [digit (n % 10)] < [digit (m % 10)] ↔ n % 10 < m % 10 := by
      rw [cons_lt_cons_iff,
        digit_lt_digit (mod_lt _ (by decide)) (mod_lt _ (by decide))]
      simp
    rw [fixed, fixed, append_lt_append (by simp), strict left right, same, last]
    omega

theorem fixed_inj (left : n < 10 ^ width) (right : m < 10 ^ width)
    (same : fixed width n = fixed width m) : n = m := by
  have one := (fixed_lt_fixed left right).not.mp (by simp [same])
  have other := (fixed_lt_fixed right left).not.mp (by simp [same])
  omega

theorem value_concat (s : Bytes) (b : Byte) : value (s ++ [b]) = 10 * value s + (b.val - 48) := by
  simp [value]

theorem value_fixed (range : n < 10 ^ width) : value (fixed width n) = n := by
  induction width generalizing n with
  | zero =>
    simp only [pow_zero, lt_one_iff] at range
    rw [range]
    rfl
  | succ _ ih =>
    have code : (digit (n % 10)).val = 48 + n % 10 := mod_eq_of_lt (by omega)
    rw [fixed, value_concat, ih (by omega), code]
    omega

theorem zeroPad_concat (s : Bytes) (b : Byte) :
    zeroPad (width + 1) (s ++ [b]) = zeroPad width s ++ [b] := by simp [zeroPad]

theorem byte_digitChar (low : n < 10) : Fin.ofNat 256 n.digitChar.toNat = digit n := by
  rw [toNat_digitChar_of_lt_ten low, digit]

theorem decimal_of_lt (low : n < 10) : decimal n = [digit n] := by
  rw [decimal, toDigits_of_lt_base low, map_singleton, byte_digitChar low]

theorem decimal_of_le (high : 10 ≤ n) : decimal n = decimal (n / 10) ++ [digit (n % 10)] := by
  rw [decimal, toDigits_of_base_le (by decide) high, map_append, map_singleton,
    byte_digitChar (mod_lt n (by decide)), decimal]

theorem zeroPad_decimal (range : n < 10 ^ (width + 1)) :
    zeroPad (width + 1) (decimal n) = fixed (width + 1) n := by
  induction width generalizing n with
  | zero =>
    have low : n < 10 := by simpa using range
    rw [decimal_of_lt low, fixed, mod_eq_of_lt low]
    rfl
  | succ width ih =>
    by_cases low : n < 10
    · -- a single digit, after zeros: the digits of the quotient 0
      have zeros : zeroPad (width + 1) [] = fixed (width + 1) 0 := by
        rw [← ih (Nat.pow_pos (by decide)), decimal_of_lt (by decide)]
        simp [zeroPad, replicate_succ']
      calc zeroPad (width + 2) (decimal n)
          = zeroPad (width + 1) [] ++ [digit n] := by
            rw [decimal_of_lt low, ← nil_append [digit n], zeroPad_concat, nil_append]
        _ = fixed (width + 1) (n / 10) ++ [digit (n % 10)] := by
            rw [zeros, div_eq_of_lt low, mod_eq_of_lt low]
    · calc zeroPad (width + 2) (decimal n)
          = zeroPad (width + 1) (decimal (n / 10)) ++ [digit (n % 10)] := by
            rw [decimal_of_le (Nat.le_of_not_lt low), zeroPad_concat]
        _ = fixed (width + 1) (n / 10) ++ [digit (n % 10)] := by rw [ih (by omega)]

theorem parseInt64_fixed (range : n < 10 ^ (width + 1)) (bits : n < 2 ^ 63) :
    parseInt64 (fixed (width + 1) n) = n := by
  have all : (fixed (width + 1) n).all isDigit = true :=
    all_eq_true.mpr fun b mem => isDigit_fixed mem
  have read := value_fixed range
  cases form : fixed (width + 1) n with
  | nil =>
    have short := congrArg List.length form
    simp at short
  | cons b =>
    have first : isDigit b = true := isDigit_fixed (form ▸ mem_cons_self)
    simp only [isDigit, Bool.and_eq_true, decide_eq_true_eq] at first
    have unsigned : b ≠ minus := by
      rintro rfl
      exact absurd first.1 (by decide)
    have bare : b ≠ plus := by
      rintro rfl
      exact absurd first.1 (by decide)
    rw [form] at all read
    simp only [parseInt64, unsigned, bare, if_false, all, ne_eq, reduceCtorEq, not_false_eq_true,
      and_self, if_true, read]
    have least : min n (2 ^ 63 - 1) = n := by omega
    rw [least]

end

/-! ### Little-endian numbers -/

/-- The lowest `width` bytes of a number, the lowest first. -/
def littleEndian : Nat → Nat → Bytes
  | 0, _ => []
  | width + 1, n => Fin.ofNat 256 n :: littleEndian width (n / 256)

def fromLittleEndian : Bytes → Nat
  | [] => 0
  | b :: rest => b.val + 256 * fromLittleEndian rest

@[simp] theorem length_littleEndian (width n : Nat) : (littleEndian width n).length = width := by
  induction width generalizing n with
  | zero => rfl
  | succ _ ih => simp [littleEndian, ih]

theorem fromLittleEndian_littleEndian (width n : Nat) :
    fromLittleEndian (littleEndian width n) = n % 256 ^ width := by
  induction width generalizing n with
  | zero => simp [littleEndian, fromLittleEndian, mod_one]
  | succ width ih =>
    have low : (Fin.ofNat 256 n).val = n % 256 := rfl
    rw [littleEndian, fromLittleEndian, ih, low, pow_succ, mul_comm (256 ^ width) 256,
      mod_mul]

end ByteStrings
