import Panmail.Lib.Bytes

/-!
# Base64 without padding, in the URL alphabet

Three bytes are written as four symbols of six bits each. A text that ends within a group of
three has two or three symbols there, and no padding. Reading skips line breaks and does not
look at the bits of the last symbol that no byte needs, so several texts read as the same bytes.
-/
namespace Base64

open ByteStrings List

def symbol (v : Nat) : Byte :=
  if v < 26 then Fin.ofNat 256 (65 + v)
  else if v < 52 then Fin.ofNat 256 (71 + v)
  else if v < 62 then Fin.ofNat 256 (v - 4)
  else if v = 62 then 45
  else 95

def sextet (b : Byte) : Option Nat :=
  if 65 ≤ b.val ∧ b.val ≤ 90 then some (b.val - 65)
  else if 97 ≤ b.val ∧ b.val ≤ 122 then some (b.val - 71)
  else if 48 ≤ b.val ∧ b.val ≤ 57 then some (b.val + 4)
  else if b = 45 then some 62
  else if b = 95 then some 63
  else none

def isLineBreak (b : Byte) : Bool := b = 10 || b = 13

/-- The groups of a text, as numbers below 64. -/
def sextets : Bytes → List Nat
  | a :: b :: c :: rest =>
    a.val / 4 :: (a.val % 4 * 16 + b.val / 16) :: (b.val % 16 * 4 + c.val / 64) :: c.val % 64 ::
      sextets rest
  | [a, b] => [a.val / 4, a.val % 4 * 16 + b.val / 16, b.val % 16 * 4]
  | [a] => [a.val / 4, a.val % 4 * 16]
  | [] => []

def byte (n : Nat) : Byte := Fin.ofNat 256 n

/-- The bytes of groups; one symbol alone in the last group is an error. -/
def ofSextets : List Nat → Option Bytes
  | a :: b :: c :: d :: rest => (ofSextets rest).map fun tail =>
    byte (a * 4 + b / 16) :: byte (b % 16 * 16 + c / 4) :: byte (c % 4 * 64 + d) :: tail
  | [a, b, c] => some [byte (a * 4 + b / 16), byte (b % 16 * 16 + c / 4)]
  | [a, b] => some [byte (a * 4 + b / 16)]
  | [_] => none
  | [] => some []

def encode (s : Bytes) : Bytes := (sextets s).map symbol

def decode (s : Bytes) : Option Bytes :=
  ((s.filter fun b => !isLineBreak b).mapM sextet).bind ofSextets

/-! ### What is written is read back -/

variable {v : Nat} {b : Byte}

theorem sextet_symbol (small : v < 64) : sextet (symbol v) = some v := by
  have all : ∀ v : Fin 64, sextet (symbol v) = some v.val := by decide
  exact all ⟨v, small⟩

theorem symbol_not_lineBreak (small : v < 64) : isLineBreak (symbol v) = false := by
  have all : ∀ v : Fin 64, isLineBreak (symbol v) = false := by decide
  exact all ⟨v, small⟩

theorem sextets_lt (s : Bytes) : ∀ v ∈ sextets s, v < 64 := by
  induction s using sextets.induct with
  | case1 a b c _ ih =>
    have := a.isLt
    have := b.isLt
    have := c.isLt
    simp only [sextets, mem_cons, forall_eq_or_imp]
    exact ⟨by omega, by omega, by omega, by omega, ih⟩
  | case2 a b =>
    have := a.isLt
    have := b.isLt
    simp only [sextets, mem_cons, forall_eq_or_imp, not_mem_nil, false_imp_iff,
      implies_true, and_true]
    exact ⟨by omega, by omega, by omega⟩
  | case3 a =>
    have := a.isLt
    simp only [sextets, mem_cons, forall_eq_or_imp, not_mem_nil, false_imp_iff,
      implies_true, and_true]
    exact ⟨by omega, by omega⟩
  | case4 => simp [sextets]

theorem byte_val (b : Byte) : byte b.val = b := by simp [byte]

theorem byte_eq {n : Nat} (same : n = b.val) : byte n = b := same ▸ byte_val b

theorem ofSextets_sextets (s : Bytes) : ofSextets (sextets s) = some s := by
  induction s using sextets.induct with
  | case1 a b c _ ih =>
    have := a.isLt
    have := b.isLt
    have := c.isLt
    have first : byte (a.val / 4 * 4 + (a.val % 4 * 16 + b.val / 16) / 16) = a :=
      byte_eq (by omega)
    have second : byte ((a.val % 4 * 16 + b.val / 16) % 16 * 16 +
        (b.val % 16 * 4 + c.val / 64) / 4) = b := byte_eq (by omega)
    have third : byte ((b.val % 16 * 4 + c.val / 64) % 4 * 64 + c.val % 64) = c :=
      byte_eq (by omega)
    simp only [sextets, ofSextets, ih, first, second, third, Option.map_some]
  | case2 a b =>
    have := b.isLt
    have first : byte (a.val / 4 * 4 + (a.val % 4 * 16 + b.val / 16) / 16) = a :=
      byte_eq (by omega)
    have second : byte ((a.val % 4 * 16 + b.val / 16) % 16 * 16 + b.val % 16 * 4 / 4) = b :=
      byte_eq (by omega)
    simp only [sextets, ofSextets, first, second]
  | case3 a =>
    have first : byte (a.val / 4 * 4 + a.val % 4 * 16 / 16) = a := byte_eq (by omega)
    simp only [sextets, ofSextets, first]
  | case4 => rfl

theorem mapM_sextet {vs : List Nat} (small : ∀ v ∈ vs, v < 64) :
    (vs.map symbol).mapM sextet = some vs := by
  induction vs with
  | nil => rfl
  | cons v _ ih =>
    rw [map_cons, mapM_cons, sextet_symbol (small v mem_cons_self),
      ih fun w mem => small w (mem_cons_of_mem v mem)]
    rfl

theorem decode_encode (s : Bytes) : decode (encode s) = some s := by
  have kept : (encode s).filter (fun b => !isLineBreak b) = encode s := by
    rw [filter_eq_self, encode]
    intro b mem
    obtain ⟨v, value, rfl⟩ := mem_map.mp mem
    simp [symbol_not_lineBreak (sextets_lt s v value)]
  rw [decode, kept, encode, mapM_sextet (sextets_lt s), Option.bind_some, ofSextets_sextets]

theorem sextet_of_mem_encode {s : Bytes} (mem : b ∈ encode s) : sextet b ≠ none := by
  obtain ⟨v, value, rfl⟩ := mem_map.mp mem
  rw [sextet_symbol (sextets_lt s v value)]
  exact Option.some_ne_none v

theorem encode_eq_nil_iff (s : Bytes) : encode s = [] ↔ s = [] := by
  rw [encode, map_eq_nil_iff]
  constructor
  · intro empty
    have back := ofSextets_sextets s
    rw [empty] at back
    exact (Option.some.inj back).symm
  · rintro rfl
    rfl

end Base64
