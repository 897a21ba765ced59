import Mathlib.Data.List.DropRight
import Mathlib.Data.List.Dedup

/-!
# Text

Trimming and lower-casing of Unicode text, and the de-duplicated list of normal
forms. Which code points are blank is a fixed list; which lower-case form a letter
has is a table of the Unicode standard, of which only the shape is used: lower-casing
twice is lower-casing once, and it neither makes nor destroys a blank.
-/
namespace Text

open List

/-- The code points with the Unicode property White_Space. -/
def isSpace (c : Char) : Bool :=
  (9 ≤ c.toNat && c.toNat ≤ 13) || c.toNat = 0x20 || c.toNat = 0x85 || c.toNat = 0xa0 ||
    c.toNat = 0x1680 || (0x2000 ≤ c.toNat && c.toNat ≤ 0x200a) || c.toNat = 0x2028 ||
    c.toNat = 0x2029 || c.toNat = 0x202f || c.toNat = 0x205f || c.toNat = 0x3000

/-- A case table: each code point's lower-case form. -/
structure CaseMapping where
  lower : Char → Char
  idempotent : ∀ c, lower (lower c) = lower c
  space : ∀ c, isSpace (lower c) = isSpace c

theorem toNat_toLower (c : Char) :
    c.toLower.toNat = if 65 ≤ c.toNat ∧ c.toNat ≤ 90 then c.toNat + 32 else c.toNat := by
  unfold Char.toLower
  split
  next upper =>
    have low : 65 ≤ c.toNat := UInt32.le_iff_toNat_le.mp upper.1
    have high : c.toNat ≤ 90 := UInt32.le_iff_toNat_le.mp upper.2
    rw [if_pos ⟨low, high⟩]
    have shift : ('a'.val - 'A'.val).toNat = 32 := by decide
    change (c.val + ('a'.val - 'A'.val)).toNat = c.val.toNat + 32
    rw [UInt32.toNat_add, shift]
    change c.val.toNat ≤ 90 at high
    omega
  next other =>
    rw [if_neg]
    rintro ⟨low, high⟩
    exact other ⟨UInt32.le_iff_toNat_le.mpr low, UInt32.le_iff_toNat_le.mpr high⟩

/-- The part of the table that covers ASCII. -/
def CaseMapping.ascii : CaseMapping where
  lower := Char.toLower
  idempotent := by
    intro c
    apply Char.ext
    apply UInt32.toNat_inj.mp
    change c.toLower.toLower.toNat = c.toLower.toNat
    rw [toNat_toLower c.toLower, toNat_toLower c]
    grind
  space := by
    intro c
    simp only [isSpace, toNat_toLower]
    grind

def trim (s : List Char) : List Char :=
  (s.dropWhile isSpace).rdropWhile isSpace

def trimSpace (s : String) : String := String.ofList (trim s.toList)

def CaseMapping.toLower (m : CaseMapping) (s : String) : String :=
  String.ofList (s.toList.map m.lower)

/-- The normal form of a word: no blanks around it, lower case. -/
def CaseMapping.normal (m : CaseMapping) (s : String) : String :=
  m.toLower (trimSpace s)

def contains (word : List Char) : List Char → Bool
  | [] => word.isEmpty
  | c :: s => word.isPrefixOf (c :: s) || contains word s

/-- The match of a SQL pattern: `%` stands for any text, `_` for any character, and a character
after a backslash for itself. -/
def like : List Char → List Char → Bool
  | [], s => s.isEmpty
  | '%' :: p, s => s.tails.any (like p)
  | '_' :: p, s =>
    match s with
    | [] => false
    | _ :: rest => like p rest
  | ['\\'], _ => false
  | '\\' :: c :: p, s =>
    match s with
    | [] => false
    | d :: rest => c = d && like p rest
  | c :: p, s =>
    match s with
    | [] => false
    | d :: rest => c = d && like p rest

/-- A text that a pattern takes as it is. -/
def Literal (word : List Char) : Prop := ∀ c ∈ word, c ≠ '%' ∧ c ≠ '_' ∧ c ≠ '\\'

variable {c : Char} {word : List Char} {m : CaseMapping}

theorem like_cons (plain : c ≠ '%' ∧ c ≠ '_' ∧ c ≠ '\\') (p s : List Char) :
    like (c :: p) s = (s.head?.any (c = ·) && like p s.tail) := by
  obtain ⟨percent, underscore, backslash⟩ := plain
  cases s <;> rw [like.eq_def] <;> split <;> simp_all

theorem like_start (literal : Literal word) (s : List Char) :
    like (word ++ ['%']) s = word.isPrefixOf s := by
  induction word generalizing s with
  | nil =>
    have last : [] ∈ s.tails := by
      induction s with
      | nil => simp
      | cons _ _ more => simp [more]
    simp only [nil_append, like, List.isPrefixOf, any_eq_true]
    exact ⟨[], last, rfl⟩
  | cons c _ ih =>
    have plain := literal c mem_cons_self
    have rest := ih fun x mem => literal x (mem_cons_of_mem _ mem)
    rw [cons_append, like_cons plain, rest]
    cases s <;> rfl

theorem like_around (literal : Literal word) (s : List Char) :
    like ('%' :: (word ++ ['%'])) s = contains word s := by
  rw [like]
  induction s with
  | nil =>
    rw [List.tails, any_cons, like_start literal]
    cases word <;> rfl
  | cons _ _ ih => rw [List.tails, any_cons, like_start literal, ih, contains]

/-! ### Normal forms -/

theorem dropWhile_of_prefix {p : Char → Bool} {l s : List Char}
    (start : l <+: s.dropWhile p) : l.dropWhile p = l := by
  cases l with
  | nil => rfl
  | cons =>
    obtain ⟨rest, whole⟩ := start
    have first := head?_dropWhile_not p s
    rw [← whole, cons_append, head?_cons] at first
    simp only [dropWhile_cons, first, Bool.false_eq_true, if_false]

theorem trim_trim (s : List Char) : trim (trim s) = trim s := by
  have left : (trim s).dropWhile isSpace = trim s :=
    dropWhile_of_prefix (List.rdropWhile_prefix isSpace (s.dropWhile isSpace))
  have both : trim (trim s) = ((trim s).dropWhile isSpace).rdropWhile isSpace := rfl
  rw [both, left, trim, rdropWhile_idempotent]

theorem trim_map (m : CaseMapping) (s : List Char) : trim (s.map m.lower) = (trim s).map m.lower := by
  have same : (fun c => isSpace (m.lower c)) = isSpace := funext m.space
  have left (l : List Char) : (l.map m.lower).dropWhile isSpace = (l.dropWhile isSpace).map m.lower := by
    rw [dropWhile_map]
    exact congrArg (fun p => (l.dropWhile p).map m.lower) same
  rw [trim, trim, left, List.rdropWhile, List.rdropWhile, ← map_reverse, left, map_reverse]

theorem map_lower (m : CaseMapping) (s : List Char) : (s.map m.lower).map m.lower = s.map m.lower := by
  rw [map_map]
  exact map_congr_left fun c _ => m.idempotent c

open CaseMapping

@[simp] theorem normal_normal (m : CaseMapping) (s : String) : m.normal (m.normal s) = m.normal s := by
  simp only [normal, toLower, trimSpace, String.toList_ofList]
  rw [trim_map, trim_trim, map_lower]

@[simp] theorem normal_eq_empty {s : String} : m.normal s = "" ↔ trimSpace s = "" := by
  rw [normal, toLower, ← String.toList_eq_nil_iff, String.toList_ofList,
    map_eq_nil_iff, String.toList_eq_nil_iff]

/-! ### The distinct normal forms of a list of words -/

/-- Each word's normal form once, in order, the blank words left out. -/
def uniqueNormal (m : CaseMapping) (seen : List String) : List String → List String
  | [] => []
  | s :: rest =>
    let word := m.normal s
    if word = "" ∨ word ∈ seen then uniqueNormal m seen rest
    else word :: uniqueNormal m (word :: seen) rest

theorem mem_uniqueNormal (m : CaseMapping) (words : List String) (seen : List String)
    (word : String) : word ∈ uniqueNormal m seen words ↔
      word ≠ "" ∧ word ∉ seen ∧ ∃ s ∈ words, m.normal s = word := by
  induction words generalizing seen with
  | nil => simp [uniqueNormal]
  | cons s _ ih =>
    simp only [uniqueNormal]
    split
    next skipped =>
      rw [ih]
      constructor
      · rintro ⟨nonempty, fresh, t, listed, same⟩
        exact ⟨nonempty, fresh, t, mem_cons_of_mem _ listed, same⟩
      · rintro ⟨nonempty, fresh, t, listed, same⟩
        rcases mem_cons.mp listed with rfl | listed
        · rw [same] at skipped
          exact (skipped.elim nonempty fresh).elim
        · exact ⟨nonempty, fresh, t, listed, same⟩
    next kept =>
      obtain ⟨nonempty, fresh⟩ := not_or.mp kept
      rw [mem_cons, ih, mem_cons, not_or]
      constructor
      · rintro (rfl | ⟨named, ⟨_, unseen⟩, t, listed, same⟩)
        · exact ⟨nonempty, fresh, s, mem_cons_self, rfl⟩
        · exact ⟨named, unseen, t, mem_cons_of_mem _ listed, same⟩
      · rintro ⟨named, unseen, t, listed, same⟩
        by_cases head : word = m.normal s
        · exact .inl head
        · refine .inr ⟨named, ⟨head, unseen⟩, t, ?_, same⟩
          rcases mem_cons.mp listed with rfl | listed
          · exact absurd same.symm head
          · exact listed

theorem nodup_uniqueNormal (m : CaseMapping) (words : List String) (seen : List String) :
    (uniqueNormal m seen words).Nodup := by
  induction words generalizing seen with
  | nil => exact nodup_nil
  | cons _ rest ih =>
    simp only [uniqueNormal]
    split
    · exact ih seen
    · refine nodup_cons.mpr ⟨fun later => ?_, ih _⟩
      obtain ⟨_, fresh, _⟩ := (mem_uniqueNormal m rest _ _).mp later
      exact fresh mem_cons_self

theorem normal_of_mem_uniqueNormal {words seen : List String} {word : String}
    (mem : word ∈ uniqueNormal m seen words) : m.normal word = word := by
  obtain ⟨_, _, s, _, rfl⟩ := (mem_uniqueNormal m words seen word).mp mem
  exact normal_normal m s

theorem uniqueNormal_self {words seen : List String} (once : words.Nodup)
    (kept : ∀ w ∈ words, m.normal w = w ∧ w ≠ "" ∧ w ∉ seen) :
    uniqueNormal m seen words = words := by
  induction words generalizing seen with
  | nil => rfl
  | cons w _ ih =>
    obtain ⟨normal, named, fresh⟩ := kept w mem_cons_self
    obtain ⟨first, once⟩ := nodup_cons.mp once
    simp only [uniqueNormal, normal, named, fresh, or_self, if_false, List.cons.injEq, true_and]
    refine ih once fun v later => ?_
    obtain ⟨normal, named, fresh⟩ := kept v (mem_cons_of_mem _ later)
    have other : v ≠ w := fun same => first (same ▸ later)
    exact ⟨normal, named, by simp [other, fresh]⟩

/-! ### Joined texts -/

theorem append_separator_inj {α : Type*} {sep : α} {a b x y : List α} (left : sep ∉ a)
    (right : sep ∉ b) (same : a ++ sep :: x = b ++ sep :: y) : a = b ∧ x = y := by
  induction a generalizing b with
  | nil =>
    cases b with
    | nil =>
      cases same
      exact ⟨rfl, rfl⟩
    | cons =>
      cases same
      exact absurd mem_cons_self right
  | cons _ _ ih =>
    cases b with
    | nil =>
      cases same
      exact absurd mem_cons_self left
    | cons =>
      simp only [cons_append, List.cons.injEq] at same
      simp only [mem_cons, not_or] at left right
      obtain ⟨rfl, rfl⟩ := ih left.2 right.2 same.2
      exact ⟨by rw [same.1], rfl⟩

end Text
