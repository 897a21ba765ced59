import Panmail.Lib.Bytes

/-!
# The keyring

Stored credentials are sealed with one key, the primary, and can be opened with several. A sealed
value names the key that made it by a fingerprint of four bytes, so the keys of a keyring are told
apart only as far as their fingerprints are different.
-/
namespace Panmail.Secrets

open ByteStrings Text List

/-- AES-GCM and the keys it takes. -/
structure Cipher where
  Key : Type
  keyEq : DecidableEq Key
  /-- `newEntry`: the hex of 32 bytes. -/
  parse : String → Option Key
  parse_blank : ∀ h, trimSpace h = "" → parse h = none
  /-- `keyID`, the fingerprint. -/
  keyID : Key → String
  named : ∀ k, keyID k ≠ ""
  seal_ : Key → Bytes → String → Bytes
  open_ : Key → Bytes → Option String
  correct : ∀ k nonce text, open_ k (seal_ k nonce text) = some text

instance (C : Cipher) : DecidableEq C.Key := C.keyEq

/-- A stored value, as its prefix tells. A value of the first format names no key. -/
inductive Stored where
  | unset
  | plain (text : String)
  | sealed (id : String) (payload : Bytes)
  | malformed
  deriving DecidableEq

/-- The value names its key, or what one key opens of it no other does. -/
def Stored.Told (C : Cipher) : Stored → Prop
  | .sealed id x => id = "" → ∀ k l p q, C.open_ k x = some p → C.open_ l x = some q → k = l
  | _ => True

structure Keyring (C : Cipher) where
  primary : C.Key
  /-- Kept for reading only. -/
  retired : List C.Key
  deriving DecidableEq

section
variable {C : Cipher}

def Keyring.keys (r : Keyring C) : List C.Key := r.primary :: r.retired

/-- The keys of a list of texts; blank ones are skipped. -/
def parseKeys (C : Cipher) : List String → Option (List C.Key)
  | [] => some []
  | h :: rest =>
    if trimSpace h = "" then parseKeys C rest
    else
      match C.parse h with
      | none => none
      | some k => (parseKeys C rest).map (k :: ·)

/-- `NewKeyring`. A retired key with the fingerprint of the primary is taken for the primary. -/
def newKeyring (C : Cipher) (primaryHex : String) (retiredHex : List String) : Option (Keyring C) :=
  match C.parse primaryHex with
  | none => none
  | some primary => (parseKeys C retiredHex).map fun retired =>
      ⟨primary, retired.filter fun k => C.keyID k ≠ C.keyID primary⟩

/-- `entryFor`: the first key with the fingerprint. -/
def Keyring.entryFor (r : Keyring C) (id : String) : Option C.Key :=
  r.keys.find? fun k => C.keyID k = id

def Keyring.encrypt (r : Keyring C) (nonce : Bytes) (text : String) : Stored :=
  if text = "" then .unset else .sealed (C.keyID r.primary) (C.seal_ r.primary nonce text)

def Keyring.decrypt (r : Keyring C) : Stored → Option String
  | .unset => some ""
  | .plain text => some text
  | .malformed => none
  | .sealed id payload =>
    -- a value that names no key is tried with every one
    if id = "" then r.keys.findSome? fun k => C.open_ k payload
    else (r.entryFor id).bind fun k => C.open_ k payload

def Keyring.needsRotation (r : Keyring C) : Stored → Bool
  | .sealed id _ => id ≠ C.keyID r.primary
  | _ => false

def Distinct (keys : List C.Key) : Prop :=
  ∀ k ∈ keys, ∀ l ∈ keys, C.keyID k = C.keyID l → k = l

instance (keys : List C.Key) : Decidable (Distinct keys) :=
  inferInstanceAs (Decidable (∀ k ∈ keys, ∀ l ∈ keys, _))

theorem Distinct.mono {keys more : List C.Key} (distinct : Distinct more) (sub : keys ⊆ more) :
    Distinct keys := fun k first l second => distinct k (sub first) l (sub second)

/-! ### Reading -/

variable {r : Keyring C} {id : String} {k : C.Key}

theorem Keyring.entryFor_iff (distinct : Distinct r.keys) :
    r.entryFor id = some k ↔ k ∈ r.keys ∧ C.keyID k = id := by
  constructor
  · intro found
    exact ⟨mem_of_find?_eq_some found, by simpa using find?_some found⟩
  · rintro ⟨mem, rfl⟩
    cases found : r.entryFor (C.keyID k) with
    | none =>
      have absent := find?_eq_none.mp found k mem
      simp at absent
    | some l =>
      have same : C.keyID l = C.keyID k := by simpa using find?_some found
      exact congrArg some (distinct l (mem_of_find?_eq_some found) k mem same)

variable {payload : Bytes} {text : String} {v : Stored} {other : Keyring C}

theorem tried_iff (told : (Stored.sealed "" payload).Told C) {keys : List C.Key} :
    (keys.findSome? fun k => C.open_ k payload) = some text ↔
      ∃ k ∈ keys, C.open_ k payload = some text := by
  constructor
  · exact exists_of_findSome?_eq_some
  · rintro ⟨k, mem, opened⟩
    induction keys with
    | nil => cases mem
    | cons l _ ih =>
      rw [findSome?_cons]
      cases first : C.open_ l payload with
      | some =>
        -- only one key opens a payload
        cases told rfl _ _ _ _ first opened
        exact first.symm.trans opened
      | none =>
        rcases mem_cons.mp mem with rfl | later
        · rw [first] at opened
          cases opened
        · exact ih later

theorem Keyring.decrypt_sealed (told : (Stored.sealed id payload).Told C)
    (distinct : Distinct r.keys) : r.decrypt (.sealed id payload) = some text ↔
      ∃ k ∈ r.keys, (id = "" ∨ C.keyID k = id) ∧ C.open_ k payload = some text := by
  by_cases unnamed : id = ""
  · subst unnamed
    simp [Keyring.decrypt, tried_iff told]
  · simp only [Keyring.decrypt, unnamed, if_false, Option.bind_eq_some_iff,
      Keyring.entryFor_iff distinct, false_or, and_assoc]

theorem Keyring.decrypt_mono {more : Keyring C} (told : v.Told C) (sub : r.keys ⊆ more.keys)
    (distinct : Distinct more.keys) (read : r.decrypt v = some text) :
    more.decrypt v = some text := by
  cases v with
  | unset | plain | malformed => exact read
  | sealed =>
    obtain ⟨k, mem, fits, opened⟩ := (Keyring.decrypt_sealed told (distinct.mono sub)).mp read
    exact (Keyring.decrypt_sealed told distinct).mpr ⟨k, sub mem, fits, opened⟩

theorem Keyring.told_of_current (current : r.needsRotation v = false) : v.Told C := by
  cases v with
  | unset | plain | malformed => trivial
  | sealed id =>
    have id_ : id = C.keyID r.primary := by simpa [Keyring.needsRotation] using current
    exact fun unnamed => absurd (id_.symm.trans unnamed) (C.named _)

theorem Keyring.decrypt_current (same : other.primary = r.primary)
    (current : r.needsRotation v = false) (read : r.decrypt v = some text) :
    other.decrypt v = some text := by
  cases v with
  | unset | plain | malformed => exact read
  | sealed id payload =>
    have id_ : id = C.keyID r.primary := by simpa [Keyring.needsRotation] using current
    have first (s : Keyring C) (primary : s.primary = r.primary) :
        s.decrypt (.sealed id payload) = C.open_ r.primary payload := by
      simp [Keyring.decrypt, id_, C.named, Keyring.entryFor, Keyring.keys, primary]
    rw [first other same, ← first r rfl, read]

/-! ### Writing -/

@[simp] theorem Keyring.decrypt_encrypt (r : Keyring C) (nonce : Bytes) (text : String) :
    r.decrypt (r.encrypt nonce text) = some text := by
  unfold Keyring.encrypt
  split
  next empty => simp [empty, Keyring.decrypt]
  next => simp [Keyring.decrypt, C.named, Keyring.entryFor, Keyring.keys, C.correct]

@[simp] theorem Keyring.needsRotation_encrypt (r : Keyring C) (nonce : Bytes) (text : String) :
    r.needsRotation (r.encrypt nonce text) = false := by
  unfold Keyring.encrypt
  split <;> simp [Keyring.needsRotation]

theorem Keyring.needsRotation_congr (same : other.primary = r.primary) (v : Stored) :
    other.needsRotation v = r.needsRotation v := by
  cases v <;> simp [Keyring.needsRotation, same]

/-! ### Building -/

theorem parseKeys_append {xs ys : List String} {ks : List C.Key} :
    parseKeys C (xs ++ ys) = some ks ↔
      ∃ left right, parseKeys C xs = some left ∧ parseKeys C ys = some right ∧ ks = left ++ right := by
  induction xs generalizing ks with
  | nil => simp [parseKeys]
  | cons h _ ih =>
    rw [cons_append, parseKeys, parseKeys]
    split
    · exact ih
    · cases C.parse h with
      | none => simp
      | some k =>
        simp only [Option.map_eq_some_iff, ih]
        constructor
        · rintro ⟨_, ⟨left, right, first, second, rfl⟩, rfl⟩
          exact ⟨k :: left, right, ⟨left, first, rfl⟩, second, rfl⟩
        · rintro ⟨_, right, ⟨left, first, rfl⟩, second, rfl⟩
          exact ⟨left ++ right, ⟨left, right, first, second, rfl⟩, rfl⟩

/-- A keyring that is built has the primary key it names, and of the retired ones those with a
fingerprint of their own. -/
theorem newKeyring_some {primaryHex : String} {retiredHex : List String}
    (built : newKeyring C primaryHex retiredHex = some r) :
    ∃ retired, C.parse primaryHex = some r.primary ∧ parseKeys C retiredHex = some retired ∧
      r.retired = retired.filter fun k => C.keyID k ≠ C.keyID r.primary := by
  unfold newKeyring at built
  split at built
  · cases built
  next primary parsed =>
    obtain ⟨retired, all, rfl⟩ := Option.map_eq_some_iff.mp built
    exact ⟨retired, parsed, all, rfl⟩

/-- Where the fingerprints tell the keys apart, no key is left out. -/
theorem mem_keys_of_built {primary : C.Key} {retired : List C.Key}
    (distinct : Distinct (primary :: retired)) (first : r.primary = primary)
    (rest : r.retired = retired.filter fun k => C.keyID k ≠ C.keyID r.primary) :
    k ∈ r.keys ↔ k ∈ primary :: retired := by
  subst first
  rw [Keyring.keys, rest, mem_cons, mem_cons, mem_filter]
  constructor
  · exact fun either => either.imp_right And.left
  · rintro (rfl | mem)
    · exact .inl rfl
    · by_cases same : C.keyID k = C.keyID r.primary
      · exact .inl (distinct k (mem_cons_of_mem _ mem) _ mem_cons_self same)
      · exact .inr ⟨mem, by simpa using same⟩

end

end Panmail.Secrets
