import Panmail.Secrets.DataKey

/-!
# Stored values as texts

A credential is stored as one text. Its first characters tell the format, the second format has
the fingerprint of its key after them, and the sealed bytes come last. A text of neither format
is a credential from before there was a key, and stands for itself.
-/
namespace Panmail.Secrets

open ByteStrings Text List

def cipherPrefixV1 : List Char := "enc:v1:".toList

def cipherPrefixV2 : List Char := "enc:v2:".toList

/-- How sealed bytes are written. -/
structure Encoding (C : Cipher) where
  /-- `base64.RawStdEncoding`. -/
  encode : Bytes → List Char
  decode : List Char → Option Bytes
  decode_encode : ∀ raw, decode (encode raw) = some raw
  /-- A fingerprint is in hex. -/
  hex : ∀ k, ':' ∉ (C.keyID k).toList

/-- `strings.Cut` at a colon. -/
def cutColon : List Char → Option (List Char × List Char)
  | [] => none
  | c :: s => if c = ':' then some ([], s) else (cutColon s).map fun parts => (c :: parts.1, parts.2)

theorem cutColon_append {id : List Char} (plain : ':' ∉ id) (rest : List Char) :
    cutColon (id ++ ':' :: rest) = some (id, rest) := by
  induction id with
  | nil => simp [cutColon]
  | cons c s ih =>
    rw [mem_cons, not_or] at plain
    simp [cutColon, Ne.symm plain.1, ih plain.2]

namespace Encoding
variable {C : Cipher} (f : Encoding C)

def split (value : List Char) : Option (String × Bytes) :=
  if cipherPrefixV2.isPrefixOf value then
    (cutColon (value.drop cipherPrefixV2.length)).bind fun parts =>
      (f.decode parts.2).map fun raw => (String.ofList parts.1, raw)
  else if cipherPrefixV1.isPrefixOf value then
    (f.decode (value.drop cipherPrefixV1.length)).map fun raw => ("", raw)
  else none

/-- What a text stands for, by `IsEncrypted` and `split`. -/
def read (value : String) : Stored :=
  if value = "" then .unset
  else if cipherPrefixV1.isPrefixOf value.toList || cipherPrefixV2.isPrefixOf value.toList then
    match f.split value.toList with
    | none => .malformed
    | some (id, raw) => .sealed id raw
  else .plain value

def encrypt (r : Keyring C) (nonce : Bytes) (plaintext : String) : String :=
  if plaintext = "" then ""
  else String.ofList (cipherPrefixV2 ++ ((C.keyID r.primary).toList ++
    ':' :: f.encode (C.seal_ r.primary nonce plaintext)))

def decrypt (r : Keyring C) (value : String) : Option String := r.decrypt (f.read value)

def needsRotation (r : Keyring C) (value : String) : Bool := r.needsRotation (f.read value)

theorem read_encrypt (r : Keyring C) (nonce : Bytes) (plaintext : String) :
    f.read (f.encrypt r nonce plaintext) = r.encrypt nonce plaintext := by
  unfold encrypt Keyring.encrypt
  split
  · rfl
  · have split_ := cutColon_append (f.hex r.primary) (f.encode (C.seal_ r.primary nonce plaintext))
    have one : cipherPrefixV1 = ['e', 'n', 'c', ':', 'v', '1', ':'] := rfl
    have two : cipherPrefixV2 = ['e', 'n', 'c', ':', 'v', '2', ':'] := rfl
    simp [read, Encoding.split, one, two, split_, f.decode_encode]

end Encoding

section
variable {C : Cipher} {env : List String}

theorem mem_keysOf_of_retired {cfg : Config} (valid : cfg.Valid C env) {k : C.Key}
    (retired : some k ∈ (env ++ cfg.retired).map C.parse) : k ∈ keysOf C env cfg := by
  obtain ⟨h, named, parsed⟩ := mem_map.mp retired
  obtain ⟨before, after, split_⟩ := append_of_mem named
  obtain ⟨ks, listed⟩ := Option.isSome_iff_exists.mp valid.retired
  have parts := listed
  rw [split_, parseKeys_append] at parts
  obtain ⟨left, right, _, inner, rfl⟩ := parts
  rw [parseKeys, if_neg (parse_ne_empty parsed).2, parsed] at inner
  obtain ⟨rest, _, rfl⟩ := Option.map_eq_some_iff.mp inner
  simp [keysOf, listed]

theorem Keyring.encrypt_primary (r : Keyring C) (nonce : Bytes) (text : String) :
    r.encrypt nonce text = (⟨r.primary, []⟩ : Keyring C).encrypt nonce text := rfl

/-- What was written under one primary key is read under all that follow, where each config keeps
the keys before it; and a text that needs no rotation is read without the retired keys. -/
theorem readable_across_changes (f : Encoding C) (history : List Config)
    (valid : ∀ cfg ∈ history, cfg.Valid C env) (keeps : history.Pairwise fun earlier later =>
      C.parse earlier.dataKey ∈ (env ++ later.retired).map C.parse) :
    (∀ (i j : Nat) (cfg cfg' : Config) (ring ring' : Keyring C), i ≤ j → history[i]? = some cfg →
      history[j]? = some cfg' → ringOf C env cfg = some ring → ringOf C env cfg' = some ring' →
      ∀ nonce text, text ≠ "" → f.decrypt ring' (f.encrypt ring nonce text) = some text) ∧
    ∀ (ring : Keyring C) (values : List String), (∀ v ∈ values, f.needsRotation ring v = false) →
      ∀ v ∈ values, ∀ text, f.decrypt ring v = some text →
        f.decrypt ⟨ring.primary, []⟩ v = some text := by
  constructor
  · intro i j cfg cfg' ring ring' order first second built built' nonce text _
    have valid' := valid cfg' (mem_of_getElem? second)
    obtain ⟨_, same, _, keys⟩ := valid'.built
    cases built'.symm.trans same
    -- the key it was sealed with is one of the later keyring's
    have kept : ring.primary ∈ ring'.keys := by
      rcases Nat.eq_or_lt_of_le order with rfl | before
      · cases first.symm.trans second
        cases built.symm.trans built'
        exact mem_cons_self
      · obtain ⟨_, parsed, _⟩ := newKeyring_some built
        obtain ⟨bound, here⟩ := List.getElem?_eq_some_iff.mp first
        obtain ⟨bound', there⟩ := List.getElem?_eq_some_iff.mp second
        have retired := pairwise_iff_getElem.mp keeps i j bound bound' before
        rw [here, there, parsed] at retired
        exact (keys _).mpr (mem_keysOf_of_retired valid' retired)
    have alone : (⟨ring.primary, []⟩ : Keyring C).keys ⊆ ring'.keys := by
      simpa [Keyring.keys] using kept
    rw [Encoding.decrypt, f.read_encrypt, ring.encrypt_primary]
    exact Keyring.decrypt_mono (Keyring.told_of_current (Keyring.needsRotation_encrypt _ _ _)) alone
      (valid'.distinct_ring built') (Keyring.decrypt_encrypt _ _ _)
  · intro ring values rotated v member text read
    have alone : (⟨ring.primary, []⟩ : Keyring C).primary = ring.primary := rfl
    exact Keyring.decrypt_current alone (rotated v member) read

end

namespace Sample

/-- Each byte as a character. -/
def encoding : Encoding cipher where
  encode raw := raw.map fun b => Char.ofNat b.val
  decode text := some (text.map fun c => Fin.ofNat 256 c.toNat)
  decode_encode raw := by
    have back (b : Byte) : (Char.ofNat b.val).toNat = b.val := by
      have valid : b.val.isValidChar := .inl (by omega)
      rw [Char.ofNat, dif_pos valid]
      rfl
    simp [map_map, Function.comp_def, back]
  hex := by
    change ∀ k : Fin 3, ':' ∉ (cipher.keyID k).toList
    decide

end Sample

open Sample in
/-- A password sealed with the first key, read after the change to the second. -/
theorem readable_across_one_change : ringOf cipher [] ⟨keyA, []⟩ = some ⟨(0 : Fin 3), []⟩ ∧
      ringOf cipher [] ⟨keyB, [keyA]⟩ = some ⟨(1 : Fin 3), [(0 : Fin 3)]⟩ ∧
      encoding.decrypt ⟨(1 : Fin 3), [(0 : Fin 3)]⟩
        (encoding.encrypt ⟨(0 : Fin 3), []⟩ [] "hunter2") = some "hunter2" := by
  have first : ringOf cipher [] ⟨keyA, []⟩ = some ⟨(0 : Fin 3), []⟩ := by decide +kernel
  have second : ringOf cipher [] ⟨keyB, [keyA]⟩ = some ⟨(1 : Fin 3), [(0 : Fin 3)]⟩ := by
    decide +kernel
  have valid : ∀ cfg ∈ [(⟨keyA, []⟩ : Config), ⟨keyB, [keyA]⟩], cfg.Valid cipher [] := by
    refine forall_mem_cons.mpr ⟨?_, forall_mem_singleton.mpr ?_⟩
    · exact ⟨by decide +kernel, by decide +kernel, by decide +kernel⟩
    · exact ⟨by decide +kernel, by decide +kernel, by decide +kernel⟩
  exact ⟨first, second, (readable_across_changes encoding _ valid (by decide)).1 0 1 _ _ _ _
    (by decide) rfl rfl first second [] "hunter2" (by decide)⟩

end Panmail.Secrets
