import Panmail.Lib.Base64

/-!
# Signed links and bounce references

The send path signs the open pixel, the links, the unsubscribe header and the reference a delivery
report has to quote. A signature is the MAC of the link's fields, joined by NUL bytes.

The MAC is a function that tells all keys and inputs apart. That it cannot be forged is said of the
values somebody presents: one that is a MAC under the gateway's key is one that the gateway made.
-/
namespace Panmail.Tracking

open ByteStrings Text List Char

inductive Kind where
  | open_ | click | unsubscribe | bounce
  deriving DecidableEq

def Kind.text : Kind → String
  | .open_ => "open"
  | .click => "click"
  | .unsubscribe => "unsubscribe"
  | .bounce => "bounce"

structure Link where
  kind : Kind
  tenantID : Bytes
  messageID : Bytes
  recipient : Bytes
  targetURL : Bytes
  deriving DecidableEq

def canonical (l : Link) : Bytes :=
  utf8 l.kind.text ++ 0 :: (l.tenantID ++ 0 :: (l.messageID ++ 0 :: (l.recipient ++ 0 :: l.targetURL)))

/-- HMAC-SHA256, as a function of key and message that tells them all apart. -/
structure Mac where
  sum : Bytes → Bytes → Bytes
  injective : ∀ {k m k' m'}, sum k m = sum k' m' → k = k' ∧ m = m'

/-- A function that tells keys and messages apart: the key's length in unary, then both. -/
def Mac.example : Mac where
  sum k m := List.replicate k.length 1 ++ 0 :: (k ++ m)
  injective := by
    intro k m k' m' same
    obtain ⟨lengths, texts⟩ := append_separator_inj (by simp [mem_replicate])
      (by simp [mem_replicate]) same
    have length : k.length = k'.length := by simpa using congrArg List.length lengths
    exact append_inj texts length

/-- `Signer`, before setup without a key. -/
structure Signer where
  key : Bytes

inductive VerifyError where
  | missingSignature | badSignature | noKey

variable {h : Mac} {s : Signer} {messageID recipient tenantID value : String} {m : CaseMapping}

namespace Signer

def hasKey (s : Signer) : Bool := !s.key.isEmpty

def mac (h : Mac) (s : Signer) (l : Link) : Except VerifyError Bytes :=
  if s.hasKey then .ok (h.sum s.key (canonical l)) else .error .noKey

def sign (h : Mac) (s : Signer) (l : Link) : Bytes :=
  match s.mac h l with
  | .ok sum => Base64.encode sum
  | .error _ => []

def verify (h : Mac) (s : Signer) (l : Link) (signature : Bytes) : Except VerifyError Unit :=
  if signature = [] then .error .missingSignature
  else
    match Base64.decode signature with
    | none => .error .badSignature
    | some provided =>
      match s.mac h l with
      | .error err => .error err
      | .ok sum => if provided = sum then .ok () else .error .badSignature

variable {l : Link}

theorem verify_ok {signature : Bytes} (verified : s.verify h l signature = .ok ()) :
    s.hasKey = true ∧ Base64.decode signature = some (h.sum s.key (canonical l)) := by
  unfold verify at verified
  split at verified
  · cases verified
  split at verified
  · cases verified
  next provided decoded =>
    unfold mac at verified
    cases keyed : s.hasKey with
    | false =>
      rw [keyed] at verified
      cases verified
    | true =>
      rw [keyed] at verified
      simp only [if_true] at verified
      split at verified
      next same => exact ⟨rfl, same ▸ decoded⟩
      · cases verified

theorem verify_sign (keyed : s.hasKey = true) (present : h.sum s.key (canonical l) ≠ []) :
    s.verify h l (s.sign h l) = .ok () := by
  have sum : s.mac h l = .ok (h.sum s.key (canonical l)) := if_pos keyed
  have signed : s.sign h l = Base64.encode (h.sum s.key (canonical l)) := by rw [sign, sum]
  rw [verify, signed, if_neg (mt (Base64.encode_eq_nil_iff _).mp present)]
  simp only [Base64.decode_encode, sum, if_true]

end Signer

/-! ### What a signature is for -/

theorem Kind.nul_notMem (k : Kind) : (0 : Byte) ∉ utf8 k.text := by
  cases k <;> decide

theorem Kind.text_inj {k l : Kind} (same : utf8 k.text = utf8 l.text) : k = l := by
  cases k <;> cases l <;> first | rfl | exact absurd same (by decide)

section
variable {a b : Link}

theorem canonical_ids (tenants : 0 ∉ a.tenantID ∧ 0 ∉ b.tenantID)
    (messages : 0 ∉ a.messageID ∧ 0 ∉ b.messageID) (same : canonical a = canonical b) :
    a.kind = b.kind ∧ a.tenantID = b.tenantID ∧ a.messageID = b.messageID ∧
      a.recipient ++ 0 :: a.targetURL = b.recipient ++ 0 :: b.targetURL := by
  obtain ⟨kind, rest⟩ := append_separator_inj a.kind.nul_notMem b.kind.nul_notMem same
  obtain ⟨tenant, rest⟩ := append_separator_inj tenants.1 tenants.2 rest
  obtain ⟨message, rest⟩ := append_separator_inj messages.1 messages.2 rest
  exact ⟨Kind.text_inj kind, tenant, message, rest⟩

structure Link.Plain (l : Link) : Prop where
  tenant : 0 ∉ l.tenantID
  message : 0 ∉ l.messageID
  recipient : 0 ∉ l.recipient
  target : 0 ∉ l.targetURL

theorem count_canonical (l : Link) : (canonical l).count 0 = 4 + (l.tenantID.count 0 +
    l.messageID.count 0 + l.recipient.count 0 + l.targetURL.count 0) := by
  simp only [canonical, count_append, count_cons_self,
    count_eq_zero_of_not_mem l.kind.nul_notMem]
  omega

theorem Link.Plain.of_canonical (plain : a.Plain) (same : canonical a = canonical b) : b.Plain := by
  have counts := congrArg (List.count 0) same
  rw [count_canonical, count_canonical, count_eq_zero_of_not_mem plain.tenant,
    count_eq_zero_of_not_mem plain.message, count_eq_zero_of_not_mem plain.recipient,
    count_eq_zero_of_not_mem plain.target] at counts
  constructor
  case tenant | message | recipient | target =>
    apply count_eq_zero.mp
    omega

/-- A link with no NUL is told by its joined fields, from every other. -/
theorem canonical_inj (plain : a.Plain) (same : canonical a = canonical b) : a = b := by
  have other := plain.of_canonical same
  obtain ⟨kind, tenant, message, rest⟩ := canonical_ids ⟨plain.tenant, other.tenant⟩
    ⟨plain.message, other.message⟩ same
  obtain ⟨recipient, target⟩ := append_separator_inj plain.recipient other.recipient rest
  cases a
  cases b
  simp_all only

end

/-! ### What cannot be forged -/

/-- The links that were signed, each with the key of its time. -/
abbrev SigningLog := List (Bytes × Link)

/-- A value that is a MAC under the key was made by signing. -/
def Unforged (h : Mac) (key : Bytes) (log : SigningLog) (value : Bytes) : Prop :=
  ∀ m, value = h.sum key m → ∃ entry ∈ log, value = h.sum entry.1 (canonical entry.2)

/-- The MAC a signature presents is not a forged one. -/
def UnforgedSignature (h : Mac) (key : Bytes) (log : SigningLog) (signature : Bytes) : Prop :=
  ∀ value, Base64.decode signature = some value → Unforged h key log value

theorem Signer.verify_signed {l : Link} {log : SigningLog} {signature : Bytes}
    (verified : s.verify h l signature = .ok ())
    (unforged : UnforgedSignature h s.key log signature) :
    ∃ signed, (s.key, signed) ∈ log ∧ canonical signed = canonical l := by
  obtain ⟨_, decoded⟩ := Signer.verify_ok verified
  obtain ⟨⟨key, signed⟩, mem, same⟩ := unforged _ decoded (canonical l) rfl
  obtain ⟨rfl, text⟩ := h.injective same
  exact ⟨signed, mem, text.symm⟩

/-! ### Bounce references -/

def bounceLink (m : CaseMapping) (tenantID messageID recipient : String) : Link :=
  ⟨.bounce, utf8 tenantID, utf8 messageID, utf8 (m.normal recipient), []⟩

def Signer.bounceRef (h : Mac) (m : CaseMapping) (s : Signer) (tenantID messageID recipient : String) :
    String :=
  let sig := s.sign h (bounceLink m tenantID messageID recipient)
  if sig = [] then "" else "v1." ++ messageID ++ "." ++ ofAscii sig

/-- What stands before the last dot, and after it. -/
def cutLastDot (s : List Char) : Option (List Char × List Char) :=
  match s.reverse.dropWhile (· ≠ '.') with
  | [] => none
  | _ :: before => some (before.reverse, (s.reverse.takeWhile (· ≠ '.')).reverse)

/-- The message id of a reference, and its signature. -/
def splitRef (value : String) : Except VerifyError (String × String) :=
  match (trimSpace value).toList with
  | 'v' :: '1' :: '.' :: rest =>
    match cutLastDot rest with
    | none => .error .missingSignature
    | some (messageID, sig) =>
      if messageID = [] ∨ sig = [] then .error .missingSignature
      else .ok (String.ofList messageID, String.ofList sig)
  | _ => .error .badSignature

def Signer.verifyBounceRef (h : Mac) (m : CaseMapping) (s : Signer) (value tenantID recipient : String) :
    Except VerifyError String :=
  match splitRef value with
  | .error err => .error err
  | .ok (messageID, sig) =>
    match s.verify h (bounceLink m tenantID messageID recipient) (utf8 sig) with
    | .error err => .error err
    | .ok () => .ok messageID

theorem Signer.verifyBounceRef_ok
    (verified : s.verifyBounceRef h m value tenantID recipient = .ok messageID) :
    ∃ sig, splitRef value = .ok (messageID, sig) ∧
      s.verify h (bounceLink m tenantID messageID recipient) (utf8 sig) = .ok () := by
  unfold Signer.verifyBounceRef at verified
  split at verified
  · cases verified
  next id sig split_ =>
    split at verified <;> cases verified
    next accepted =>
      exact ⟨sig, split_, accepted⟩

theorem mem_of_splitRef {sig : String} (parts : splitRef value = .ok (messageID, sig)) {c : Char}
    (mem : c ∈ messageID.toList) : c ∈ value.toList := by
  unfold splitRef at parts
  split at parts
  next rest trimmed =>
    split at parts
    · cases parts
    next id tail cut =>
      split at parts
      · cases parts
      cases parts
      unfold cutLastDot at cut
      split at cut
      · cases cut
      next dot before dropped =>
        cases cut
        rw [String.toList_ofList, mem_reverse] at mem
        have inRest : c ∈ rest := by
          have kept : c ∈ rest.reverse.dropWhile (· ≠ '.') := by
            rw [dropped]
            exact mem_cons_of_mem dot mem
          exact mem_reverse.mp (dropWhile_sublist _ |>.mem kept)
        have inTrimmed : c ∈ (trimSpace value).toList := by
          rw [trimmed]
          simp [inRest]
        rw [trimSpace, String.toList_ofList, trim] at inTrimmed
        have front := (List.rdropWhile_prefix isSpace _).subset inTrimmed
        exact (dropWhile_sublist _).mem front
  · cases parts

/-! ### A reference verifies -/

theorem symbol_char {b : Byte} (symbol : Base64.sextet b ≠ none) :
    b.val < 128 ∧ isSpace (ofNat b.val) = false ∧ ofNat b.val ≠ '.' := by
  have all : ∀ b : Byte, Base64.sextet b ≠ none →
      b.val < 128 ∧ isSpace (ofNat b.val) = false ∧ ofNat b.val ≠ '.' := by decide +kernel
  exact all b symbol

theorem cutLastDot_append {before after : List Char} (plain : '.' ∉ after) :
    cutLastDot (before ++ '.' :: after) = some (before, after) := by
  have stops : ∀ c ∈ after.reverse, decide (c ≠ '.') = true := by
    intro c mem
    have inside : c ∈ after := mem_reverse.mp mem
    simp only [decide_eq_true_eq]
    rintro rfl
    exact plain inside
  have reversed : (before ++ '.' :: after).reverse = after.reverse ++ '.' :: before.reverse := by simp
  unfold cutLastDot
  rw [reversed, dropWhile_append_of_pos stops, takeWhile_append_of_pos stops]
  simp

theorem splitRef_join {sig : Bytes} (named : messageID ≠ "") (signed : sig ≠ [])
    (symbols : ∀ b ∈ sig, Base64.sextet b ≠ none) :
    splitRef ("v1." ++ messageID ++ "." ++ ofAscii sig) = .ok (messageID, ofAscii sig) := by
  have chars : ("v1." ++ messageID ++ "." ++ ofAscii sig).toList =
      'v' :: '1' :: '.' :: (messageID.toList ++ '.' :: (sig.map fun b => ofNat b.val)) := by
    simp [String.toList_append, ofAscii]
  have plain : '.' ∉ sig.map fun b => ofNat b.val := by
    intro mem
    obtain ⟨b, inside, same⟩ := mem_map.mp mem
    exact (symbol_char (symbols b inside)).2.2 same
  -- a reference starts with a letter and ends with a symbol, so there is nothing to trim
  have trimmed : (trimSpace ("v1." ++ messageID ++ "." ++ ofAscii sig)).toList =
      'v' :: '1' :: '.' :: (messageID.toList ++ '.' :: (sig.map fun b => ofNat b.val)) := by
    rw [trimSpace, String.toList_ofList, chars, trim, dropWhile_cons_of_neg (by decide)]
    apply rdropWhile_eq_self_iff.mpr
    intro present
    have ends : ('v' :: '1' :: '.' :: (messageID.toList ++ '.' ::
        (sig.map fun b => ofNat b.val))).getLast present =
        ofNat (sig.getLast signed).val := by simp [getLast_cons, signed, getLast_map]
    rw [ends]
    simp [(symbol_char (symbols _ (getLast_mem signed))).2.1]
  unfold splitRef
  rw [trimmed]
  simp only [cutLastDot_append plain]
  have id : messageID.toList ≠ [] := fun empty => named (String.toList_eq_nil_iff.mp empty)
  rw [if_neg (by simp [id, signed])]
  simp [ofAscii]

/-- A reference verifies for the tenant it was made for and every spelling of the address. -/
theorem Signer.verifyBounceRef_bounceRef {other : String} (keyed : s.hasKey = true)
    (named : messageID ≠ "")
    (present : h.sum s.key (canonical (bounceLink m tenantID messageID recipient)) ≠ [])
    (same : m.normal other = m.normal recipient) :
    s.verifyBounceRef h m (s.bounceRef h m tenantID messageID recipient) tenantID other =
      .ok messageID := by
  have signed : s.sign h (bounceLink m tenantID messageID recipient) =
      Base64.encode (h.sum s.key (canonical (bounceLink m tenantID messageID recipient))) := by
    rw [sign, mac, if_pos keyed]
  have some_ : s.sign h (bounceLink m tenantID messageID recipient) ≠ [] := by
    rw [signed]
    exact mt (Base64.encode_eq_nil_iff _).mp present
  have symbols : ∀ b ∈ s.sign h (bounceLink m tenantID messageID recipient),
      Base64.sextet b ≠ none := by
    rw [signed]
    exact fun b => Base64.sextet_of_mem_encode
  have ascii := utf8_ofAscii fun b mem => (symbol_char (symbols b mem)).1
  have link : bounceLink m tenantID messageID other = bounceLink m tenantID messageID recipient := by
    rw [bounceLink, bounceLink, same]
  have ref : s.bounceRef h m tenantID messageID recipient =
      "v1." ++ messageID ++ "." ++ ofAscii (s.sign h (bounceLink m tenantID messageID recipient)) :=
    if_neg some_
  rw [verifyBounceRef, ref, splitRef_join named some_ symbols]
  simp only [ascii, link, verify_sign keyed present]

end Panmail.Tracking
