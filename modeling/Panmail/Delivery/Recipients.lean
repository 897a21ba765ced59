import Panmail.Delivery.Classify
import Panmail.Idempotency.Model

/-!
# Who a message goes to, who it is from, and who may not be written to

The address lists of a request and the keys derived from them: the recipients a pass iterates over,
the form each is suppressed under, and the senders a provider admits. Admission, delivery and the
suppression list each derive an address's key by a route of their own.
-/
namespace Panmail.Delivery

open Text Outbox List

structure SendEmailRequest extends Idempotency.SendRequest where
  cc : List String
  bcc : List String
  subject : String
  templateID : String
  bodyHTML : String
  bodyText : String
  body : String
  isHTML : Bool
  deriving DecidableEq

/-- The three address lists, in the order every loop takes them. -/
def SendEmailRequest.audience (req : SendEmailRequest) : List String :=
  req.to_ ++ req.cc ++ req.bcc

/-- The libraries the send path calls. -/
structure Platform where
  unicode : CaseMapping
  /-- `gsmail.ParseEmailAddress`: the addr-spec, or the error's text. -/
  parseEmailAddress : String → Except String String
  /-- `gsmail.NormalizeAddress`. -/
  normalizeAddress : String → String
  /-- The bare addr-spec in lower case; a text that is no address is kept as it is. -/
  normalizes : ∀ a, trimSpace a ≠ "" →
    normalizeAddress a = unicode.normal ((parseEmailAddress a).toOption.getD a)
  /-- `uuid.Parse` accepts the text. -/
  isUUID : String → Bool
  /-- `time.ParseDuration`, in nanoseconds. -/
  parseDuration : String → Option Int
  /-- `protojson.Unmarshal` of a stored request. -/
  unmarshalRequest : String → Option SendEmailRequest

/-- Every text is an address, with ASCII letters. -/
def Platform.ascii : Platform where
  unicode := .ascii
  parseEmailAddress := .ok
  normalizeAddress := CaseMapping.ascii.normal
  normalizes _ _ := rfl
  isUUID _ := true
  parseDuration _ := none
  unmarshalRequest _ := none

variable (P : Platform) {lists : List String} {r : String}

def uniqueRecipients (lists : List String) : List String := uniqueNormal P.unicode [] lists

def keyFromParsed (lowered : String) (parsed : Option String) : String :=
  match parsed with
  | some address => P.unicode.normal address
  | none => lowered

def suppressionKeyOf (address : String) : String :=
  keyFromParsed P (P.unicode.normal address) (P.parseEmailAddress address).toOption

/-- `resolveRecipients`: each address with the key it is suppressed under. -/
def resolveRecipients (seen : List String) : List String → Except String (List (String × String))
  | [] => .ok []
  | address :: rest =>
    if trimSpace address = "" then .error "recipient list contains an empty address"
    else
      match P.parseEmailAddress address with
      | .error err => .error ("invalid recipient \"" ++ address ++ "\": " ++ err)
      | .ok parsed =>
        let key := P.unicode.normal address
        if key ∈ seen then resolveRecipients seen rest
        else
          match resolveRecipients (key :: seen) rest with
          | .error err => .error err
          | .ok resolved => .ok ((key, keyFromParsed P key (some parsed)) :: resolved)

theorem addresses_resolved {P : Platform} {seen : List String} {resolved : List (String × String)}
    (accepted : resolveRecipients P seen lists = .ok resolved) :
    resolved.map Prod.fst = uniqueNormal P.unicode seen lists := by
  induction lists generalizing seen resolved with
  | nil =>
    cases accepted
    rfl
  | cons _ _ ih =>
    simp only [resolveRecipients] at accepted
    split at accepted
    · cases accepted
    next nonblank =>
      split at accepted
      · cases accepted
      next spec parsed =>
        simp only [uniqueNormal, normal_eq_empty, nonblank, false_or]
        split at accepted
        next old => rw [if_pos old, ih accepted]
        next new =>
          split at accepted <;> cases accepted
          next later rested =>
            rw [if_neg new, map_cons, ih rested]

/-- `suppressionKey` of the suppression usecase. -/
def suppressionKey (email : String) : String :=
  if trimSpace email = "" then "" else P.normalizeAddress email

/-! ### The suppression list -/

/-- A stored entry. `Add` refuses an empty key, so no entry has one. -/
structure Suppression where
  tenantID : String
  email : String
  reason : String
  named : email ≠ ""
  deriving DecidableEq

def maxEmailsPerLookup : Nat := 500

/-- The addresses one statement of the lookup asks for. -/
def chunk (unique : List String) (i : Nat) : List String :=
  (unique.drop (maxEmailsPerLookup * i)).take maxEmailsPerLookup

/-- `appendSuppressed`: one statement's rows by address, the last row of each. -/
def appendSuppressed (tenantID : String) (emails : List String) (table : List Suppression)
    (into : List (String × Suppression)) : List (String × Suppression) :=
  ((table.filter fun s => s.tenantID = tenantID && emails.contains s.email).map fun s =>
    (P.unicode.normal s.email, s)).reverse ++ into

/-- `GetByEmails`; `query i` answers the `i`-th statement with the list it finds, or an error. -/
def getByEmails (tenantID : String) (emails : List String)
    (query : Nat → Except String (List Suppression)) :
    Except String (List (String × Suppression)) :=
  let unique := uniqueNormal P.unicode [] emails
  (List.range ((unique.length + maxEmailsPerLookup - 1) / maxEmailsPerLookup)).foldlM
    (fun found i => (query i).map fun table =>
      appendSuppressed P tenantID (chunk unique i) table found) []

/-- `suppressionsFor`: address to reason. -/
def suppressionsFor (tenantID : String) (normalised : List String)
    (query : Nat → Except String (List Suppression)) : Except String (List (String × String)) :=
  (getByEmails P tenantID normalised query).map fun found =>
    found.map fun entry => (entry.1, entry.2.reason)

def reasonFor (reasons : List (String × String)) (key : String) : Option String :=
  (reasons.find? fun entry => entry.1 = key).map Prod.snd

/-! ### The senders a provider admits -/

/-- `senders.Match`. -/
inductive SenderMatch where
  | refused | unrestricted | byDomain | byAddress
  deriving DecidableEq

def SenderMatch.allowed (m : SenderMatch) : Bool := m ≠ .refused

/-- `senders.Domain`: the part after the last `@`, or the whole text. -/
def senderDomain (address : String) : String :=
  String.ofList (address.toList.reverse.takeWhile (· ≠ '@')).reverse

/-- `senders.Address`. -/
def senderAddress (from_ : String) : Except String String :=
  let trimmed := trimSpace from_
  let addr := (P.parseEmailAddress trimmed).toOption.getD trimmed
  let domain := senderDomain addr
  -- a last "@" that is neither the first character nor the last
  if addr.toList.contains '@' ∧ domain ≠ "" ∧ domain.length + 1 < addr.length then
    .ok (P.unicode.toLower addr)
  else .error ("invalid from address: " ++ from_)

/-- `strings.Trim(s, ".")`. -/
def trimDots (s : String) : String :=
  String.ofList ((s.toList.dropWhile (· = '.')).rdropWhile (· = '.'))

/-- `senders.Canonical`. -/
def canonicalSenders (seen : List String) : List String → List String
  | [] => []
  | raw :: rest =>
    let s := P.unicode.normal raw
    let entry := if s.toList.contains '@' then s else "*@" ++ trimDots s
    if s = "" ∨ entry ∈ seen then canonicalSenders seen rest
    else entry :: canonicalSenders (entry :: seen) rest

def matchAddress (entries : List String) (address : String) : SenderMatch :=
  let address := P.unicode.toLower address
  let canonical := canonicalSenders P [] entries
  if entries = [] then .unrestricted
  else if address ∈ canonical then .byAddress
  else if "*@" ++ senderDomain address ∈ canonical then .byDomain
  else .refused

/-! ### Recipients and their keys -/

theorem mem_uniqueRecipients :
    r ∈ uniqueRecipients P lists ↔ r ≠ "" ∧ ∃ a ∈ lists, P.unicode.normal a = r := by
  rw [uniqueRecipients, mem_uniqueNormal]
  simp

theorem normal_recipient (mem : r ∈ uniqueRecipients P lists) : P.unicode.normal r = r :=
  normal_of_mem_uniqueNormal mem

theorem normal_suppressionKeyOf (address : String) :
    P.unicode.normal (suppressionKeyOf P address) = suppressionKeyOf P address := by
  rw [suppressionKeyOf]
  cases (P.parseEmailAddress address).toOption with
  | none | some => exact normal_normal _ _

/-- Parsing a normal form gives the normal form of the addr-spec. -/
def ParserCommutes : Prop :=
  ∀ a, (P.parseEmailAddress (P.unicode.normal a)).toOption =
    (P.parseEmailAddress a).toOption.map P.unicode.normal

/-- Delivery re-parses the normal form of an address and finds the key the address was
suppressed under. -/
theorem suppressionKeyOf_normal (commutes : ParserCommutes P) {a : String}
    (nonempty : trimSpace a ≠ "") :
    suppressionKeyOf P (P.unicode.normal a) = suppressionKey P a := by
  rw [suppressionKey, if_neg nonempty, P.normalizes a nonempty, suppressionKeyOf, commutes a]
  cases (P.parseEmailAddress a).toOption with
  | none | some => simp [keyFromParsed]

/-! ### What a lookup finds -/

section
variable {unique : List String} {key : String} {i : Nat}

theorem mem_chunk_of_mem (mem : key ∈ unique) :
    ∃ i < (unique.length + maxEmailsPerLookup - 1) / maxEmailsPerLookup, key ∈ chunk unique i := by
  obtain ⟨n, bound, rfl⟩ := getElem_of_mem mem
  refine ⟨n / maxEmailsPerLookup, ?_, ?_⟩
  · simp only [maxEmailsPerLookup]
    omega
  · have rest : n - maxEmailsPerLookup * (n / maxEmailsPerLookup) < maxEmailsPerLookup := by
      simp only [maxEmailsPerLookup]
      omega
    have start : maxEmailsPerLookup * (n / maxEmailsPerLookup) ≤ n := Nat.mul_div_le n _
    refine mem_iff_getElem?.mpr ⟨n - maxEmailsPerLookup * (n / maxEmailsPerLookup), ?_⟩
    rw [chunk, getElem?_take_of_lt rest, getElem?_drop,
      Nat.add_sub_cancel' start, getElem?_eq_getElem bound]

theorem mem_of_mem_chunk (mem : key ∈ chunk unique i) : key ∈ unique :=
  mem_of_mem_drop (mem_of_mem_take mem)

theorem lt_of_mem_chunk (mem : key ∈ chunk unique i) :
    i < (unique.length + maxEmailsPerLookup - 1) / maxEmailsPerLookup := by
  have rest := length_pos_of_mem (mem_of_mem_take mem)
  rw [length_drop] at rest
  simp only [maxEmailsPerLookup] at rest ⊢
  omega

end

theorem mem_appendSuppressed {tenantID : String} {emails : List String}
    {table : List Suppression} {into : List (String × Suppression)} {key : String}
    {s : Suppression} : (key, s) ∈ appendSuppressed P tenantID emails table into ↔
      (key, s) ∈ into ∨ s ∈ table ∧ s.tenantID = tenantID ∧ s.email ∈ emails ∧
        P.unicode.normal s.email = key := by
  simp only [appendSuppressed, mem_append, mem_reverse, mem_map, mem_filter,
    Bool.and_eq_true, decide_eq_true_eq, contains_iff_mem, Prod.mk.injEq]
  constructor
  · rintro (⟨x, ⟨listed, tenant, asked⟩, keyed, rfl⟩ | before)
    · exact .inr ⟨listed, tenant, asked, keyed⟩
    · exact .inl before
  · rintro (before | ⟨listed, tenant, asked, keyed⟩)
    · exact .inr before
    · exact .inl ⟨s, ⟨listed, tenant, asked⟩, keyed, rfl⟩

section
variable {tenantID : String} {unique : List String} {query : Nat → Except String (List Suppression)}

theorem mem_statements (key : String) (s : Suppression) (statements : List Nat)
    (before found : List (String × Suppression))
    (answered : statements.foldlM (fun found i => (query i).map fun table =>
      appendSuppressed P tenantID (chunk unique i) table found) before = .ok found) :
    (key, s) ∈ found ↔ (key, s) ∈ before ∨ ∃ i ∈ statements, ∃ table, query i = .ok table ∧
      s ∈ table ∧ s.tenantID = tenantID ∧ s.email ∈ chunk unique i ∧
      P.unicode.normal s.email = key := by
  induction statements generalizing before with
  | nil =>
    cases answered
    simp
  | cons i _ ih =>
    rw [foldlM_cons] at answered
    cases answer : query i with
    | error =>
      rw [answer] at answered
      cases answered
    | ok table =>
      rw [answer] at answered
      rw [ih _ answered, mem_appendSuppressed]
      constructor
      · rintro ((first | here) | ⟨j, listed, later⟩)
        · exact .inl first
        · exact .inr ⟨i, mem_cons_self, table, answer, here⟩
        · exact .inr ⟨j, mem_cons_of_mem _ listed, later⟩
      · rintro (first | ⟨j, listed, other, read, there⟩)
        · exact .inl (.inl first)
        · rcases mem_cons.mp listed with rfl | listed
          · cases answer.symm.trans read
            exact .inl (.inr there)
          · exact .inr ⟨j, listed, other, read, there⟩

theorem statement_answered (statements : List Nat) (before found : List (String × Suppression))
    (answered : statements.foldlM (fun found i => (query i).map fun table =>
      appendSuppressed P tenantID (chunk unique i) table found) before = .ok found)
    {i : Nat} (mem : i ∈ statements) : ∃ table, query i = .ok table := by
  induction statements generalizing before with
  | nil => cases mem
  | cons j _ ih =>
    rw [foldlM_cons] at answered
    cases answer : query j with
    | error =>
      rw [answer] at answered
      cases answered
    | ok table =>
      rw [answer] at answered
      rcases mem_cons.mp mem with rfl | later
      · exact ⟨table, answer⟩
      · exact ih _ answered later

end

/-- A statement of the lookup asks for `key` and finds it on the tenant's list. -/
def LookupFinds (tenantID : String) (keys : List String)
    (query : Nat → Except String (List Suppression)) (key : String) : Prop :=
  ∃ i table, query i = .ok table ∧ key ∈ chunk (uniqueNormal P.unicode [] keys) i ∧
    ∃ s ∈ table, s.tenantID = tenantID ∧ s.email = key

section
variable {tenantID : String} {keys : List String} {query : Nat → Except String (List Suppression)}
  {reasons : List (String × String)}
  (answered : suppressionsFor P tenantID keys query = .ok reasons)
include answered

theorem mem_suppressionsFor (key : String) :
    (∃ reason, (key, reason) ∈ reasons) ↔ LookupFinds P tenantID keys query key := by
  rw [suppressionsFor] at answered
  cases looked : getByEmails P tenantID keys query with
  | error =>
    rw [looked] at answered
    cases answered
  | ok =>
    rw [looked] at answered
    cases answered
    constructor
    · rintro ⟨reason, listed⟩
      obtain ⟨⟨named, s⟩, entry, same⟩ := mem_map.mp listed
      cases same
      rcases (mem_statements P named s _ _ _ looked).mp entry with none | ⟨i, _, table, read, there⟩
      · cases none
      obtain ⟨stored, tenant, asked, keyed⟩ := there
      have normal := normal_of_mem_uniqueNormal (mem_of_mem_chunk asked)
      rw [normal] at keyed
      exact ⟨i, table, read, keyed ▸ asked, s, stored, tenant, keyed⟩
    · rintro ⟨i, table, read, asked, s, stored, tenant, rfl⟩
      have normal := normal_of_mem_uniqueNormal (mem_of_mem_chunk asked)
      have entry := (mem_statements P s.email s _ _ _ looked).mpr
        (.inr ⟨i, mem_range.mpr (lt_of_mem_chunk asked), table, read, stored, tenant, asked,
          normal⟩)
      exact ⟨s.reason, mem_map.mpr ⟨(s.email, s), entry, rfl⟩⟩

theorem asked_of_answered {key : String} (mem : key ∈ uniqueNormal P.unicode [] keys) :
    ∃ i table, query i = .ok table ∧ key ∈ chunk (uniqueNormal P.unicode [] keys) i := by
  obtain ⟨i, bound, asked⟩ := mem_chunk_of_mem mem
  rw [suppressionsFor] at answered
  cases looked : getByEmails P tenantID keys query with
  | error =>
    rw [looked] at answered
    cases answered
  | ok =>
    obtain ⟨table, read⟩ := statement_answered P _ _ _ looked (mem_range.mpr bound)
    exact ⟨i, table, read, asked⟩

/-- A lookup that is answered finds exactly the keys that are on the list when it asks for
them. -/
theorem reasonFor_iff (key : String) :
    (∃ reason, reasonFor reasons key = some reason) ↔ LookupFinds P tenantID keys query key := by
  rw [← mem_suppressionsFor P answered]
  constructor
  · rintro ⟨reason, found⟩
    obtain ⟨entry, first, rfl⟩ := Option.map_eq_some_iff.mp found
    have named : entry.1 = key := by simpa using find?_some first
    exact ⟨entry.2, named ▸ mem_of_find?_eq_some first⟩
  · rintro ⟨reason, listed⟩
    cases first : reasons.find? fun entry => entry.1 = key with
    | none =>
      have absent := find?_eq_none.mp first _ listed
      simp at absent
    | some entry => exact ⟨entry.2, by rw [reasonFor, first]; rfl⟩

end

end Panmail.Delivery
