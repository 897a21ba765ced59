import Mathlib.Logic.Relation
import Panmail.Lib.Text

/-!
# What a delivery error says about a recipient

`ClassifyError` of `bounce.go`, with its regular expressions written out as the scans they are. The
two facts about it that the rest of the development uses are at the end: which verdicts exist, and
that a permanent one is always of a type that settles a recipient.
-/
namespace Panmail.Delivery

open Text List

/-- `EmailEventType`. -/
inductive EventType where
  | unspecified | sent | delivered | opened | clicked | bounced | hardBounce | softBounce
  | spamReport | unsubscribed | dropped | rejected | pending | deferred | complained
  deriving DecidableEq

/-- `settledEvents`: the outcomes that finish a recipient for good. -/
def settledEvents : EventType → Bool
  | .hardBounce | .spamReport | .complained | .unsubscribed | .rejected | .dropped => true
  | _ => false

structure Classification where
  type : EventType
  recipientAtFault : Bool
  retryable : Bool
  deriving DecidableEq

/-! ### The words -/

def recipientHardBounceCodes : List String := ["5.1.1", "5.1.2", "5.1.3", "5.1.6", "5.1.10"]

def recipientHardBouncePatterns : List String :=
  ["user unknown", "no such user", "no such recipient", "mailbox not found",
    "mailbox unavailable", "invalid recipient", "recipient address rejected",
    "address rejected", "account disabled", "user doesn't exist", "user does not exist",
    "unknown recipient", "recipient not found", "does not exist"]

def complaintPatterns : List String :=
  ["feedback loop", "spam complaint", "abuse complaint", "complained", "marked as spam",
    "reported as spam"]

def contentRejectionPatterns : List String :=
  ["spam", "unacceptable content", "policy violation", "content rejected",
    "message rejected", "virus", "malware", "phishing"]

def unsubscribePatterns : List String := ["unsubscribed", "opted out"]

def transientPatterns : List String :=
  ["mailbox full", "quota exceeded", "storage full", "over quota", "connection timed out",
    "connection refused", "connection reset", "i/o timeout", "no route to host",
    "network is unreachable", "server busy", "try again later", "greylist", "greylisted",
    "rate limit", "too many messages", "too many connections", "temporary failure",
    "temporarily deferred", "deferred", "context deadline exceeded", "eof"]

def infrastructureCodes : List String := ["5.7.0", "5.7.8", "5.7.9"]

def infrastructurePatterns : List String :=
  ["authentication failed", "authentication credentials", "auth failed",
    "invalid credentials", "username and password not accepted", "relay access denied",
    "relaying denied", "relay denied", "not authorized to send", "sender address rejected",
    "blacklisted", "blocklisted", "certificate", "x509", "tls", "ssl",
    "unable to look up host", "no such host", "dns", "connection closed by remote host"]

def containsAny (s : List Char) (patterns : List String) : Bool :=
  patterns.any fun p => contains p.toList s

/-! ### The scans -/

/-- A character that may not stand next to an enhanced status code: `[\d.]`. -/
def inCode (c : Char) : Bool := c.isDigit || c = '.'

/-- The position before or after a whole code: the end of the text, or `[^\d.]`. -/
def codeBoundary : Option Char → Bool
  | none => true
  | some c => !inCode c

/-- Whether `codeAt`, which yields the text after a code that starts here, finds a whole
code anywhere. `before` is the character to the left. -/
def findsCode (codeAt : List Char → Option (List Char)) (before : Option Char) : List Char → Bool
  | [] => false
  | c :: s =>
    (codeBoundary before && (codeAt (c :: s)).any fun rest => codeBoundary rest.head?) ||
      findsCode codeAt (some c) s

/-- `enhancedCodePattern`. -/
def enhancedCode (codes : List String) (s : List Char) : Bool :=
  codes.any fun code =>
    findsCode (fun t => if code.toList.isPrefixOf t then some (t.drop code.length) else none)
      none s

/-- One to three digits and what follows them, where the next character is no digit. -/
def digits (s : List Char) : Option (List Char) :=
  let run := s.takeWhile Char.isDigit
  if 1 ≤ run.length ∧ run.length ≤ 3 then some (s.dropWhile Char.isDigit) else none

def dot : List Char → Option (List Char)
  | '.' :: s => some s
  | _ => none

/-- `transientCodes`: an enhanced status code of class 4. -/
def transientCodes (s : List Char) : Bool :=
  findsCode (fun t => match t with
    | '4' :: t => (((dot t).bind digits).bind dot).bind digits
    | _ => none) none s

/-- `\s`. -/
def isBlank (c : Char) : Bool := c = ' ' || c = '\t' || c = '\n' || c = '\r' || c = '\x0c'

/-- `replyCode`: the reply from its basic code on. `before` is the character to the left. -/
def replyFrom (before : Option Char) : List Char → Option (List Char)
  | [] => none
  | a :: s =>
    let starts := match before with
      | none => true
      | some c => isBlank c || c = ':'
    let code := match s with
      | b :: c :: rest => ('2' ≤ a && a ≤ '5') && b.isDigit && c.isDigit &&
          (match rest with
            | [] => true
            | d :: _ => d = ' ' || d = '-')
      | _ => false
    if starts && code then some (a :: s) else replyFrom (some a) s

/-- The characters that end an address: the complement of the class in `emailAddress`. -/
def endsAddress (c : Char) : Bool :=
  isBlank c || c = '<' || c = '>' || c = '(' || c = ')' || c = '[' || c = ']' || c = '"' ||
    c = '\'' || c = ',' || c = ';' || c = ':'

/-- An address is a whole run of other characters with an `@` inside it: the expression
is greedy on both sides of the `@`. -/
def isAddress (run : List Char) : Bool := (run.drop 1).dropLast.contains '@'

/-- `emailAddress.ReplaceAllString(text, "")`; `run` are the characters since the last
one that ends an address. -/
def removeAddresses (run : List Char) : List Char → List Char
  | [] => if isAddress run then [] else run
  | c :: s =>
    if endsAddress c then (if isAddress run then [] else run) ++ c :: removeAddresses [] s
    else removeAddresses (run ++ [c]) s

/-! ### The classifier -/

def classifyError (m : CaseMapping) (errStr : String) : Classification :=
  if errStr = "" then ⟨.unspecified, false, false⟩
  else
    let text := removeAddresses [] (m.toLower errStr).toList
    if containsAny text infrastructurePatterns || enhancedCode infrastructureCodes text then
      ⟨.rejected, false, true⟩
    else
      let found := replyFrom none text
      let reply := found.getD text
      if (found.any fun r => r.head? = some '4') || transientCodes reply ||
          containsAny reply transientPatterns then ⟨.softBounce, false, true⟩
      else if containsAny reply unsubscribePatterns then ⟨.unsubscribed, true, false⟩
      else if containsAny reply complaintPatterns then ⟨.spamReport, true, false⟩
      else if containsAny reply contentRejectionPatterns then ⟨.rejected, false, false⟩
      else if enhancedCode recipientHardBounceCodes reply ||
          containsAny reply recipientHardBouncePatterns then ⟨.hardBounce, true, false⟩
      else ⟨.bounced, false, true⟩

/-- The verdicts on an error that says something. -/
def verdicts : List Classification :=
  [⟨.rejected, false, true⟩, ⟨.softBounce, false, true⟩, ⟨.unsubscribed, true, false⟩,
    ⟨.spamReport, true, false⟩, ⟨.rejected, false, false⟩, ⟨.hardBounce, true, false⟩,
    ⟨.bounced, false, true⟩]

theorem classifyError_cases (m : CaseMapping) (errStr : String) :
    errStr = "" ∧ classifyError m errStr = ⟨.unspecified, false, false⟩ ∨
      errStr ≠ "" ∧ classifyError m errStr ∈ verdicts := by
  by_cases empty : errStr = ""
  · exact .inl ⟨empty, by simp only [classifyError, empty, if_true]⟩
  · refine .inr ⟨empty, ?_⟩
    simp only [classifyError, empty, if_false]
    -- each branch of the classifier yields one entry of the list
    repeat' split
    all_goals simp [verdicts]

variable {m : CaseMapping} {a : List Char}

theorem settled_of_permanent {errStr : String} (nonempty : errStr ≠ "")
    (permanent : (classifyError m errStr).retryable = false) :
    settledEvents (classifyError m errStr).type = true := by
  rcases classifyError_cases m errStr with ⟨empty, _⟩ | ⟨_, listed⟩
  · exact absurd empty nonempty
  have all : ∀ c ∈ verdicts, c.retryable = false → settledEvents c.type = true := by decide
  exact all _ listed permanent

theorem classifyError_not_delivered (m : CaseMapping) (errStr : String) :
    (classifyError m errStr).type ≠ .delivered := by
  rcases classifyError_cases m errStr with ⟨_, verdict⟩ | ⟨_, listed⟩
  · simp [verdict]
  · have all : ∀ c ∈ verdicts, c.type ≠ .delivered := by decide
    exact all _ listed

/-! ### Addresses in an error -/

/-- Lower case leaves alone what the expressions of the classifier look for. -/
structure KeepsMarks (m : CaseMapping) : Prop where
  word : ∀ c, endsAddress c = false → endsAddress (m.lower c) = false
  at_sign : m.lower '@' = '@'

/-- Something on either side of an `@`, and nothing that ends an address. -/
structure Address (a : List Char) : Prop where
  parts : ∃ user host, user ≠ [] ∧ host ≠ [] ∧ a = user ++ '@' :: host
  word : ∀ c ∈ a, endsAddress c = false

theorem Address.around (address : Address a) (x y : List Char) :
    isAddress (x ++ a ++ y) = true := by
  obtain ⟨user, host, named, placed, rfl⟩ := address.parts
  obtain ⟨c, before, starts⟩ := exists_cons_of_ne_nil (append_ne_nil_of_right_ne_nil x named)
  have whole : x ++ (user ++ '@' :: host) ++ y = c :: (before ++ '@' :: (host ++ y)) := by
    rw [← append_assoc, starts]
    simp
  simp [isAddress, whole, dropLast_append_of_ne_nil, dropLast_cons_of_ne_nil,
    placed]

theorem Address.lower (keeps : KeepsMarks m) (address : Address a) : Address (a.map m.lower) := by
  obtain ⟨user, host, named, placed, rfl⟩ := address.parts
  refine ⟨⟨user.map m.lower, host.map m.lower, by simpa, by simpa, by simp [keeps.at_sign]⟩, ?_⟩
  simp only [mem_map, forall_exists_index, and_imp, forall_apply_eq_imp_iff₂]
  exact fun c mem => keeps.word c (address.word c mem)

theorem removeAddresses_append (u run : List Char) : ∃ p x, ∀ rest,
    removeAddresses run (u ++ rest) = p ++ removeAddresses x rest := by
  induction u generalizing run with
  | nil => exact ⟨[], run, fun _ => rfl⟩
  | cons c u ih =>
    by_cases ends : endsAddress c = true
    · obtain ⟨p, x, same⟩ := ih []
      exact ⟨(if isAddress run then [] else run) ++ c :: p, x, by simp [removeAddresses, ends, same]⟩
    · obtain ⟨p, x, same⟩ := ih (run ++ [c])
      exact ⟨p, x, by simp [removeAddresses, ends, same]⟩

theorem removeAddresses_word {w : List Char} (word : ∀ c ∈ w, endsAddress c = false)
    (run v : List Char) : removeAddresses run (w ++ v) = removeAddresses (run ++ w) v := by
  induction w generalizing run with
  | nil => simp
  | cons c w ih =>
    obtain ⟨first, word⟩ := forall_mem_cons.mp word
    simp [removeAddresses, first, ih word]

/-- The run goes on to the next character that ends an address. -/
theorem removeAddresses_run (v : List Char) : ∃ y q, ∀ run,
    removeAddresses run v = (if isAddress (run ++ y) then [] else run ++ y) ++ q := by
  induction v with
  | nil => exact ⟨[], [], by simp [removeAddresses]⟩
  | cons c v ih =>
    by_cases ends : endsAddress c = true
    · exact ⟨[], c :: removeAddresses [] v, by simp [removeAddresses, ends]⟩
    · obtain ⟨y, q, same⟩ := ih
      exact ⟨c :: y, q, by simp [removeAddresses, ends, same]⟩

/-- What is left of a text with an address does not depend on the address: the run that it is in
is removed as a whole. -/
theorem removeAddresses_address (u v : List Char) : ∃ text, ∀ a, Address a →
    removeAddresses [] (u ++ a ++ v) = text := by
  obtain ⟨p, x, left⟩ := removeAddresses_append u []
  obtain ⟨y, q, right⟩ := removeAddresses_run v
  refine ⟨p ++ q, fun a address => ?_⟩
  rw [append_assoc, left, removeAddresses_word address.word, right, if_pos (address.around x y),
    nil_append]

/-- One address of the text is another one. -/
def Readdressed (s t : String) : Prop :=
  ∃ pre a b post, Address a ∧ Address b ∧ s.toList = pre ++ a ++ post ∧ t.toList = pre ++ b ++ post

/-- Whichever addresses an error names, and wherever, the verdict is the same. -/
theorem classifyError_readdressed (m : CaseMapping) (keeps : KeepsMarks m) (s t : String)
    (readdressed : Relation.ReflTransGen Readdressed s t) : classifyError m s = classifyError m t := by
  induction readdressed with
  | refl => rfl
  | tail _ last ih =>
    refine ih.trans ?_
    obtain ⟨pre, a, b, post, first, second, before, after⟩ := last
    obtain ⟨text, removed⟩ := removeAddresses_address (pre.map m.lower) (post.map m.lower)
    have read {w : List Char} (address : Address w) {r : String} (whole : r.toList = pre ++ w ++ post) :
        r ≠ "" ∧ removeAddresses [] (m.toLower r).toList = text := by
      constructor
      · rintro rfl
        obtain ⟨user, host, _, _, rfl⟩ := address.parts
        simp at whole
      · rw [CaseMapping.toLower, String.toList_ofList, whole, map_append, map_append]
        exact removed _ (address.lower keeps)
    simp only [classifyError, read first before, read second after]

theorem keepsMarks_ascii : KeepsMarks .ascii where
  word := by
    intro c plain
    have letter : c.toLower = c ∨ 97 ≤ c.toLower.toNat ∧ c.toLower.toNat ≤ 122 := by
      rw [← Char.toNat_inj, toNat_toLower]
      split <;> omega
    change endsAddress c.toLower = false
    rcases letter with same | small
    · rw [same, plain]
    · by_contra ends
      simp only [endsAddress, isBlank, Bool.or_eq_true, decide_eq_true_eq, Bool.not_eq_false,
        or_assoc] at ends
      rcases ends with h | h | h | h | h | h | h | h | h | h | h | h | h | h | h | h <;>
        simp [h] at small
  at_sign := by decide

theorem readdressed_bounce :
    classifyError .ascii "550 <a@dns> no such user" = classifyError .ascii "550 <b@x> no such user" :=
  classifyError_readdressed .ascii keepsMarks_ascii _ _ (.single
    ⟨"550 <".toList, ['a', '@', 'd', 'n', 's'], ['b', '@', 'x'], "> no such user".toList,
      ⟨⟨['a'], ['d', 'n', 's'], by simp, by simp, rfl⟩, by simp [endsAddress, isBlank]⟩,
      ⟨⟨['b'], ['x'], by simp, by simp, rfl⟩, by simp [endsAddress, isBlank]⟩, by decide, by decide⟩)

end Panmail.Delivery
