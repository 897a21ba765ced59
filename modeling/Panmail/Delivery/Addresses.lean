import Mathlib.Algebra.Order.BigOperators.Group.List
import Panmail.Delivery.Suppressed

/-!
# One audience, derived twice

Admission resolves a message's lists in one loop and delivery walks them in another, each with its
own idea of an address: the text as it was spelled, in lower case, and the mailbox it denotes. The
two loops find the same texts in the same order; that two texts are two mailboxes is for the caller
to see to.
-/
namespace Panmail.Delivery

open Text List

variable (P : Platform)

/-! ### What is resolved -/

section
variable {P} {seen lists : List String} {resolved : List (String × String)}

theorem mem_resolved (accepted : resolveRecipients P seen lists = .ok resolved)
    {key mailbox : String} : (key, mailbox) ∈ resolved ↔ key ∉ seen ∧ ∃ a spec,
      lists.find? (fun x => P.unicode.normal x = key) = some a ∧
        P.parseEmailAddress a = .ok spec ∧ P.unicode.normal spec = mailbox := by
  induction lists generalizing seen resolved with
  | nil =>
    cases accepted
    simp
  | cons a _ ih =>
    simp only [resolveRecipients] at accepted
    split at accepted
    · cases accepted
    split at accepted
    · cases accepted
    next spec parsed =>
      split at accepted
      next old =>
        -- a text seen before is not `key`, which is new
        rw [ih accepted]
        refine and_congr_right fun fresh => ?_
        have other : P.unicode.normal a ≠ key := fun same => fresh (same ▸ old)
        simp [other]
      next new =>
        split at accepted <;> cases accepted
        next later rested =>
          rw [mem_cons, ih rested]
          by_cases here : P.unicode.normal a = key
          · subst here
            simp [parsed, new, keyFromParsed, eq_comm]
          · simp [here, Ne.symm here]

theorem nodup_resolved (accepted : resolveRecipients P [] lists = .ok resolved) :
    (resolved.map Prod.fst).Nodup :=
  addresses_resolved accepted ▸ nodup_uniqueNormal _ _ _

/-- A resolved text that the parser accepts as it stands is resolved to itself. -/
theorem resolveRecipients_self (once : (resolved.map Prod.fst).Nodup)
    (kept : ∀ x ∈ resolved, P.unicode.normal x.1 = x.1 ∧ x.1 ≠ "" ∧ x.1 ∉ seen ∧
      ∃ spec, P.parseEmailAddress x.1 = .ok spec ∧ P.unicode.normal spec = x.2) :
    resolveRecipients P seen (resolved.map Prod.fst) = .ok resolved := by
  induction resolved generalizing seen with
  | nil => rfl
  | cons x rest ih =>
    obtain ⟨normal, named, fresh, spec, parsed, keyed⟩ := kept x mem_cons_self
    obtain ⟨first, once⟩ := nodup_cons.mp once
    have nonblank : trimSpace x.1 ≠ "" := by
      rw [← normal] at named
      simpa using named
    have later : resolveRecipients P (x.1 :: seen) (rest.map Prod.fst) = .ok rest := by
      refine ih once fun y mem => ?_
      obtain ⟨normal, named, fresh, accepts⟩ := kept y (mem_cons_of_mem _ mem)
      have other : y.1 ≠ x.1 := fun same => first (same ▸ mem_map_of_mem mem)
      exact ⟨normal, named, by simp [other, fresh], accepts⟩
    simp only [map_cons, resolveRecipients, nonblank, parsed, normal, fresh, later, if_false,
      keyFromParsed, keyed]

end

/-! ### Two texts, one mailbox -/

/-- No mailbox is spelled in two ways: entries that are each the first of their text denote
one mailbox only if they are one text. -/
def SpelledOnce (lists : List String) : Prop :=
  ∀ a b, lists.find? (fun x => P.unicode.normal x = P.unicode.normal a) = some a →
    lists.find? (fun x => P.unicode.normal x = P.unicode.normal b) = some b →
    ∀ s t, P.parseEmailAddress a = .ok s → P.parseEmailAddress b = .ok t →
      P.unicode.normal s = P.unicode.normal t → P.unicode.normal a = P.unicode.normal b

/-- The recipients of a pass are the texts admission resolved, and they are as many mailboxes
exactly when no mailbox is spelled in two ways. -/
theorem mailboxes_distinct_iff (lists : List String) (resolved : List (String × String))
    (accepted : resolveRecipients P [] lists = .ok resolved) :
    uniqueRecipients P lists = resolved.map Prod.fst ∧
      ((resolved.map Prod.snd).Nodup ↔ SpelledOnce P lists) := by
  have keyed : ∀ key mailbox, (key, mailbox) ∈ resolved ↔ _ :=
    fun _ _ => (mem_resolved accepted).trans (and_iff_right not_mem_nil)
  have entry {a s : String}
      (first : lists.find? (fun x => P.unicode.normal x = P.unicode.normal a) = some a)
      (parsed : P.parseEmailAddress a = .ok s) :
      (P.unicode.normal a, P.unicode.normal s) ∈ resolved :=
    (keyed _ _).mpr ⟨a, s, first, parsed, rfl⟩
  have spelled {key mailbox : String} (member : (key, mailbox) ∈ resolved) :
      ∃ a s, lists.find? (fun x => P.unicode.normal x = P.unicode.normal a) = some a ∧
        P.parseEmailAddress a = .ok s ∧ P.unicode.normal a = key ∧
        P.unicode.normal s = mailbox := by
    obtain ⟨a, s, first, parsed, same⟩ := (keyed _ _).mp member
    have named : P.unicode.normal a = key := by simpa using find?_some first
    exact ⟨a, s, by rw [named, first], parsed, named, same⟩
  have once : resolved.Nodup := (nodup_resolved accepted).of_map
  refine ⟨(addresses_resolved accepted).symm, fun distinct => ?_, fun apart => ?_⟩
  · intro a b first second s t parsed parsed' same
    have one := inj_on_of_nodup_map distinct (entry first parsed) (entry second parsed') same
    exact (Prod.mk.inj one).1
  · refine once.map_on fun x left y right same => ?_
    obtain ⟨a, s, first, parsed, keyA, boxA⟩ := spelled left
    obtain ⟨b, t, second, parsed', keyB, boxB⟩ := spelled right
    refine Prod.ext ?_ same
    rw [← keyA, ← keyB]
    exact apart a b first second s t parsed parsed' (by rw [boxA, boxB, same])

/-- Two recipients with one spelling each, one of them in both lists. -/
theorem mailboxes_distinct_apart : ∃ resolved,
    resolveRecipients (Sample.platform Sample.mailbox (Sample.request [])) []
      ["a@x", " Bob <BOB@x>", "A@x "] = .ok resolved ∧ (resolved.map Prod.snd).Nodup := by
  have accepted : resolveRecipients (Sample.platform Sample.mailbox (Sample.request [])) []
      ["a@x", " Bob <BOB@x>", "A@x "] = .ok [("a@x", "a@x"), ("bob <bob@x>", "bob@x")] := by decide
  refine ⟨_, accepted, (mailboxes_distinct_iff _ _ _ accepted).2.mpr ?_⟩
  intro a b first second s t parsed parsed'
  have listed := mem_of_find?_eq_some first
  have listed' := mem_of_find?_eq_some second
  obtain rfl : Sample.mailbox a = s := Except.ok.inj parsed
  obtain rfl : Sample.mailbox b = t := Except.ok.inj parsed'
  simp only [mem_cons, not_mem_nil, or_false] at listed listed'
  rcases listed with rfl | rfl | rfl <;> rcases listed' with rfl | rfl | rfl <;> decide +kernel

/-- Bob is named bare in To and with a display name in Cc, and is sent two copies. -/
theorem one_mailbox_twice :
    resolveRecipients (Sample.platform Sample.mailbox (Sample.request [])) []
      ["bob@x", "Bob <bob@x>"] = .ok [("bob@x", "bob@x"), ("bob <bob@x>", "bob@x")] ∧
    uniqueRecipients (Sample.platform Sample.mailbox (Sample.request []))
      ["bob@x", "Bob <bob@x>"] = ["bob@x", "bob <bob@x>"] := by decide

/-! ### The two loops agree -/

/-- The parser accepts the trimmed, lower-cased form of an address it accepts, and finds the
same mailbox in it. -/
def ParserFolds : Prop :=
  ∀ a spec, P.parseEmailAddress a = .ok spec → ∃ folded,
    P.parseEmailAddress (P.unicode.normal a) = .ok folded ∧
      P.unicode.normal folded = P.unicode.normal spec

/-- Whenever admission accepts the lists, delivery walks the same addresses, either loop leaves its
own output alone, and their suppression keys are the same. -/
theorem audience_agrees (folds : ParserFolds P) (lists : List String)
    (resolved : List (String × String)) (accepted : resolveRecipients P [] lists = .ok resolved) :
    uniqueRecipients P lists = resolved.map Prod.fst ∧
      uniqueRecipients P (resolved.map Prod.fst) = resolved.map Prod.fst ∧
      resolveRecipients P [] (resolved.map Prod.fst) = .ok resolved ∧
      (resolved.map Prod.fst).map (suppressionKeyOf P) = resolved.map Prod.snd := by
  have same : uniqueRecipients P lists = resolved.map Prod.fst :=
    (addresses_resolved accepted).symm
  have once := nodup_resolved accepted
  have parsed : ∀ x ∈ resolved, ∃ spec, P.parseEmailAddress x.1 = .ok spec ∧
      P.unicode.normal spec = x.2 := by
    rintro ⟨key, mailbox⟩ member
    obtain ⟨_, a, spec, first, accepts, keyed⟩ := (mem_resolved accepted).mp member
    have named : P.unicode.normal a = key := by simpa using find?_some first
    obtain ⟨folded, again, found⟩ := folds a spec accepts
    exact ⟨folded, named ▸ again, found.trans keyed⟩
  have kept : ∀ r ∈ resolved.map Prod.fst, P.unicode.normal r = r ∧ r ≠ "" ∧ r ∉ [] := by
    intro r member
    rw [← same] at member
    exact ⟨normal_recipient P member, ((mem_uniqueRecipients P).mp member).1, not_mem_nil⟩
  refine ⟨same, uniqueNormal_self once kept, resolveRecipients_self once fun x member => ?_, ?_⟩
  · obtain ⟨normal, named, fresh⟩ := kept x.1 (mem_map_of_mem member)
    exact ⟨normal, named, fresh, parsed x member⟩
  · rw [map_map]
    refine map_congr_left fun x member => ?_
    obtain ⟨spec, accepts, keyed⟩ := parsed x member
    simp [suppressionKeyOf, accepts, Except.toOption, keyFromParsed, keyed]

theorem audience_agrees_bob : ∃ resolved,
    resolveRecipients (Sample.platform Sample.mailbox (Sample.request [])) []
      ["a@x", " Bob <BOB@x>"] = .ok resolved ∧ (resolved.map Prod.fst).map
      (suppressionKeyOf (Sample.platform Sample.mailbox (Sample.request []))) =
        resolved.map Prod.snd := by
  have folds : ParserFolds (Sample.platform Sample.mailbox (Sample.request [])) := by
    intro a spec parsed
    obtain rfl : Sample.mailbox a = spec := Except.ok.inj parsed
    refine ⟨Sample.mailbox (CaseMapping.ascii.normal a), rfl, ?_⟩
    simp only [Sample.platform, Sample.mailbox, normal_normal]
    split
    · rfl
    · exact normal_normal _ _
  have accepted : resolveRecipients (Sample.platform Sample.mailbox (Sample.request [])) []
      ["a@x", " Bob <BOB@x>"] = .ok [("a@x", "a@x"), ("bob <bob@x>", "bob@x")] := by decide
  exact ⟨_, accepted, (audience_agrees _ folds _ _ accepted).2.2.2⟩

/-! ### The senders a stored column admits -/

/-- `scanProvider`: the allowed senders of a row. No bytes leave them unset, and the decoder's error
is dropped. -/
def scanAllowedSenders (unmarshal : String → List String) (column : String) : List String :=
  if column = "" then [] else canonicalSenders P [] (unmarshal column)

/-- What `senders.Address` takes for an address: a last `@` with text on both sides. -/
def IsAddress (address : String) : Prop :=
  '@' ∈ address.toList ∧ senderDomain address ≠ "" ∧
    (senderDomain address).length + 1 < address.length

def AdmitsAll (allowed : List String) : Prop :=
  ∀ address, IsAddress address → (matchAddress P allowed address).allowed = true

theorem canonicalSenders_eq_nil_iff (entries : List String) :
    canonicalSenders P [] entries = [] ↔ ∀ e ∈ entries, trimSpace e = "" := by
  induction entries with
  | nil => simp [canonicalSenders]
  | cons e _ ih => by_cases blank : trimSpace e = "" <;> simp [canonicalSenders, blank, ih]

theorem senderDomain_ofList (name : List Char) {domain : List Char} (plain : '@' ∉ domain) :
    senderDomain (String.ofList (name ++ '@' :: domain)) = String.ofList domain := by
  have letters : ∀ c ∈ domain.reverse, decide (c ≠ '@') = true := by
    intro c mem
    exact decide_eq_true fun same => plain (same ▸ mem_reverse.mp mem)
  have spelled : (name ++ '@' :: domain).reverse = domain.reverse ++ '@' :: name.reverse := by simp
  rw [senderDomain, String.toList_ofList, spelled, takeWhile_append_of_pos letters]
  simp

/-- A list that restricts refuses some address: one longer than all its entries. -/
theorem refuses_some (at_sign : ∀ c, P.unicode.lower c = '@' ↔ c = '@') {allowed : List String}
    (restricts : allowed ≠ []) : ¬ AdmitsAll P allowed := by
  let n := ((canonicalSenders P [] allowed).map String.length).sum
  let domain := List.replicate (n + 1) 'a'
  have long : ∀ e ∈ canonicalSenders P [] allowed, e.length ≤ n := fun e mem =>
    single_le_sum (fun _ _ => Nat.zero_le _) _ (mem_map_of_mem mem)
  have plain : '@' ∉ domain := fun mem => absurd (eq_of_mem_replicate mem) (by decide)
  have lowered : P.unicode.toLower (String.ofList (['a'] ++ '@' :: domain)) =
      String.ofList ([P.unicode.lower 'a'] ++ '@' :: domain.map P.unicode.lower) := by
    simp [CaseMapping.toLower, (at_sign '@').mpr rfl]
  have plain' : '@' ∉ domain.map P.unicode.lower := by
    intro mem
    obtain ⟨c, inside, same⟩ := mem_map.mp mem
    exact plain ((at_sign c).mp same ▸ inside)
  intro all
  have named : IsAddress (String.ofList (['a'] ++ '@' :: domain)) := by
    rw [IsAddress, senderDomain_ofList _ plain, String.length_ofList, String.length_ofList]
    exact ⟨by simp, by simp [domain], by simp⟩
  have admitted := all _ named
  -- neither the address nor its domain's wildcard is as short as an entry
  simp only [matchAddress, lowered, senderDomain_ofList _ plain', restricts, if_false] at admitted
  have away : ∀ e : String, n < e.length → e ∉ canonicalSenders P [] allowed :=
    fun e longer mem => absurd (long e mem) (Nat.not_le.mpr longer)
  rw [if_neg (away _ (by simp [domain]; omega)), if_neg (away _ (by simp [domain]; omega))] at admitted
  cases admitted

/-- A stored restriction is read back as one exactly when the column decodes to a list with an entry
that is not blank. No other character than `@` has the lower-case form `@`. -/
theorem restricted_iff (at_sign : ∀ c, P.unicode.lower c = '@' ↔ c = '@')
    (unmarshal : String → List String) (column : String) (stored : column ≠ "") :
    ¬ AdmitsAll P (scanAllowedSenders P unmarshal column) ↔
      ∃ entry ∈ unmarshal column, trimSpace entry ≠ "" := by
  have read : scanAllowedSenders P unmarshal column = canonicalSenders P [] (unmarshal column) :=
    if_neg stored
  have blank := canonicalSenders_eq_nil_iff P (unmarshal column)
  rw [read]
  constructor
  · intro restricted
    by_contra none
    push Not at none
    rw [blank.mpr none] at restricted
    exact restricted fun _ _ => rfl
  · rintro ⟨entry, listed, written⟩
    exact refuses_some P at_sign fun none => written (blank.mp none entry listed)

def senderPlatform : Platform := Sample.platform id (Sample.request [])

/-- A bare domain from before entries could be addresses, beside an entry that does not
validate any more. -/
theorem restricted_legacy :
    scanAllowedSenders senderPlatform (fun _ => ["Example.com", "a b"]) "[\"Example.com\",\"a b\"]" =
        ["*@example.com", "*@a b"] ∧
      ¬ AdmitsAll senderPlatform (scanAllowedSenders senderPlatform (fun _ => ["Example.com", "a b"])
        "[\"Example.com\",\"a b\"]") := by
  refine ⟨by decide, ?_⟩
  have at_sign (c : Char) : senderPlatform.unicode.lower c = '@' ↔ c = '@' := by
    refine ⟨fun same => ?_, fun same => by subst same; decide⟩
    have code : c.toLower.toNat = 64 := congrArg Char.toNat same
    rw [toNat_toLower] at code
    exact Char.toNat_inj.mp (show c.toNat = 64 by split at code <;> omega)
  exact (restricted_iff _ at_sign _ _ (by decide)).mpr ⟨"a b", by simp, by decide⟩

/-- A list of one blank entry, and a text that is no JSON, are read as no restriction. -/
theorem blank_entry_unrestricted : ∃ unmarshal : String → List String,
    unmarshal "[\" \"]" = [" "] ∧ unmarshal "[" = [] ∧ ∀ P : Platform,
      AdmitsAll P (scanAllowedSenders P unmarshal "[\" \"]") ∧
      AdmitsAll P (scanAllowedSenders P unmarshal "[") := by
  have blank : trimSpace " " = "" := by decide
  refine ⟨fun text => if text = "[" then [] else [" "], by simp, by simp,
    fun P => ⟨fun _ _ => ?_, fun _ _ => rfl⟩⟩
  simp [scanAllowedSenders, canonicalSenders, blank, matchAddress, SenderMatch.allowed]

end Panmail.Delivery
