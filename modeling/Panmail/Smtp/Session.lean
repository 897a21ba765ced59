import Panmail.Delivery.Recipients

/-!
# Submission over SMTP

A session takes an envelope, command by command, and then a message whose headers name recipients of
their own. The envelope addresses that no header names become the request's Bcc, and the request is
delivered to its To, Cc and Bcc together. A relay that splits a message over several transactions
leaves the headers as they are, and each transaction then reaches all of them.
-/
namespace Panmail.Smtp

open Text Runs Delivery List

/-! ### Address headers -/

structure Scan where
  inQuote : Bool
  inAngle : Bool
  inGroup : Bool
  comments : Nat

/-- What a character that is not escaped does to the scan, and whether it ends an entry. -/
def Scan.next (st : Scan) (c : Char) : Scan × Bool :=
  if st.inQuote then ({ st with inQuote := c ≠ '"' }, false)
  else if c = '"' then ({ st with inQuote := true }, false)
  else if c = '(' then ({ st with comments := st.comments + 1 }, false)
  else if c = ')' ∧ 0 < st.comments then ({ st with comments := st.comments - 1 }, false)
  else if 0 < st.comments then (st, false)
  else if c = '<' then ({ st with inAngle := true }, false)
  else if c = '>' then ({ st with inAngle := false }, false)
  else if st.inAngle then (st, false)
  else if c = ':' then ({ st with inGroup := true }, false)
  else if c = ';' then ({ st with inGroup := false }, false)
  else (st, c = ',' && !st.inGroup)

/-- The entries of a list, with what was read of the first. A backslash in quotes or in a comment
takes the next character with it. -/
def entries (st : Scan) (current : List Char) : List Char → List (List Char)
  | [] => [current]
  | [c] =>
    if c = '\\' ∧ (st.inQuote ∨ 0 < st.comments) then [current ++ [c]]
    else if (st.next c).2 then [current, []]
    else [current ++ [c]]
  | c :: d :: rest =>
    if c = '\\' ∧ (st.inQuote ∨ 0 < st.comments) then entries st (current ++ [c, d]) rest
    else if (st.next c).2 then current :: entries (st.next c).1 [] (d :: rest)
    else entries (st.next c).1 (current ++ [c]) (d :: rest)

def splitAddressList (value : String) : List String :=
  ((entries ⟨false, false, false, 0⟩ [] value.toList).map fun e => String.ofList (trim e)).filter
    (· ≠ "")

/-- The mail libraries: addresses, encoded words, UUIDs and digests. -/
structure MailLibraries where
  /-- `AddressParser.Parse`: the address, or the error's text. -/
  parseAddress : String → Except String String
  parseList : String → Option (List String)
  decodeHeader : String → Option String
  /-- The text is that of the nil UUID. -/
  isNilUUID : String → Bool
  /-- The SHA-256 of data, in hex. -/
  digest : List String → String

section
variable (M : MailLibraries)

def addressList (value : String) : List String :=
  let value := trimSpace value
  if value = "" then []
  else
    let addresses := match M.parseList value with
      | some addresses => addresses
      -- an entry that does not parse is dropped, and the others are kept
      | none => (splitAddressList value).flatMap fun entry => (M.parseList entry).getD []
    addresses.filter (· ≠ "")

def singleAddress (value : String) : Except String String :=
  let value := trimSpace value
  if value = "" then .ok ""
  else
    match M.parseAddress value with
    | .ok address => .ok address
    | .error err => .error ("parse From address \"" ++ value ++ "\": " ++ err)

end

/-! ### A submitted message -/

/-- A message as `mail.ReadMessage` reads it, and what the walk of its parts finds. -/
structure Mail where
  from_ : String
  to_ : String
  cc : String
  subject : String
  messageID : String
  /-- `X-Panmail-Provider-Id`. -/
  providerID : String
  /-- The text and the HTML, or why the parts cannot be read. -/
  parts : Except String (String × String)

inductive ParseError where
  | noFrom
  | other (err : String)

structure Message where
  providerID : String
  messageID : String
  request : SendEmailRequest

def parse (M : MailLibraries) (read : Except String Mail) (envelopeFrom : String) :
    Except ParseError Message :=
  match read with
  | .error err => .error (.other ("parse message: " ++ err))
  | .ok mail =>
    match singleAddress M mail.from_ with
    | .error err => .error (.other err)
    | .ok address =>
      let from_ := if address = "" then trimSpace envelopeFrom else address
      if from_ = "" then .error .noFrom
      else
        match mail.parts with
        | .error err => .error (.other err)
        | .ok (text, html) => .ok {
            providerID := trimSpace mail.providerID
            messageID := trimSpace mail.messageID
            request := {
              from_, providerID := "", idempotencyKey := "", templateID := "", body := ""
              isHTML := false, bcc := []
              to_ := addressList M mail.to_
              cc := addressList M mail.cc
              subject := (M.decodeHeader mail.subject).getD mail.subject
              bodyText := text
              bodyHTML := html } }

/-! ### The session -/

structure SMTPError where
  code : Nat
  enhanced : Nat × Nat × Nat
  message : String

def errNotAuthenticated : SMTPError := ⟨535, (5, 7, 8), "Authentication required"⟩

/-- One submission that was queued: its envelope and the request made of it. -/
structure Submission where
  envelope : List String
  request : SendEmailRequest

/-- `session`, with what it has queued so far. -/
structure Session where
  tenantID : String
  providerID : String
  keyID : String
  from_ : String
  rcpts : List String
  queued : List Submission

def Session.start : Session := ⟨"", "", "", "", [], []⟩

/-- The fields of an API key that `authenticate` reads. -/
structure ApiKey where
  id : String
  tenantID : String
  maySend : Bool

inductive Command where
  /-- `AUTH`, and what `VerifyApiKey` says of the password. -/
  | auth (username : String) (key : Option ApiKey)
  | mail (from_ : String)
  | rcpt (to_ : String)
  /-- `DATA`, and what `SendEmail` answers the request. -/
  | data (read : Except String Mail) (answer : Except SMTPError Unit)
  | reset
  | logout

section
variable (P : Platform) (M : MailLibraries) (maxRecipients : Nat)

def validateProviderID (id : String) : Except String Unit :=
  if !P.isUUID id then .error "provider id must be a UUID"
  else if M.isNilUUID id then .error "provider id must not be the nil UUID"
  else .ok ()

def Session.authenticate (s : Session) (username : String) (key : Option ApiKey) :
    Except SMTPError Session :=
  match key with
  | none => .error ⟨535, (5, 7, 8), "Authentication failed"⟩
  | some key =>
    if !key.maySend then .error ⟨535, (5, 7, 8), "This API key is not permitted to send email"⟩
    else
      let provider := trimSpace username
      match if provider = "" then .ok () else validateProviderID P M provider with
      | .error err => .error ⟨535, (5, 7, 8), err⟩
      | .ok () => .ok { s with tenantID := key.tenantID, keyID := key.id, providerID := provider }

def Session.mail (s : Session) (from_ : String) : Except SMTPError Session :=
  if s.tenantID = "" then .error errNotAuthenticated
  else .ok { s with from_, rcpts := [] }

def Session.rcpt (s : Session) (to_ : String) : Except SMTPError Session :=
  if s.tenantID = "" then .error errNotAuthenticated
  else if maxRecipients ≤ s.rcpts.length then
    .error ⟨550, (5, 7, 1), "Too many recipients, the limit is " ++ toString maxRecipients⟩
  else .ok { s with rcpts := s.rcpts ++ [to_] }

def Session.resolveProvider (s : Session) (fromHeader : String) : Except SMTPError String :=
  let provider := if trimSpace fromHeader = "" then s.providerID else trimSpace fromHeader
  if provider = "" then
    .error ⟨501, (5, 5, 4), "No provider given: send the provider id as the AUTH username or in " ++
      "the X-Panmail-Provider-Id header"⟩
  else
    match validateProviderID P M provider with
    | .error err => .error ⟨501, (5, 5, 4), err⟩
    | .ok () => .ok provider

/-- The loop of `blindRecipients`: the envelope addresses that are neither visible nor seen. -/
def blindLoop (m : CaseMapping) (visible : List String) (seen : List String) :
    List String → List String
  | [] => []
  | address :: rest =>
    let key := m.normal address
    if key = "" ∨ key ∈ visible ∨ key ∈ seen then blindLoop m visible seen rest
    else address :: blindLoop m visible (key :: seen) rest

def blindRecipients (m : CaseMapping) (envelope to_ cc : List String) : List String :=
  blindLoop m ((to_ ++ cc).map m.normal) [] envelope

def submissionKey (messageID : String) (rcpts : List String) : String :=
  if messageID = "" then ""
  else "smtp:" ++ M.digest (messageID :: (rcpts.map P.unicode.normal).mergeSort (· ≤ ·))

/-- `Data`, up to the call of `SendEmail`: the submission, or the refusal. -/
def Session.submission (s : Session) (read : Except String Mail) : Except SMTPError Submission :=
  if s.tenantID = "" then .error errNotAuthenticated
  else if s.rcpts = [] then .error ⟨550, (5, 1, 3), "No valid recipients"⟩
  else
    match parse M read s.from_ with
    | .error .noFrom =>
      .error ⟨550, (5, 7, 1), "Message has no From address and the envelope sender is empty"⟩
    | .error (.other err) => .error ⟨501, (5, 5, 4), "Message could not be parsed: " ++ err⟩
    | .ok parsed =>
      match s.resolveProvider P M parsed.providerID with
      | .error err => .error err
      | .ok providerID => .ok ⟨s.rcpts, { parsed.request with
          providerID
          bcc := blindRecipients P.unicode s.rcpts parsed.request.to_ parsed.request.cc
          idempotencyKey := submissionKey P M parsed.messageID s.rcpts }⟩

def Session.data (s : Session) (read : Except String Mail) (answer : Except SMTPError Unit) :
    Except SMTPError Session :=
  match s.submission P M read with
  | .error err => .error err
  | .ok sub =>
    match answer with
    | .error err => .error err
    | .ok () => .ok { s with queued := s.queued ++ [sub] }

def Session.reset (s : Session) : Session := { s with from_ := "", rcpts := [] }

/-- One command. A refusal leaves the session as it is. -/
def Session.step (s : Session) : Command → Option Session
  | .auth username key => some ((s.authenticate P M username key).toOption.getD s)
  | .mail from_ => some ((s.mail from_).toOption.getD s)
  | .rcpt to_ => some ((s.rcpt maxRecipients to_).toOption.getD s)
  | .data read answer => some ((s.data P M read answer).toOption.getD s)
  | .reset => some s.reset
  | .logout => some { s.reset with tenantID := "", providerID := "", keyID := "" }

end

/-! ### Who a submission is delivered to -/

section
variable (P : Platform) (M : MailLibraries)

def Submission.delivered (sub : Submission) : List String :=
  uniqueRecipients P sub.request.audience

def Submission.recipients (sub : Submission) : List String := uniqueRecipients P sub.envelope

def Submission.visible (sub : Submission) : List String :=
  uniqueRecipients P (sub.request.to_ ++ sub.request.cc)

def Submission.Exact (sub : Submission) : Prop :=
  ∀ r, r ∈ sub.delivered P ↔ r ∈ sub.recipients P

/-- A message that is queued names nobody in To and Cc that the envelope does not name. -/
def Session.Covered (s : Session) : Command → Prop
  | .data read (.ok ()) => ∀ sub, s.submission P M read = .ok sub → sub.visible P ⊆ sub.recipients P
  | _ => True

instance (s : Session) (c : Command) : Decidable (s.Covered P M c) :=
  match c with
  | .data read (.ok ()) =>
    match made : s.submission P M read with
    | .error _ => isTrue fun _ same => nomatch made.symm.trans same
    | .ok sub => decidable_of_iff (sub.visible P ⊆ sub.recipients P)
        ⟨fun within _ same => Except.ok.inj (made.symm.trans same) ▸ within, fun all => all sub made⟩
  | .data _ (.error _) | .auth _ _ | .mail _ | .rcpt _ | .reset | .logout => isTrue trivial

end

open Session

theorem normals_blindLoop (m : CaseMapping) (visible seen envelope : List String) :
    (blindLoop m visible seen envelope).map m.normal =
      uniqueNormal m (seen ++ visible) envelope := by
  induction envelope generalizing seen with
  | nil => rfl
  | cons address _ ih =>
    simp only [blindLoop, uniqueNormal, mem_append]
    by_cases dropped : m.normal address = "" ∨ m.normal address ∈ visible ∨ m.normal address ∈ seen
    · rw [if_pos dropped, if_pos (dropped.imp_right Or.symm), ih]
    · rw [if_neg dropped, if_neg (fun other => dropped (other.imp_right Or.symm)), map_cons,
        ih, cons_append]

section
variable {P : Platform} {M : MailLibraries} {s : Session} {sub : Submission} {r : String}

theorem blind_of_submission {read : Except String Mail} (made : s.submission P M read = .ok sub) :
    sub.request.bcc = blindRecipients P.unicode sub.envelope sub.request.to_ sub.request.cc := by
  unfold submission at made
  split at made
  · cases made
  split at made
  · cases made
  split at made
  · cases made
  · cases made
  split at made
  · cases made
  cases made
  rfl

section
variable
  (blind : sub.request.bcc = blindRecipients P.unicode sub.envelope sub.request.to_ sub.request.cc)
include blind

theorem mem_delivered : r ∈ sub.delivered P ↔ r ∈ sub.visible P ∨ r ∈ sub.recipients P := by
  have bcc : (∃ a ∈ sub.request.bcc, P.unicode.normal a = r) ↔ r ≠ "" ∧
      r ∉ (sub.request.to_ ++ sub.request.cc).map P.unicode.normal ∧
      ∃ a ∈ sub.envelope, P.unicode.normal a = r := by
    rw [blind, ← mem_map, blindRecipients, normals_blindLoop, mem_uniqueNormal, nil_append]
  have split : (∃ a ∈ sub.request.audience, P.unicode.normal a = r) ↔
      (∃ a ∈ sub.request.to_ ++ sub.request.cc, P.unicode.normal a = r) ∨
        ∃ a ∈ sub.request.bcc, P.unicode.normal a = r := by
    simp only [SendEmailRequest.audience, mem_append, or_and_right, exists_or]
  have shown : r ∈ (sub.request.to_ ++ sub.request.cc).map P.unicode.normal ↔
      ∃ a ∈ sub.request.to_ ++ sub.request.cc, P.unicode.normal a = r := mem_map
  simp only [Submission.delivered, Submission.visible, Submission.recipients,
    mem_uniqueRecipients, split, bcc, shown]
  by_cases visible : ∃ a ∈ sub.request.to_ ++ sub.request.cc, P.unicode.normal a = r
  · simp only [visible, not_true_eq_false, false_and, and_false, or_false, and_true]
    exact ⟨.inl, fun either => either.elim id And.left⟩
  · simp only [visible, not_false_eq_true, true_and, false_or, and_false]
    exact ⟨fun both => both.2, fun both => ⟨both.1, both⟩⟩

theorem exact_iff : sub.Exact P ↔ sub.visible P ⊆ sub.recipients P := by
  constructor
  · intro exact_ r mem
    exact (exact_ r).mp ((mem_delivered blind).mpr (.inl mem))
  · intro within r
    rw [mem_delivered blind]
    exact ⟨fun either => either.elim (fun visible => within visible) id, .inr⟩

end

section
variable {maxRecipients : Nat} {c : Command} {t : Session}
  (taken : s.step P M maxRecipients c = some t)
include taken

theorem queued_step :
    t.queued = s.queued ∧ (∀ read, c = .data read (.ok ()) → ∀ sub, s.submission P M read ≠ .ok sub) ∨
    ∃ read sub, c = .data read (.ok ()) ∧ s.submission P M read = .ok sub ∧
      t.queued = s.queued ++ [sub] := by
  cases c with
  | auth =>
    cases taken
    refine .inl ⟨?_, nofun⟩
    unfold authenticate
    split
    · rfl
    · split
      · rfl
      · dsimp only
        split <;> rfl
  | mail =>
    cases taken
    refine .inl ⟨?_, nofun⟩
    unfold mail
    split <;> rfl
  | rcpt =>
    cases taken
    refine .inl ⟨?_, nofun⟩
    unfold rcpt
    split
    · rfl
    · split <;> rfl
  | reset | logout =>
    cases taken
    exact .inl ⟨rfl, nofun⟩
  | data read answer =>
    cases taken
    cases made : s.submission P M read with
    | error =>
      refine .inl ⟨by simp [data, made, Except.toOption], ?_⟩
      rintro _ same sub other
      cases same
      rw [made] at other
      cases other
    | ok sub =>
      cases answer with
      | error => exact .inl ⟨by simp [data, made, Except.toOption], nofun⟩
      | ok => exact .inr ⟨read, sub, rfl, made, by simp [data, made, Except.toOption]⟩

theorem exact_step :
    (∀ sub ∈ t.queued, sub.Exact P) ↔ (∀ sub ∈ s.queued, sub.Exact P) ∧ s.Covered P M c := by
  rcases queued_step taken with ⟨same, nothing⟩ | ⟨read, sub, rfl, made, queued⟩
  · rw [same, iff_self_and]
    intro _
    unfold Session.Covered
    split
    next read => exact fun sub made => absurd made (nothing read rfl sub)
    · trivial
  · have covered : s.Covered P M (.data read (.ok ())) ↔ sub.visible P ⊆ sub.recipients P := by
      constructor
      · intro all
        exact all sub made
      · intro within other same
        cases made.symm.trans same
        exact within
    rw [queued, covered, ← exact_iff (blind_of_submission made)]
    simp only [mem_append, mem_singleton, or_imp, forall_and, forall_eq]

end

end

/-- In every session, the queued submissions are delivered to exactly their envelopes just when no
queued message names anybody in To or Cc outside of its envelope; and transactions that are, with no
recipient in common, reach each recipient once. -/
theorem reaches_envelope_iff (P : Platform) (M : MailLibraries) (maxRecipients : Nat)
    (commands : List Command) (s : Session)
    (reached : exec (Session.step P M maxRecipients) Session.start commands = some s) :
    ((∀ sub ∈ s.queued, sub.Exact P) ↔
      AllSteps (Session.step P M maxRecipients) (Session.Covered P M) Session.start commands) ∧
    ((∀ sub ∈ s.queued, sub.Exact P) →
      s.queued.Pairwise (fun a b => (a.recipients P).Disjoint (b.recipients P)) →
      (s.queued.flatMap (Submission.delivered P)).Nodup ∧
      ∀ r, r ∈ s.queued.flatMap (Submission.delivered P) ↔ ∃ sub ∈ s.queued, r ∈ sub.recipients P) := by
  constructor
  · have along := holds_iff_along (Session.step P M maxRecipients) (Session.Covered P M)
      (fun _ => True) (fun s => ∀ sub ∈ s.queued, sub.Exact P) (fun _ _ _ _ _ => trivial)
      (fun _ _ _ _ taken => exact_step taken) Session.start s commands trivial reached
    rw [along, and_iff_right]
    intro sub member
    cases member
  · intro exact_ apart
    constructor
    · refine nodup_flatMap.mpr ⟨fun sub _ => nodup_uniqueNormal _ _ _, ?_⟩
      refine apart.imp_of_mem fun {a b} left right disjoint r first second => ?_
      exact disjoint ((exact_ a left r).mp first) ((exact_ b right r).mp second)
    · intro r
      rw [mem_flatMap]
      exact exists_congr fun sub => and_congr_right fun member => exact_ sub member r

/-! ### A message split over two transactions -/

namespace Sample

def platform : Platform := .ascii

def libraries : MailLibraries where
  parseAddress := .ok
  parseList value := some ((value.toList.splitOn ',').map fun e => String.ofList (trim e))
  decodeHeader := some
  isNilUUID _ := false
  digest _ := "5e1f"

def letter : Mail := ⟨"eve@x", "Ana@x, bob@x", "", "hello", "<1@x>", "", .ok ("hello", "")⟩

def session (envelopes : List (List String)) : List Command :=
  .auth "p" (some ⟨"k", "t", true⟩) :: envelopes.flatMap fun envelope =>
    .mail "eve@x" :: envelope.map .rcpt ++ [.data (.ok letter) (.ok ()), .reset]

end Sample

/-- One transaction whose envelope names the two recipients of the headers, and a third. -/
theorem reaches_envelope_blind :
    (exec (Session.step Sample.platform Sample.libraries 100) Session.start
        (Sample.session [["ana@x", "BOB@x", "cid@x"]])).map
      (fun s => s.queued.map (Submission.delivered Sample.platform)) =
        some [["ana@x", "bob@x", "cid@x"]] ∧
    ∀ s, exec (Session.step Sample.platform Sample.libraries 100) Session.start
        (Sample.session [["ana@x", "BOB@x", "cid@x"]]) = some s →
      ∀ sub ∈ s.queued, sub.Exact Sample.platform := by
  refine ⟨by decide +kernel, fun s reached => ?_⟩
  exact (reaches_envelope_iff Sample.platform Sample.libraries 100 _ s reached).1.mpr
    (by decide +kernel)

/-- Split over two transactions, one for each recipient, the message reaches both of them twice. -/
theorem split_delivered_twice :
    (exec (Session.step Sample.platform Sample.libraries 100) Session.start
        (Sample.session [["ana@x"], ["bob@x"]])).map (fun s => s.queued.map fun sub =>
        (sub.recipients Sample.platform, sub.delivered Sample.platform)) =
        some [(["ana@x"], ["ana@x", "bob@x"]), (["bob@x"], ["ana@x", "bob@x"])] ∧
    ∀ s, exec (Session.step Sample.platform Sample.libraries 100) Session.start
        (Sample.session [["ana@x"], ["bob@x"]]) = some s →
      ∃ sub ∈ s.queued, ¬ sub.Exact Sample.platform := by
  have run : (exec (Session.step Sample.platform Sample.libraries 100) Session.start
        (Sample.session [["ana@x"], ["bob@x"]])).map
      (fun s => s.queued.map fun sub =>
        (sub.recipients Sample.platform, sub.delivered Sample.platform)) =
        some [(["ana@x"], ["ana@x", "bob@x"]), (["bob@x"], ["ana@x", "bob@x"])] := by decide +kernel
  refine ⟨run, fun s reached => ?_⟩
  rw [reached, Option.map_some, Option.some.injEq] at run
  have first : (["ana@x"], ["ana@x", "bob@x"]) ∈ s.queued.map fun sub =>
      (sub.recipients Sample.platform, sub.delivered Sample.platform) := run ▸ mem_cons_self
  obtain ⟨sub, member, same⟩ := mem_map.mp first
  obtain ⟨recipients, delivered⟩ := Prod.mk.inj same
  refine ⟨sub, member, fun exact_ => ?_⟩
  have outside := (exact_ "bob@x").mp (by simp [delivered])
  rw [recipients] at outside
  exact absurd outside (by decide)

/-! ### Lists of balanced entries -/

/-- What a character of an address list stands in. -/
inductive Level where
  | top | quote | comment | angle | group
  deriving DecidableEq

/-- The characters that open, close, escape or separate something. -/
def Level.special : Level → List Char
  | .top => ['"', '(', '<', ':', ',']
  | .quote => ['"', '\\']
  | .comment => ['"', '(', ')', '\\']
  | .angle => ['"', '(', '>']
  | .group => ['"', '(', '<', ';']

/-- What a character opens, and the character that closes it. -/
def Level.opened (k : Level) (c : Char) : Option (Level × Char) :=
  if k = .quote then none
  else if c = '"' then some (.quote, '"')
  else if c = '(' then some (.comment, ')')
  else if c = '<' ∧ (k = .top ∨ k = .group) then some (.angle, '>')
  else if c = ':' ∧ k = .top then some (.group, ';')
  else none

/-- A text in which all that is opened is closed; at the top, one without a separator. -/
inductive Balanced : Level → List Char → Prop where
  | nil {k : Level} : Balanced k []
  | plain {k : Level} {c : Char} {s : List Char} (ordinary : c ∉ k.special) (rest : Balanced k s) :
      Balanced k (c :: s)
  | escaped {k : Level} {c : Char} {s : List Char} (here : k = .quote ∨ k = .comment)
      (rest : Balanced k s) : Balanced k ('\\' :: c :: s)
  | enclosed {k l : Level} {o c : Char} {q s : List Char} (opens : k.opened o = some (l, c))
      (inside : Balanced l q) (rest : Balanced k s) : Balanced k (o :: (q ++ c :: s))

def Scan.level (st : Scan) : Level :=
  if st.inQuote then .quote else if 0 < st.comments then .comment
  else if st.inAngle then .angle else if st.inGroup then .group else .top

section
variable {st st' : Scan} {c o : Char} {l : Level}

theorem Scan.next_plain (ordinary : c ∉ st.level.special) : st.next c = (st, false) := by
  obtain ⟨quoted, a, g, n⟩ := st
  cases quoted
  · rcases n with _ | n
    · cases a <;> cases g <;> simp_all [Scan.level, Scan.next, Level.special]
    · simp_all [Scan.level, Scan.next, Level.special]
  · simp_all [Scan.level, Scan.next, Level.special]

/-- The character that closes what was opened undoes it, and neither of the two is a backslash. -/
theorem Scan.next_opened (opens : st.level.opened o = some (l, c)) :
    ∃ st' : Scan, st.next o = (st', false) ∧ st'.level = l ∧ st'.next c = (st, false) ∧
      o ≠ '\\' ∧ c ≠ '\\' := by
  obtain ⟨quoted, a, g, n⟩ := st
  simp only [Level.opened, Scan.level] at opens
  split_ifs at opens <;> cases opens <;> simp_all [Scan.next, Scan.level]

theorem Scan.escapes_iff :
    st.inQuote ∨ 0 < st.comments ↔ st.level = .quote ∨ st.level = .comment := by
  unfold Scan.level
  split_ifs <;> simp_all

/-- A character that is not escaped goes to the entry that is read, also at the end of the text. -/
theorem entries_next {current rest : List Char} (next : st.next c = (st', false))
    (ordinary : ¬(c = '\\' ∧ (st.level = .quote ∨ st.level = .comment))) :
    entries st current (c :: rest) = entries st' (current ++ [c]) rest := by
  rw [← Scan.escapes_iff] at ordinary
  cases rest <;> simp [entries, ordinary, next]

/-- Scanning what is balanced leaves the scan as it was. -/
theorem Balanced.entries_append {k : Level} {s : List Char} (balanced : Balanced k s)
    (current rest : List Char) (at_ : st.level = k) :
    entries st current (s ++ rest) = entries st (current ++ s) rest := by
  induction balanced generalizing st current rest with
  | nil => simp
  | plain ordinary _ ih =>
    subst at_
    rw [cons_append, entries_next (Scan.next_plain ordinary) ?_, ih _ _ rfl, append_assoc]
    · rfl
    · rintro ⟨rfl, level | level⟩ <;> exact ordinary (by simp [level, Level.special])
  | escaped here _ ih =>
    simp [entries, Scan.escapes_iff.mpr (at_ ▸ here), ih _ _ at_]
  | enclosed opens _ _ inside after =>
    subst at_
    obtain ⟨st', enters, level, leaves, opener, closer⟩ := Scan.next_opened opens
    rw [cons_append, append_assoc, entries_next enters (fun h => opener h.1), inside _ _ level,
      cons_append, entries_next leaves (fun h => closer h.1), after _ _ rfl]
    simp

theorem entries_intercalate {e : List Char} {es : List (List Char)}
    (balanced : ∀ x ∈ e :: es, Balanced .top x) :
    entries ⟨false, false, false, 0⟩ [] ([','].intercalate (e :: es)) = e :: es := by
  induction es generalizing e with
  | nil =>
    have only := (balanced e mem_cons_self).entries_append [] []
      (Eq.refl (Scan.level ⟨false, false, false, 0⟩))
    simpa [entries, intercalate_singleton] using only
  | cons f es ih =>
    have later := ih fun x mem => balanced x (mem_cons_of_mem e mem)
    rw [intercalate_cons_cons, append_assoc, (balanced e mem_cons_self).entries_append [] _ rfl]
    -- the comma may end the text, before a last entry that is empty
    cases text : [','].intercalate (f :: es) <;> rw [text] at later <;>
      simp [entries, Scan.next, ← later]

theorem splitAddressList_intercalate (es : List String)
    (balanced : ∀ e ∈ es, Balanced .top e.toList) :
    splitAddressList (",".intercalate es) = (es.map trimSpace).filter (· ≠ "") := by
  cases es with
  | nil => rfl
  | cons e es =>
    have scanned : entries ⟨false, false, false, 0⟩ [] (",".intercalate (e :: es)).toList =
        (e :: es).map String.toList := by
      rw [String.toList_intercalate]
      exact entries_intercalate (forall_mem_map.mpr balanced)
    rw [splitAddressList, scanned, map_map]
    rfl

/-- Quotes around a comma, a blank entry, and an escape and a comment in a comment. -/
theorem splitAddressList_sample :
    splitAddressList (",".intercalate ["\",\" <a>", " ", "(\\)())"]) =
      ["\",\" <a>", "(\\)())"] := by
  refine (splitAddressList_intercalate _ ?_).trans (by decide)
  simp only [forall_mem_cons, not_mem_nil, false_implies, implies_true, and_true]
  have quoted : Balanced .quote [','] := .plain (by decide) .nil
  have address : Balanced .angle ['a'] := .plain (by decide) .nil
  have nested : Balanced .comment ['\\', ')', '(', ')'] :=
    .escaped (by decide) (.enclosed (q := []) rfl .nil .nil)
  exact ⟨.enclosed rfl quoted (.plain (by decide) (.enclosed rfl address .nil)),
    .plain (by decide) .nil, .enclosed rfl nested .nil⟩

end

end Panmail.Smtp
