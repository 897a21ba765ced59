import Panmail.Inbound.Process
import Panmail.Tracking.Links

/-!
# What a delivery report can cause

Anyone can send a delivery report to a mailbox: its references and its recipients are whatever the
sender wrote. `recordBounce` believes it about a recipient where one of the quoted references
verifies for the mailbox's tenant and that recipient, and the event store shows the message sent
there.
-/
namespace Panmail.Inbound

open ByteStrings Text Delivery Tracking List Signer

/-! ### Reading a report -/

/-- `textproto.MIMEHeader`: the values of each field, by canonical name. -/
abbrev MIMEHeader := List (String × List String)

def MIMEHeader.values (h : MIMEHeader) (name : String) : List String := (h.lookup name).getD []

def MIMEHeader.get (h : MIMEHeader) (name : String) : String := (h.values name).headD ""

structure MimeReader where
  /-- `mime.ParseMediaType`: the media type. -/
  parseMediaType : String → Option String
  /-- `ReadMIMEHeader`: the fields of the first block, the data after it, and whether it ended with
  an error, as at the end of the data. -/
  readMIMEHeader : Bytes → MIMEHeader × Bytes × Bool
  /-- A block that ends without an error ends with a line that was read. -/
  shorter : ∀ data, (readMIMEHeader data).2.2 = false →
    (readMIMEHeader data).2.1.length < data.length
  /-- A field value has no control characters. -/
  clean : ∀ data name values, (name, values) ∈ (readMIMEHeader data).1 →
    ∀ v ∈ values, Char.ofNat 0 ∉ v.toList

structure Part where
  contentType : String
  data : Bytes

section
variable (r : MimeReader) (m : CaseMapping) (bareAddress : String → String)

def reportedAddress (field : String) : String :=
  let type := field.toList.takeWhile (· ≠ ';')
  match field.toList.dropWhile (· ≠ ';') with
  | [] => bareAddress field
  | _ :: value =>
    if m.normal (String.ofList type) = "rfc822" || m.normal (String.ofList type) = "utf-8" then
      bareAddress (String.ofList value)
    else ""

/-- The recipient a section names, if it names one. -/
def reportedRecipient (h : MIMEHeader) : Option ReportedRecipient :=
  let final := reportedAddress m bareAddress (h.get "Final-Recipient")
  let address :=
    if final = "" then reportedAddress m bareAddress (h.get "Original-Recipient") else final
  if h = [] ∨ address = "" then none
  else some ⟨address, m.normal (h.get "Action"), trimSpace (h.get "Status"),
    trimSpace (h.get "Diagnostic-Code")⟩

/-- The sections of the recipients. Each block without an error takes some of the data, so they are
at most its length. -/
def statusSections : Nat → Bytes → List ReportedRecipient
  | 0, _ => []
  | n + 1, data =>
    (reportedRecipient m bareAddress (r.readMIMEHeader data).1).toList ++
      if (r.readMIMEHeader data).2.2 then [] else statusSections n (r.readMIMEHeader data).2.1

/-- What follows the section of the message, which blank lines may come before. -/
def afterMessageSection : Nat → Bytes → Option Bytes
  | 0, _ => none
  | n + 1, data =>
    if (r.readMIMEHeader data).2.2 then none
    else if (r.readMIMEHeader data).1 = [] then afterMessageSection n (r.readMIMEHeader data).2.1
    else some (r.readMIMEHeader data).2.1

def parseStatusFields (data : Bytes) : List ReportedRecipient :=
  match afterMessageSection r (data.length + 1) data with
  | none => []
  | some rest => statusSections r m bareAddress (rest.length + 1) rest

def maxReportPart : Nat := 65536

def isStatus (mediaType : String) : Bool :=
  mediaType = "message/delivery-status" || mediaType = "message/global-delivery-status"

def isReturned (mediaType : String) : Bool :=
  mediaType ∈ ["text/rfc822-headers", "message/rfc822", "message/global", "message/global-headers"]

/-- The first part of a kind, cut to what is read of it. -/
def firstPart (kind : String → Bool) (parts : List Part) : Option Bytes :=
  (parts.find? fun p => (r.parseMediaType p.contentType).any kind).map fun p =>
    p.data.take maxReportPart

/-- The header block of the first returned part that has one with fields. -/
def returnedHeaders (parts : List Part) : MIMEHeader :=
  (parts.filter fun p => (r.parseMediaType p.contentType).any isReturned).findSome? (fun p =>
    let h := (r.readMIMEHeader (p.data.take maxReportPart)).1
    if h = [] then none else some h) |>.getD []

def parseDeliveryReport (parts : List Part) : Option DeliveryReport :=
  match firstPart r isStatus parts with
  | none => none
  | some data =>
    let recipients := parseStatusFields r m bareAddress data
    if recipients = [] then none else some ⟨recipients, returnedHeaders r parts⟩

end

section
variable {r : MimeReader} {m : CaseMapping} {bareAddress : String → String}

/-- More steps than the data is long change nothing: the reader has reached its end. -/
theorem statusSections_enough {n k : Nat} {data : Bytes} (enough : data.length < n) (more : n ≤ k) :
    statusSections r m bareAddress k data = statusSections r m bareAddress n data := by
  induction n generalizing k data with
  | zero => omega
  | succ _ ih =>
    obtain ⟨j, rfl⟩ : ∃ j, k = j + 1 := ⟨k - 1, by omega⟩
    unfold statusSections
    cases ended : (r.readMIMEHeader data).2.2 with
    | true => rfl
    | false =>
      have less := r.shorter data ended
      rw [ih (k := j) (by omega) (by omega)]

theorem ref_clean {parts : List Part} {report : DeliveryReport} {ref : String}
    (parsed : parseDeliveryReport r m bareAddress parts = some report) (quoted : ref ∈ report.refs) :
    Char.ofNat 0 ∉ ref.toList := by
  unfold parseDeliveryReport at parsed
  split at parsed
  · cases parsed
  simp only at parsed
  split at parsed
  · cases parsed
  cases parsed
  unfold DeliveryReport.refs returnedHeaders at quoted
  cases found : (parts.filter fun p => (r.parseMediaType p.contentType).any isReturned).findSome?
      (fun p => if (r.readMIMEHeader (p.data.take maxReportPart)).1 = [] then none
        else some (r.readMIMEHeader (p.data.take maxReportPart)).1) with
  | none =>
    rw [found] at quoted
    cases quoted
  | some block =>
    rw [found] at quoted
    obtain ⟨p, _, read⟩ := exists_of_findSome?_eq_some found
    split at read
    · cases read
    cases read
    simp only [Option.getD_some] at quoted
    cases looked : (r.readMIMEHeader (p.data.take maxReportPart)).1.lookup "X-Panmail-Ref" with
    | none =>
      rw [looked] at quoted
      cases quoted
    | some values =>
      rw [looked] at quoted
      obtain ⟨before, after, split_, _⟩ := lookup_eq_some_iff.mp looked
      have mem : ("X-Panmail-Ref", values) ∈
          (r.readMIMEHeader (p.data.take maxReportPart)).1 := by
        rw [split_]
        simp
      exact r.clean _ "X-Panmail-Ref" values mem ref quoted

end

/-! ### What a report can cause -/

/-- `VerifyBounceRef` as `recordBounce` asks it, of a signer with a key. -/
def bounceVerifier (h : Mac) (m : CaseMapping) (s : Signer) :
    Option (String → String → String → Option String) :=
  if s.hasKey then some fun ref tenantID recipient =>
    (s.verifyBounceRef h m ref tenantID recipient).toOption
  else none

variable {h : Mac} {s : Signer} {verify : String → String → String → Option String}
  {tenantID recipient messageID : String}

theorem bounceVerifier_some {m : CaseMapping} (keyed : bounceVerifier h m s = some verify)
    {ref : String} (verified : verify ref tenantID recipient = some messageID) :
    s.verifyBounceRef h m ref tenantID recipient = .ok messageID := by
  unfold bounceVerifier at keyed
  split at keyed
  · cases keyed
    cases answer : s.verifyBounceRef h m ref tenantID recipient with
    | error => simp [answer, Except.toOption] at verified
    | ok => simpa [answer, Except.toOption] using verified
  · cases keyed

/-- The MACs that the report's references present are not forged. -/
def DeliveryReport.Unforged (h : Mac) (key : Bytes) (log : SigningLog) (report : DeliveryReport) :
    Prop :=
  ∀ ref ∈ report.refs, ∀ messageID sig, splitRef ref = .ok (messageID, sig) →
    UnforgedSignature h key log (utf8 sig)

/-- The report quotes the reference that was made for a copy. -/
def DeliveryReport.Carries (h : Mac) (w : SendPath) (m : Minting) (report : DeliveryReport) : Prop :=
  ∃ ref ∈ report.refs, ∃ sig, splitRef ref = .ok (m.copy.messageID, sig) ∧
    Base64.decode (utf8 sig) = some (h.sum m.key (canonical (m.copy.bounceLink w)))

/-- The history of a tenant shows a message handed to a provider for an address. -/
def Call.ShowsSent (u : Usecase) (c : Call) (tenantID messageID address : String) : Prop :=
  ∃ events, c.listByMessageID tenantID messageID = some events ∧
    ∃ e ∈ events, (e.type = .sent ∨ e.type = .delivered) ∧ e.tenantID = tenantID ∧
      u.bareAddress e.recipient = address

section
variable {u : Usecase} {c : Call} {address : String}

/-- Where a bounce comes from: a recipient of the report, the first reference that verifies for
it, and the history. -/
theorem mem_recordBounce {e : Effect} (mem : e ∈ recordBounce u c) :
    ∃ report verify rcpt messageID type, c.report = some report ∧ u.verifyBounceRef = some verify ∧
      rcpt ∈ report.recipients ∧
      (∃ ref ∈ report.refs, verify ref c.email.tenantID rcpt.address = some messageID) ∧
      c.ShowsSent u c.email.tenantID messageID rcpt.address ∧
      e = .bounce c.email.tenantID messageID type rcpt.address rcpt.diagnostic c.email.subject
        c.email.id rcpt.status := by
  unfold recordBounce at mem
  split at mem
  next report verify reported signs =>
    split at mem
    · cases mem
    obtain ⟨rcpt, named, made⟩ := mem_filterMap.mp mem
    obtain ⟨type, _, made⟩ := Option.bind_eq_some_iff.mp made
    split at made
    · cases made
    · cases made
    next messageID _ found =>
      split at made <;> cases made
      next sent =>
        obtain ⟨ref, quoted, verified⟩ := exists_of_findSome?_eq_some found
        exact ⟨report, verify, rcpt, messageID, type, reported, signs, named,
          ⟨ref, quoted, verified⟩, by
            simpa [wasSentTo, Call.ShowsSent, Option.any_eq_true, and_assoc] using sent, rfl⟩
  next => cases mem

/-- A reference that verifies is the reference of a copy that was sent, for the same tenant and
address. -/
theorem verified_minted {w : SendPath} {sent : List Minting} {ref : String}
    (clean : Char.ofNat 0 ∉ ref.toList) (tenant : 0 ∉ utf8 tenantID)
    (unforged : ∀ id sig, splitRef ref = .ok (id, sig) →
      UnforgedSignature h s.key (signingLog h w sent) (utf8 sig))
    (verified : s.verifyBounceRef h w.unicode ref tenantID address = .ok messageID) :
    ∃ m ∈ sent, m.key = s.key ∧ m.copy.tenantID = tenantID ∧ m.copy.messageID = messageID ∧
      w.unicode.normal (m.copy.address w) = w.unicode.normal address ∧
      ∃ sig, splitRef ref = .ok (messageID, sig) ∧
        Base64.decode (utf8 sig) = some (h.sum m.key (canonical (m.copy.bounceLink w))) := by
  obtain ⟨sig, parts, accepted⟩ := verifyBounceRef_ok verified
  obtain ⟨_, decoded⟩ := verify_ok accepted
  obtain ⟨signed, logged, same⟩ := verify_signed accepted (unforged messageID sig parts)
  obtain ⟨m, inside, key, among⟩ := mem_signingLog logged
  have of := Minting.linkOf among
  have message : 0 ∉ utf8 messageID :=
    notMem_utf8 (c := Char.ofNat 0) (by decide) (fun nul => clean (mem_of_splitRef parts nul)) rfl
  -- neither the ids of the copy nor those of the reference have a NUL, so the fields line up
  obtain ⟨kind, tenants, messages, rest⟩ := canonical_ids (a := signed)
    ⟨of.ids.1 ▸ m.copy.tenant_plain, tenant⟩ ⟨of.ids.2 ▸ m.copy.message_plain, message⟩ same
  cases of with
  | open_ | click url valid | unsubscribe =>
    simp [Outgoing.openLink, Outgoing.clickLink, Outgoing.unsubscribeLink, bounceLink] at kind
  | bounce =>
    simp only [Outgoing.bounceLink, bounceLink] at tenants messages rest
    have recipient := append_cancel_right rest
    refine ⟨m, inside, key, utf8_inj.mp tenants, utf8_inj.mp messages, utf8_inj.mp recipient, sig,
      parts, ?_⟩
    rw [decoded, key, same]

end

def tableReader (blocks : List (Bytes × MIMEHeader × Bytes))
    (shorter : ∀ b ∈ blocks, b.2.2.length < b.1.length)
    (clean : ∀ b ∈ blocks, ∀ field ∈ b.2.1, ∀ v ∈ field.2, Char.ofNat 0 ∉ v.toList) :
    MimeReader where
  parseMediaType := some
  readMIMEHeader data :=
    match blocks.find? fun b => b.1 = data with
    | some b => (b.2.1, b.2.2, false)
    | none => ([], [], true)
  shorter := by
    intro data ended
    split
    next b found =>
      have here : b.1 = data := by simpa using find?_some found
      exact here ▸ shorter b (mem_of_find?_eq_some found)
    next missing =>
      rw [missing] at ended
      cases ended
  clean := by
    intro data name values
    split
    next b found => exact fun mem => clean b (mem_of_find?_eq_some found) _ mem
    next => exact nofun

namespace Genuine

def copy : Outgoing := ⟨"t", "m", "A <a@x>", "", by decide, by decide⟩

def minting : Minting := ⟨[7], "", copy⟩

def sendPath : SendPath := ⟨.ascii, fun _ => some "a@x", fun _ => [], fun _ => none,
  fun _ _ => rfl⟩

def ref : String := Signer.bounceRef .example .ascii ⟨[7]⟩ "t" "m" "a@x"

def messageSection : String := "Reporting-MTA: dns; y\r\n\r\n"

def recipientSection : String := "Final-Recipient: rfc822; A@x\r\nAction: delayed\r\n\r\n"

def returnedBlock : String := "X-Panmail-Ref: " ++ ref ++ "\r\n\r\n"

def parts : List Part :=
  [⟨"message/delivery-status", utf8 (messageSection ++ recipientSection)⟩,
    ⟨"text/rfc822-headers", utf8 returnedBlock⟩]

def reader : MimeReader := tableReader
  [(utf8 (messageSection ++ recipientSection), [("Reporting-Mta", ["dns; y"])],
      utf8 recipientSection),
    (utf8 recipientSection, [("Final-Recipient", ["rfc822; A@x"]), ("Action", ["delayed"])], []),
    (utf8 returnedBlock, [("X-Panmail-Ref", [ref])], [])]
  (by decide) (by decide)

def usecase : Usecase where
  verifyBounceRef := bounceVerifier .example .ascii ⟨[7]⟩
  caseMapping := .ascii
  bareAddress := CaseMapping.ascii.normal
  announces := true

def call : Call where
  email := ⟨"id", "t", "daemon@y", ["box@z"], "Delayed", "", "", some 0, []⟩
  report := parseDeliveryReport reader .ascii usecase.bareAddress parts
  now := 0
  screening := none
  listByMessageID _ _ := some [⟨"e", "t", "", "", "m", .sent, "a@x", "", 0, ""⟩]
  lookupFails := false
  writeFails := false
  recordFails := false

def bounce : Effect := .bounce "t" "m" .softBounce "a@x" "" "Delayed" "id" ""

/-- The reference is the one of the copy, and so is its MAC. -/
theorem unforged {sig : String} (parts : splitRef ref = .ok (messageID, sig)) :
    UnforgedSignature .example [7] (signingLog .example sendPath [minting]) (utf8 sig) := by
  intro value decoded m _
  have present : Mac.example.sum [7] (canonical (bounceLink .ascii "t" "m" "a@x")) ≠ [] := by
    simp [Mac.example]
  have verified : verifyBounceRef .example .ascii ⟨[7]⟩ ref "t" "a@x" = .ok "m" :=
    verifyBounceRef_bounceRef (s := ⟨[7]⟩) rfl (by decide) present rfl
  obtain ⟨also, ofRef, accepted⟩ := verifyBounceRef_ok verified
  cases parts.symm.trans ofRef
  obtain ⟨_, sum⟩ := verify_ok accepted
  have logged : ([7], bounceLink .ascii "t" "m" "a@x") ∈ signingLog .example sendPath [minting] := by
    simp [signingLog, Minting.signed, Minting.links, minting, Outgoing.bounceLink, copy,
      Outgoing.address, sendPath]
  exact ⟨_, logged, Option.some.inj (decoded.symm.trans sum)⟩

end Genuine

end Panmail.Inbound
