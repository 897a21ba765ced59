import Panmail.Tracking.Signer

/-!
# What the send path signs

For each copy of a message the send path signs the open pixel and every web link of the body,
the unsubscribe link and the bounce reference. The signing log is made of these and of nothing
else.
-/
namespace Panmail.Tracking

open ByteStrings Text List

/-- The libraries the send path calls. -/
structure SendPath where
  unicode : CaseMapping
  /-- `gsmail.ParseEmailAddress`: the addr-spec. -/
  parseEmailAddress : String → Option String
  /-- What `HrefPattern` finds in a body, each value through `UnescapeHrefValue`. -/
  hrefs : String → List String
  /-- `url.Parse`: the scheme and the host. -/
  parseURL : Bytes → Option (String × String)
  /-- A URL with a control character is refused. -/
  no_control : ∀ raw, 0 ∈ raw → parseURL raw = none

/-- The copy of a message for one recipient. The ids are UUIDs. -/
structure Outgoing where
  tenantID : String
  messageID : String
  recipient : String
  bodyHTML : String
  tenant_plain : 0 ∉ utf8 tenantID
  message_plain : 0 ∉ utf8 messageID

def SendPath.validTarget (w : SendPath) (raw : Bytes) : Bool :=
  match w.parseURL raw with
  | none => false
  | some (scheme, host) =>
    (w.unicode.toLower scheme = "http" || w.unicode.toLower scheme = "https") && host ≠ ""

namespace Outgoing

def openLink (o : Outgoing) : Link :=
  ⟨.open_, utf8 o.tenantID, utf8 o.messageID, utf8 o.recipient, []⟩

def clickLink (o : Outgoing) (originalURL : String) : Link :=
  ⟨.click, utf8 o.tenantID, utf8 o.messageID, utf8 o.recipient, utf8 originalURL⟩

def unsubscribeLink (o : Outgoing) : Link :=
  ⟨.unsubscribe, utf8 o.tenantID, utf8 o.messageID, utf8 o.recipient, []⟩

/-- The address `setBounceRef` signs. -/
def address (w : SendPath) (o : Outgoing) : String :=
  (w.parseEmailAddress o.recipient).getD o.recipient

def bounceLink (w : SendPath) (o : Outgoing) : Link :=
  Tracking.bounceLink w.unicode o.tenantID o.messageID (o.address w)

end Outgoing

/-- The text up to the last occurrence of a word, and from it on. -/
def cutLast (word : List Char) : List Char → Option (List Char × List Char)
  | [] => none
  | c :: s =>
    match cutLast word s with
    | some (before, after) => some (c :: before, after)
    | none => if word.isPrefixOf (c :: s) then some ([], c :: s) else none

/-- `injectPixel`, with the pixel it puts before the end of the body. -/
def injectPixel (htmlContent pixel : String) : String :=
  match cutLast "</body>".toList htmlContent.toList with
  | some (before, after) => String.ofList (before ++ pixel.toList ++ after)
  | none => htmlContent ++ pixel

/-- A copy as it is sent: the key and the base URL are those of that moment. -/
structure Minting where
  key : Bytes
  baseURL : String
  copy : Outgoing

namespace Minting

def pixel (h : Mac) (m : Minting) : String :=
  "<img src=\"" ++ m.baseURL ++ "/track/open/" ++ m.copy.tenantID ++ "/" ++ m.copy.messageID ++ "/" ++
    ofAscii (Base64.encode (utf8 m.copy.recipient)) ++ "?sig=" ++
    ofAscii (Signer.sign h ⟨m.key⟩ m.copy.openLink) ++
    "\" width=\"1\" height=\"1\" style=\"display:none\">"

/-- The destinations `rewriteLinks` signs. -/
def targets (h : Mac) (w : SendPath) (m : Minting) : List String :=
  (w.hrefs (injectPixel m.copy.bodyHTML (m.pixel h))).filter fun url => w.validTarget (utf8 url)

/-- The links that are signed for the copy: those of `injectTracking`, the one of
`setUnsubscribeHeaders`, and the one of `setBounceRef`. -/
def links (h : Mac) (w : SendPath) (m : Minting) : List Link :=
  (if m.baseURL ≠ "" ∧ m.copy.bodyHTML ≠ "" then
    m.copy.openLink :: (m.targets h w).map m.copy.clickLink else []) ++
  (if m.baseURL ≠ "" then [m.copy.unsubscribeLink] else []) ++ [m.copy.bounceLink w]

/-- Nothing is signed without a key. -/
def signed (h : Mac) (w : SendPath) (m : Minting) : SigningLog :=
  if m.key = [] then [] else (m.links h w).map fun l => (m.key, l)

end Minting

def signingLog (h : Mac) (w : SendPath) (sent : List Minting) : SigningLog :=
  sent.flatMap (Minting.signed h w)

section
variable {h : Mac} {w : SendPath} {m : Minting} {l : Link} {o : Outgoing}

/-- A link of a copy, by its kind. -/
inductive LinkOf (w : SendPath) (o : Outgoing) : Link → Prop
  | open_ : LinkOf w o o.openLink
  | click (url : String) (valid : w.validTarget (utf8 url) = true) : LinkOf w o (o.clickLink url)
  | unsubscribe : LinkOf w o o.unsubscribeLink
  | bounce : LinkOf w o (o.bounceLink w)

theorem Minting.linkOf (mem : l ∈ m.links h w) : LinkOf w m.copy l := by
  simp only [Minting.links, mem_append, mem_singleton] at mem
  rcases mem with (tracked | unsubscribed) | rfl
  · split at tracked
    · rcases mem_cons.mp tracked with rfl | clicked
      · exact .open_
      · obtain ⟨url, among, rfl⟩ := mem_map.mp clicked
        exact .click url (mem_filter.mp among).2
    · cases tracked
  · split at unsubscribed
    · rw [mem_singleton] at unsubscribed
      exact unsubscribed ▸ .unsubscribe
    · cases unsubscribed
  · exact .bounce

theorem LinkOf.ids (of : LinkOf w o l) :
    l.tenantID = utf8 o.tenantID ∧ l.messageID = utf8 o.messageID := by
  cases of <;> exact ⟨rfl, rfl⟩

theorem SendPath.plain_of_validTarget {raw : Bytes} (valid : w.validTarget raw = true) : 0 ∉ raw := by
  intro nul
  simp [SendPath.validTarget, w.no_control raw nul] at valid

/-- A link to a recipient without a NUL has none in any field, but for the reference, which is
signed for the address. -/
theorem LinkOf.plain (of : LinkOf w o l) (recipient : 0 ∉ utf8 o.recipient)
    (other : l.kind ≠ .bounce) : l.Plain := by
  cases of with
  | open_ | unsubscribe => exact ⟨o.tenant_plain, o.message_plain, recipient, not_mem_nil⟩
  | click _ valid =>
    exact ⟨o.tenant_plain, o.message_plain, recipient, SendPath.plain_of_validTarget valid⟩
  | bounce => exact absurd rfl other

theorem mem_signingLog {sent : List Minting} {key : Bytes} (mem : (key, l) ∈ signingLog h w sent) :
    ∃ m ∈ sent, m.key = key ∧ l ∈ m.links h w := by
  obtain ⟨m, inside, entry⟩ := mem_flatMap.mp mem
  unfold Minting.signed at entry
  split at entry
  · cases entry
  obtain ⟨link, among, same⟩ := mem_map.mp entry
  cases same
  exact ⟨m, inside, rfl, among⟩

end

end Panmail.Tracking
