import Panmail.Lib.Run
import Panmail.Tracking.Links

/-!
# The open, click and unsubscribe endpoints

Each endpoint reads a tenant, a message and a recipient from the path and asks the signer whether
the link was signed. The click endpoint has a second way in: where the signature does not verify, a
destination that the stored message contains is enough. The stored message says nothing about the
recipient in the path, so that way records a click for whoever the request names.
-/
namespace Panmail.Tracking

open ByteStrings Runs List

/-! ### Requests -/

inductive Method where
  | get | head | post | other
  deriving DecidableEq

/-- `http.Request`, with the path and the query values decoded. -/
structure Request where
  method : Method
  path : Bytes
  /-- `Query().Get("sig")`. -/
  sig : Bytes
  /-- `Query().Get("url")`. -/
  url : Bytes

def slash : Byte := 47

structure SignedRequest where
  tenantID : Bytes
  messageID : Bytes
  recipient : Bytes
  signature : Bytes

def segments (path : Bytes) : List Bytes :=
  ((path.dropWhile (· = slash)).rdropWhile (· = slash)).splitOn slash

/-- `parseSignedRequest`, given the segments after the skipped ones. -/
def parseSignedRequest (r : Request) (prefixSegments : Nat) : Option SignedRequest :=
  match (segments r.path).drop prefixSegments with
  | tenantID :: messageID :: [] => some ⟨tenantID, messageID, [], r.sig⟩
  | tenantID :: messageID :: encoded :: _ =>
    (Base64.decode encoded).map fun recipient => ⟨tenantID, messageID, recipient, r.sig⟩
  | _ => none

def SignedRequest.link (q : SignedRequest) (kind : Kind) (targetURL : Bytes) : Link :=
  ⟨kind, q.tenantID, q.messageID, q.recipient, targetURL⟩

/-! ### The gateway -/

/-- `EmailMessage`, as it is stored for analytics. -/
structure StoredMessage where
  tenantID : String
  messageID : String
  bodyHTML : String

/-- The gateway: its tracking key, the copies it has sent, and the messages it stores. -/
structure Gateway where
  key : Bytes
  sent : List Minting
  messages : List StoredMessage

/-- What an endpoint writes down: `RecordEvent` of a type, or `Add` of a suppression. -/
inductive Act where
  | opened | clicked | unsubscribed | suppressed
  deriving DecidableEq

def Act.kind : Act → Kind
  | .opened => .open_
  | .clicked => .click
  | .unsubscribed | .suppressed => .unsubscribe

structure Entry where
  act : Act
  tenantID : Bytes
  messageID : Bytes
  recipient : Bytes
  deriving DecidableEq

def SignedRequest.entry (q : SignedRequest) (act : Act) : Entry :=
  ⟨act, q.tenantID, q.messageID, q.recipient⟩

section
variable (h : Mac) (w : SendPath) (g : Gateway)

def Gateway.verifies (q : SignedRequest) (l : Link) : Bool :=
  (Signer.verify h ⟨g.key⟩ l q.signature).isOk

def SendPath.linkTargets (htmlBody : String) : List String :=
  ((w.hrefs htmlBody).filter fun url => w.validTarget (utf8 url)).eraseDups

def Gateway.getMessage (tenantID messageID : Bytes) : Option StoredMessage :=
  g.messages.find? fun m => utf8 m.tenantID = tenantID ∧ utf8 m.messageID = messageID

def Gateway.wasSentInThisMessage (q : SignedRequest) (target : Bytes) : Bool :=
  q.tenantID ≠ [] && q.messageID ≠ [] &&
    (g.getMessage q.tenantID q.messageID).any fun m =>
      (w.linkTargets m.bodyHTML).any fun sent => utf8 sent = target

def Gateway.handleOpen (r : Request) : List Entry :=
  match parseSignedRequest r 2 with
  | none => []
  | some q => if g.verifies h q (q.link .open_ []) then [q.entry .opened] else []

def Gateway.handleClick (r : Request) : List Entry :=
  match parseSignedRequest r 2 with
  | none => []
  | some q =>
    if r.url = [] then []
    else if !g.verifies h q (q.link .click r.url) && !g.wasSentInThisMessage w q r.url then []
    else if w.validTarget r.url then [q.entry .clicked]
    else []

/-- `ServeHTTP` of the unsubscribe handler. -/
def Gateway.serveUnsubscribe (r : Request) : List Entry :=
  match parseSignedRequest r 1 with
  | none => []
  | some q =>
    if !g.verifies h q (q.link .unsubscribe []) then []
    else if r.method = .post ∧ q.recipient ≠ [] then [q.entry .suppressed, q.entry .unsubscribed]
    else []

end

inductive Endpoint where
  | open_ | click | unsubscribe

inductive Label where
  | setKey (key : Bytes)
  /-- A copy is sent, with the key of the moment. -/
  | send (baseURL : String) (copy : Outgoing)
  | saveMessage (m : StoredMessage)
  | dropMessage (tenantID messageID : String)
  | request (endpoint : Endpoint) (r : Request)

def Gateway.records (h : Mac) (w : SendPath) (g : Gateway) : Label → List Entry
  | .request .open_ r => g.handleOpen h r
  | .request .click r => g.handleClick h w r
  | .request .unsubscribe r => g.serveUnsubscribe h r
  | _ => []

def Gateway.step (g : Gateway) : Label → Option Gateway
  | .setKey key => some { g with key }
  | .send baseURL copy => some { g with sent := g.sent ++ [⟨g.key, baseURL, copy⟩] }
  | .saveMessage m => some { g with messages := m :: g.messages }
  | .dropMessage tenantID messageID =>
    some { g with messages := g.messages.filter fun m =>
      ¬ (m.tenantID = tenantID ∧ m.messageID = messageID) }
  | .request _ _ => some g

def Gateway.start (key : Bytes) : Gateway := ⟨key, [], []⟩

/-! ### What is recorded was signed for -/

/-- The send path signed a link of the entry's kind, for its tenant, message and recipient. -/
def Gateway.Minted (h : Mac) (w : SendPath) (g : Gateway) (e : Entry) : Prop :=
  ∃ p ∈ signingLog h w g.sent, p.2.kind = e.act.kind ∧ p.2.tenantID = e.tenantID ∧
    p.2.messageID = e.messageID ∧ p.2.recipient = e.recipient

instance (h : Mac) (w : SendPath) (g : Gateway) (e : Entry) : Decidable (g.Minted h w e) :=
  inferInstanceAs (Decidable (∃ p ∈ signingLog h w g.sent, _))

/-- What a step records is for a link that was signed. -/
def Gateway.Sound (h : Mac) (w : SendPath) (g : Gateway) (a : Label) : Prop :=
  ∀ e ∈ g.records h w a, g.Minted h w e

instance (h : Mac) (w : SendPath) (g : Gateway) (a : Label) : Decidable (g.Sound h w a) :=
  inferInstanceAs (Decidable (∀ e ∈ g.records h w a, _))

/-- Nobody presents a forged MAC, and no recipient's text has a NUL byte in it, which joins the
signed fields. -/
def Gateway.Honest (h : Mac) (w : SendPath) (g : Gateway) : Label → Prop
  | .request _ r => UnforgedSignature h g.key (signingLog h w g.sent) r.sig
  | .send _ copy => 0 ∉ utf8 copy.recipient
  | _ => True

open Gateway

/-- A click whose signature does not verify, and whose destination is in the stored message it
names, is for a recipient that a click link was signed for. -/
def Gateway.Guarded (h : Mac) (w : SendPath) (g : Gateway) : Label → Prop
  | .request .click r => ∀ q, parseSignedRequest r 2 = some q → r.url ≠ [] →
    g.verifies h q (q.link .click r.url) = false → g.wasSentInThisMessage w q r.url = true →
    g.Minted h w (q.entry .clicked)
  | _ => True

section
variable {h : Mac} {w : SendPath} {g : Gateway} {q : SignedRequest} {l : Link} {r : Request}
  {a : Label}

theorem signature_of_parse {n : Nat} (parsed : parseSignedRequest r n = some q) :
    q.signature = r.sig := by
  unfold parseSignedRequest at parsed
  split at parsed
  · cases parsed
    rfl
  · obtain ⟨recipient, _, rfl⟩ := Option.map_eq_some_iff.mp parsed
    rfl
  · cases parsed

/-- No recipient of a copy has a NUL in it. -/
def Gateway.Plain (g : Gateway) : Prop := ∀ m ∈ g.sent, 0 ∉ utf8 m.copy.recipient

theorem logged_of_verifies (plain : g.Plain) (other : l.kind ≠ .bounce)
    (unforged : UnforgedSignature h g.key (signingLog h w g.sent) q.signature)
    (verified : g.verifies h q l = true) : (g.key, l) ∈ signingLog h w g.sent := by
  have accepted : Signer.verify h ⟨g.key⟩ l q.signature = .ok () := by
    unfold verifies at verified
    cases answer : Signer.verify h ⟨g.key⟩ l q.signature with
    | error =>
      rw [answer] at verified
      cases verified
    | ok => rfl
  obtain ⟨signed, logged, same⟩ := Signer.verify_signed accepted unforged
  obtain ⟨m, inside, _, among⟩ := mem_signingLog logged
  have of := Minting.linkOf among
  -- the joined fields start with the kind, so the signed link is no reference either
  have kind : signed.kind = l.kind := by
    have start := same
    exact Kind.text_inj (Text.append_separator_inj signed.kind.nul_notMem l.kind.nul_notMem start).1
  have exact_ := canonical_inj (of.plain (plain m inside) (kind ▸ other)) same
  exact exact_ ▸ logged

theorem minted_of_verifies (act : Act) {targetURL : Bytes} (plain : g.Plain)
    (unforged : UnforgedSignature h g.key (signingLog h w g.sent) q.signature)
    (verified : g.verifies h q (q.link act.kind targetURL) = true) :
    g.Minted h w (q.entry act) := by
  have other : (q.link act.kind targetURL).kind ≠ .bounce := by cases act <;> exact nofun
  exact ⟨_, logged_of_verifies plain other unforged verified, rfl, rfl, rfl, rfl⟩

section
variable {e : Entry} (plain : g.Plain)
  (unforged : UnforgedSignature h g.key (signingLog h w g.sent) r.sig)
include plain unforged

theorem handleOpen_minted (mem : e ∈ g.handleOpen h r) : g.Minted h w e := by
  unfold handleOpen at mem
  split at mem
  · cases mem
  next q parsed =>
    split at mem
    next verified =>
      rw [mem_singleton] at mem
      rw [← signature_of_parse parsed] at unforged
      exact mem ▸ minted_of_verifies .opened plain unforged verified
    · cases mem

theorem serveUnsubscribe_minted (mem : e ∈ g.serveUnsubscribe h r) : g.Minted h w e := by
  unfold serveUnsubscribe at mem
  split at mem
  · cases mem
  next q parsed =>
    split at mem
    · cases mem
    next verified =>
      simp only [Bool.not_eq_true', Bool.not_eq_false] at verified
      rw [← signature_of_parse parsed] at unforged
      split at mem
      · simp only [mem_cons, not_mem_nil, or_false] at mem
        rcases mem with rfl | rfl
        · exact minted_of_verifies .suppressed plain unforged verified
        · exact minted_of_verifies .unsubscribed plain unforged verified
      · cases mem

end

theorem handleClick_cases {e : Entry} (mem : e ∈ g.handleClick h w r) :
    ∃ q, parseSignedRequest r 2 = some q ∧ e = q.entry .clicked ∧
      (g.verifies h q (q.link .click r.url) = true ∨
        g.verifies h q (q.link .click r.url) = false ∧ g.wasSentInThisMessage w q r.url = true) := by
  unfold handleClick at mem
  split at mem
  · cases mem
  next q parsed =>
    split at mem
    · cases mem
    split at mem
    · cases mem
    next accepted =>
      split at mem
      · rw [mem_singleton] at mem
        refine ⟨q, parsed, mem, ?_⟩
        cases verified : g.verifies h q (q.link .click r.url) with
        | true => exact .inl rfl
        | false => exact .inr ⟨rfl, by simpa [verified] using accepted⟩
      · cases mem

theorem handleClick_of_stored (parsed : parseSignedRequest r 2 = some q) (targeted : r.url ≠ [])
    (stored : g.wasSentInThisMessage w q r.url = true) :
    q.entry .clicked ∈ g.handleClick h w r := by
  -- the destinations of a stored message are valid ones, so the last check passes
  have valid : w.validTarget r.url = true := by
    have found := stored
    simp only [wasSentInThisMessage, Bool.and_eq_true, Option.any_eq_true,
      any_eq_true, decide_eq_true_eq] at found
    obtain ⟨_, m, _, sent, among, same⟩ := found
    rw [SendPath.linkTargets, mem_eraseDups] at among
    exact same ▸ (mem_filter.mp among).2
  unfold handleClick
  rw [parsed]
  simp [targeted, stored, valid]

theorem Gateway.sound_iff (honest : g.Honest h w a) (plain : g.Plain) :
    g.Sound h w a ↔ g.Guarded h w a := by
  cases a with
  | setKey | send | saveMessage | dropMessage => exact ⟨fun _ => trivial, fun _ _ => nofun⟩
  | request endpoint r =>
    cases endpoint with
    | open_ => exact ⟨fun _ => trivial, fun _ e mem => handleOpen_minted plain honest mem⟩
    | unsubscribe =>
      exact ⟨fun _ => trivial, fun _ e mem => serveUnsubscribe_minted plain honest mem⟩
    | click =>
      constructor
      · intro sound q parsed targeted _ stored
        exact sound _ (handleClick_of_stored parsed targeted stored)
      · intro guarded e mem
        obtain ⟨q, parsed, rfl, verified | ⟨failed, stored⟩⟩ := handleClick_cases mem
        · have unforged : UnforgedSignature h g.key (signingLog h w g.sent) q.signature :=
            signature_of_parse parsed ▸ honest
          exact minted_of_verifies .clicked plain unforged verified
        · by_cases targeted : r.url = []
          · simp [records, handleClick, parsed, targeted] at mem
          · exact guarded q parsed targeted failed stored

theorem Gateway.Plain.step {t : Gateway} (honest : g.Honest h w a) (plain : g.Plain)
    (taken : g.step a = some t) : t.Plain := by
  cases a with
  | send =>
    cases taken
    exact forall_mem_concat plain honest
  | setKey | saveMessage | dropMessage | request =>
    cases taken
    exact plain

end

/-- Over every history of sent copies, key changes and requests, an event or a suppression is
recorded only where a link of its kind was signed for its tenant, message and recipient, exactly
when no click without a valid signature is let in for a recipient without a click link. -/
theorem recorded_minted_iff (h : Mac) (w : SendPath) (key : Bytes) (as : List Label)
    (honest : AllSteps Gateway.step (Gateway.Honest h w) (Gateway.start key) as) :
    AllSteps Gateway.step (Gateway.Sound h w) (Gateway.start key) as ↔
      AllSteps Gateway.step (Gateway.Guarded h w) (Gateway.start key) as := by
  apply allSteps_iff Gateway.step (Gateway.Honest h w) _ _ Gateway.Plain
  · intro g a t honest plain taken
    exact plain.step honest taken
  · intro g a honest plain
    exact Gateway.sound_iff honest plain
  · intro m member
    cases member
  · exact honest

/-! ### A click for somebody else -/

namespace Sample

def sendPath : SendPath where
  unicode := .ascii
  parseEmailAddress := some
  hrefs _ := ["http://x"]
  parseURL raw := if raw = utf8 "http://x" then some ("http", "x") else none
  no_control raw nul := if_neg fun same => absurd (same ▸ nul) (by decide)

def body : String := "<a href=\"http://x\">x</a>"

theorem tenant_plain : 0 ∉ utf8 "t" := by decide

theorem message_plain : 0 ∉ utf8 "m" := by decide

def copy : Outgoing := ⟨"t", "m", "ana@y", body, tenant_plain, message_plain⟩

def click (recipient : String) (sig : Bytes) : Request :=
  ⟨.get, utf8 "/track/click/t/m/" ++ Base64.encode (utf8 recipient), sig, utf8 "http://x"⟩

def setup : List Label := [.saveMessage ⟨"t", "m", body⟩, .send "http://g" copy]

theorem honest_setup (key : Bytes) (r : Request) (unforged : UnforgedSignature .example key
      (signingLog .example sendPath [⟨key, "http://g", copy⟩]) r.sig) :
    AllSteps step (Gateway.Honest .example sendPath) (start key)
      (setup ++ [.request .click r]) := by
  have plain : 0 ∉ utf8 copy.recipient := by decide
  refine ⟨trivial, fun t taken => ?_⟩
  cases taken
  refine ⟨plain, fun t taken => ?_⟩
  cases taken
  exact ⟨unforged, fun _ _ => trivial⟩

end Sample

/-- Ana follows the link of their copy. -/
theorem recorded_minted_click :
    AllSteps Gateway.step (Gateway.Guarded .example Sample.sendPath) (Gateway.start [7])
      (Sample.setup ++ [.request .click (Sample.click "ana@y"
        (Signer.sign .example ⟨[7]⟩ (Sample.copy.clickLink "http://x")))]) := by
  refine (recorded_minted_iff .example Sample.sendPath [7] _ (Sample.honest_setup [7] _ ?_)).mp
    (by decide)
  intro value decoded m _
  have sum : Base64.decode (Signer.sign .example ⟨[7]⟩ (Sample.copy.clickLink "http://x")) =
      some (Mac.example.sum [7] (canonical (Sample.copy.clickLink "http://x"))) :=
    Base64.decode_encode _
  exact ⟨([7], Sample.copy.clickLink "http://x"), by decide,
    Option.some.inj (decoded.symm.trans sum)⟩

/-- Somebody asks for the message's link with Bob's address and no signature: a click is recorded
for Bob. -/
theorem clicked_for_another :
    AllSteps Gateway.step (Gateway.Honest .example Sample.sendPath) (Gateway.start [7])
      (Sample.setup ++ [.request .click (Sample.click "bob@y" [])]) ∧
    (∃ g, exec Gateway.step (Gateway.start [7]) Sample.setup = some g ∧
      ⟨.clicked, utf8 "t", utf8 "m", utf8 "bob@y"⟩ ∈
        g.records .example Sample.sendPath (.request .click (Sample.click "bob@y" [])) ∧
      ∀ p ∈ signingLog .example Sample.sendPath g.sent, p.2.recipient ≠ utf8 "bob@y") ∧
    ¬ AllSteps Gateway.step (Gateway.Sound .example Sample.sendPath) (Gateway.start [7])
      (Sample.setup ++ [.request .click (Sample.click "bob@y" [])]) := by
  refine ⟨Sample.honest_setup [7] _ ?_, ⟨_, rfl, by decide, by decide⟩,
    by decide⟩
  intro value decoded m same
  -- no signature presents no bytes, and a MAC has some
  cases decoded
  simp [Mac.example] at same

end Panmail.Tracking
