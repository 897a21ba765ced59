import Panmail.Events.LatestIndex

/-!
# Listing events from the Pebble store

`List` walks one of three indexes between two bounds, skips the rows whose event the filter does
not want, and returns the key it stopped before as the token of the next page.
-/
namespace Panmail.Events

open ByteStrings KeyValue Runs Text Delivery List Key Contents Option

structure ListFilter where
  pageSize : Int
  pageToken : Bytes
  recipient : String
  eventType : EventType
  startTime : Int
  endTime : Int
  messageID : String
  latestOnly : Bool
  recipientExact : Bool
  subject : String

/-- The index that answers a filter: a message's timeline, the latest events, or all. -/
inductive Walk where
  | message | latest | all
  deriving DecidableEq

def walkOf (f : ListFilter) : Walk :=
  if f.messageID ≠ "" then .message else if f.latestOnly then .latest else .all

variable {f : ListFilter}

theorem walkOf_message : walkOf f = .message ↔ f.messageID ≠ "" := by
  unfold walkOf
  split
  next present => simp [present]
  next blank => split <;> simp at blank <;> simp [blank]

def Walk.family : Walk → String
  | .message => "msg_events"
  | .latest => "latest_events"
  | .all => "events"

def containsFold (m : CaseMapping) (word s : String) : Bool :=
  contains (m.toLower word).toList (m.toLower s).toList

def bodyMatches (m : CaseMapping) (f : ListFilter) (e : EmailEvent) : Bool :=
  (f.recipient = "" || if f.recipientExact then e.recipient = f.recipient
    else containsFold m f.recipient e.recipient) &&
  (f.eventType = .unspecified || e.type = f.eventType) &&
  (f.subject = "" || containsFold m f.subject e.subject)

namespace Pebble

def indexPrefix (family tenantID : String) : Bytes :=
  utf8 family ++ colon :: (utf8 tenantID ++ [colon])

/-- What a walk through one message starts with: the recipient too, if it is given exactly. -/
def messagePrefix (f : ListFilter) : Bytes :=
  utf8 f.messageID ++ colon ::
    if f.recipient ≠ "" ∧ f.recipientExact then utf8 f.recipient ++ [colon] else []

/-- The end time is more recent, so it is the lower bound. -/
def endBound (f : ListFilter) : Bytes :=
  if f.endTime = zeroTime then []
  else formatPadded timestampWidth (int64 (maxInt64 - unixNano f.endTime)) ++ [colon]

def startBound (f : ListFilter) : Bytes :=
  if f.startTime = zeroTime then [255]
  else formatPadded timestampWidth (int64 (int64 (maxInt64 - unixNano f.startTime) + 1)) ++ [colon]

/-- The bounds of the walk: the lower is in it, the upper is not. -/
def listBounds (tenantID : String) (f : ListFilter) : Bytes × Bytes :=
  let start := indexPrefix (walkOf f).family tenantID
  match walkOf f with
  | .message => (start ++ messagePrefix f, start ++ (messagePrefix f ++ [255]))
  | .latest | .all => (start ++ endBound f, start ++ startBound f)

/-- A row that cannot be read as an event is skipped. -/
def wanted (m : CaseMapping) (f : ListFilter) (r : Bytes × Value) : Bool :=
  match r.2 with
  | .event e => bodyMatches m f e
  | .text _ => false

def body : Bytes × Value → Option EmailEvent
  | (_, .event e) => some e
  | (_, .text _) => none

def size (f : ListFilter) : Nat := if f.pageSize ≤ 0 then 50 else f.pageSize.toNat

/-- The empty token starts from the lower bound. -/
def tokenOf (token : Bytes) : Option Bytes := if token = [] then none else some token

def list (m : CaseMapping) (db : DB) (tenantID : String) (f : ListFilter) :
    List EmailEvent × Bytes :=
  let bounds := listBounds tenantID f
  let (taken, next) := pageFrom (wanted m f) (size f) (db.scan bounds.1 bounds.2)
    (tokenOf f.pageToken)
  (taken.filterMap body, next.getD [])

/-- Follow the tokens until there is none, for at most so many pages. -/
def listAll (m : CaseMapping) (db : DB) (tenantID : String) (f : ListFilter) :
    Nat → Bytes → Option (List EmailEvent)
  | 0, _ => none
  | pages + 1, token =>
    let (events, next) := list m db tenantID { f with pageToken := token }
    if next = [] then some events
    else (listAll m db tenantID f pages next).map (events ++ ·)

end Pebble

/-! ### What a listing is for -/

def InTime (f : ListFilter) (e : EmailEvent) : Prop :=
  (f.startTime ≠ zeroTime → f.startTime ≤ e.timestamp) ∧
    (f.endTime ≠ zeroTime → (e.timestamp : Int) ≤ f.endTime)

structure Matches (m : CaseMapping) (f : ListFilter) (e : EmailEvent) : Prop where
  body : bodyMatches m f e = true
  message : walkOf f = .message → e.messageID = f.messageID
  time : InTime f e

/-- The events to choose from: with `LatestOnly` and no message id those in the index of latest
events, otherwise all. -/
def Candidate (db : DB) (f : ListFilter) (e : EmailEvent) : Prop :=
  match walkOf f with
  | .latest => db.get (Key.latestEvent (pairOf e) (tsDesc e)).bytes = some (.event e)
  | .message | .all => e ∈ stored db

/-- A filter the keys can answer: a message id without a colon, and times after the start of 1970
and up to 2262, or none with a message id. -/
structure Answerable (f : ListFilter) : Prop where
  messageID : NoColon f.messageID
  startTime : f.startTime ≠ zeroTime → 0 < f.startTime ∧ f.startTime ≤ maxInt64
  endTime : f.endTime ≠ zeroTime → Datable f.endTime
  untimed : walkOf f = .message → f.startTime = zeroTime ∧ f.endTime = zeroTime

namespace Pebble

/-! ### Keys and bounds -/

section
variable {k : Key} {t : String} {rest : Bytes}

theorem bytes_msgEvent (p : Pair) (ts : Bytes) (id : String) :
    (msgEvent p ts id).bytes = indexPrefix "msg_events" p.tenantID ++ (utf8 p.messageID ++
      colon :: ((utf8 p.recipient ++ [colon]) ++ (ts ++ colon :: utf8 id))) := by
  simp [bytes, family, parts, indexPrefix]

theorem parts_of_start {family : String} (plain : NoColon family)
    (start : k.bytes = indexPrefix family t ++ rest) :
    k.family = family ∧ k.parts = utf8 t ++ colon :: rest := by
  have whole : k.bytes = utf8 family ++ colon :: (utf8 t ++ colon :: rest) :=
    start.trans (by simp [indexPrefix])
  obtain ⟨same, parts⟩ := Text.append_separator_inj k.family_plain.notMem plain.notMem whole
  exact ⟨utf8_injective same, parts⟩

theorem event_of_start (plain : k.Plain) (tenant : NoColon t)
    (start : k.bytes = indexPrefix "events" t ++ rest) : ∃ ts id, k = .event t ts id := by
  obtain ⟨family, parts⟩ := parts_of_start (by decide) start
  cases k with
  | event _ ts id =>
    obtain ⟨same, _⟩ := Text.append_separator_inj plain.1.notMem tenant.notMem parts
    exact ⟨ts, id, by rw [utf8_injective same]⟩
  | _ => simp [Key.family] at family

theorem latest_of_start (plain : k.Plain) (tenant : NoColon t)
    (start : k.bytes = indexPrefix "latest_events" t ++ rest) :
    ∃ p ts, k = .latestEvent p ts ∧ p.tenantID = t := by
  obtain ⟨family, parts⟩ := parts_of_start (by decide) start
  cases k with
  | latestEvent p ts =>
    obtain ⟨same, _⟩ := Text.append_separator_inj plain.1.tenantID.notMem tenant.notMem parts
    exact ⟨p, ts, rfl, utf8_injective same⟩
  | _ => simp [Key.family] at family

theorem msgEvent_of_start (plain : k.Plain) (tenant : NoColon t)
    (start : k.bytes = indexPrefix "msg_events" t ++ rest) :
    ∃ p ts id, k = .msgEvent p ts id ∧ p.tenantID = t := by
  obtain ⟨family, parts⟩ := parts_of_start (by decide) start
  cases k with
  | msgEvent p ts id =>
    obtain ⟨same, _⟩ := Text.append_separator_inj plain.1.tenantID.notMem tenant.notMem parts
    exact ⟨p, ts, id, rfl, utf8_injective same⟩
  | _ => simp [Key.family] at family

end

def indexKey : Walk → EmailEvent → Key
  | .message, e => msgEventKey e
  | .latest, e => .latestEvent (pairOf e) (tsDesc e)
  | .all, e => eventKey e

/-- The place of an event in the tenant's timelines. -/
def messageKey (e : EmailEvent) : Bytes :=
  utf8 e.messageID ++ colon :: ((utf8 e.recipient ++ [colon]) ++ (tsDesc e ++ colon :: utf8 e.id))

theorem bytes_message (e : EmailEvent) : (indexKey .message e).bytes =
    indexPrefix "msg_events" e.tenantID ++ messageKey e :=
  bytes_msgEvent (pairOf e) (tsDesc e) e.id

theorem bytes_latest (e : EmailEvent) : (indexKey .latest e).bytes =
    indexPrefix "latest_events" e.tenantID ++
      (tsDesc e ++ colon :: (utf8 e.messageID ++ colon :: utf8 e.recipient)) := by
  simp [indexKey, pairOf, bytes, family, parts, indexPrefix]

theorem bytes_all (e : EmailEvent) : (indexKey .all e).bytes =
    indexPrefix "events" e.tenantID ++ (tsDesc e ++ colon :: utf8 e.id) := by
  simp [indexKey, eventKey, bytes, family, parts, indexPrefix]

def InIndex (c : Contents) : Walk → EmailEvent → Prop
  | .message, e => e ∈ c.stored ∧ e.messageID ≠ ""
  | .latest, e => c.latest (pairOf e) = some e
  | .all, e => e ∈ c.stored

def Within (t : String) (f : ListFilter) (e : EmailEvent) : Prop :=
  (listBounds t f).1 ≤ (indexKey (walkOf f) e).bytes ∧
    (indexKey (walkOf f) e).bytes < (listBounds t f).2

instance (t : String) (f : ListFilter) (e : EmailEvent) : Decidable (Within t f e) :=
  inferInstanceAs (Decidable (_ ∧ _))

section
variable {db : DB} {c : Contents} {m : CaseMapping} {t : String} {e : EmailEvent}

theorem listBounds_start (t : String) (f : ListFilter) : ∃ x y,
    listBounds t f = (indexPrefix (walkOf f).family t ++ x, indexPrefix (walkOf f).family t ++ y) := by
  unfold listBounds
  cases walkOf f with
  | message => exact ⟨messagePrefix f, messagePrefix f ++ [255], rfl⟩
  | latest | all => exact ⟨endBound f, startBound f, rfl⟩

/-- The instants that the bounds of a walk by time hold, which are counted in 64 bits. -/
def Kept (startTime endTime at_ : Int) : Prop :=
  (startTime ≠ zeroTime → (startTime - 1) % 2 ^ 64 < at_) ∧
    (endTime ≠ zeroTime → at_ ≤ endTime % 2 ^ 64)

theorem between_iff (keyable : Keyable e) (start rest : Bytes) :
    (start ++ endBound f ≤ start ++ (tsDesc e ++ colon :: rest) ∧
      start ++ (tsDesc e ++ colon :: rest) < start ++ startBound f) ↔
        Kept f.startTime f.endTime e.timestamp := by
  have dated : Datable e.timestamp := keyable.timestamp
  have lower : endBound f ≤ tsDesc e ++ colon :: rest ↔
      (f.endTime ≠ zeroTime → (e.timestamp : Int) ≤ f.endTime % 2 ^ 64) := by
    unfold endBound
    split
    next unset =>
      rw [← not_lt]
      simp [unset]
    next set => rw [tsDesc, wrapped_le_timestamp dated, forall_prop_of_true set]
  have upper : tsDesc e ++ colon :: rest < startBound f ↔
      (f.startTime ≠ zeroTime → (f.startTime - 1) % 2 ^ 64 < e.timestamp) := by
    unfold startBound
    split
    next unset =>
      have below := append_lt_top keyable.tsDesc_ne_nil (notMem_descendingTimestamp dated (by decide))
        (colon :: rest)
      simp [unset, below]
    next set =>
      rw [int64_next, tsDesc, ← not_le, wrapped_le_timestamp dated, not_le, forall_prop_of_true set]
  rw [← not_lt, append_lt_append_left, append_lt_append_left, not_lt, lower, upper, Kept, and_comm]

theorem within_start (start rest : Bytes) (below : rest < [255]) :
    start ≤ start ++ rest ∧ start ++ rest < start ++ [255] := by
  constructor
  · have above : ¬ start ++ rest < start ++ [] := by
      rw [append_lt_append_left]
      simp
    rw [append_nil] at above
    exact not_lt.mp above
  · exact append_lt_append_left.mpr below

theorem found_of_scan (reads : Represents db c) (keyable : ∀ e ∈ c.stored, Keyable e)
    (targeted : ∀ p e, c.latest p = some e → Keyable e ∧ pairOf e = p) (tenant : NoColon t)
    {r : Bytes × Value} (row : r ∈ db.scan (listBounds t f).1 (listBounds t f).2) :
    ∃ e, r = ((indexKey (walkOf f) e).bytes, .event e) ∧ Keyable e ∧ e.tenantID = t ∧
      InIndex c (walkOf f) e := by
  obtain ⟨raw, v⟩ := r
  obtain ⟨found, low, high⟩ := Store.mem_scan.mp row
  obtain ⟨k, plain, rfl⟩ := reads.keyed raw v found
  have holds := (reads.get_iff k plain v).mp found
  obtain ⟨x, y, bounds⟩ := listBounds_start t f
  rw [bounds] at low high
  obtain ⟨rest, start⟩ := start_of_between low high
  cases walk : walkOf f with
  | message =>
    rw [walk] at start
    obtain ⟨p, ts, id, rfl, of⟩ := msgEvent_of_start plain tenant start
    obtain ⟨e, mem, present, at_, body⟩ := holds_msgEvent.mp holds
    refine ⟨e, by rw [at_, body]; rfl, keyable e mem, ?_, mem, present⟩
    simp only [msgEventKey, msgEvent.injEq] at at_
    rw [at_.1] at of
    exact of
  | latest =>
    rw [walk] at start
    obtain ⟨p, ts, rfl, of⟩ := latest_of_start plain tenant start
    obtain ⟨e, named, at_, body⟩ := holds_latestEvent.mp holds
    obtain ⟨keyable', pair⟩ := targeted p e named
    rw [← pair] at of named
    exact ⟨e, by rw [← pair, at_, body]; rfl, keyable', of, named⟩
  | all =>
    rw [walk] at start
    obtain ⟨ts, id, rfl⟩ := event_of_start plain tenant start
    obtain ⟨e, mem, at_, body⟩ := holds_event.mp holds
    refine ⟨e, by rw [at_, body]; rfl, keyable e mem, ?_, mem⟩
    simp only [eventKey, event.injEq] at at_
    exact at_.1.symm

theorem get_indexKey (reads : Represents db c) (keyable : Keyable e) (walk : Walk) :
    db.get (indexKey walk e).bytes = some (.event e) ↔ InIndex c walk e := by
  cases walk with
  | message =>
    have row := reads.get_iff (msgEventKey e) keyable.msgEventKey_plain (.event e)
    refine row.trans (holds_msgEvent.trans ⟨?_, ?_⟩)
    · rintro ⟨e', mem, present, _, same⟩
      cases same
      exact ⟨mem, present⟩
    · exact fun ⟨mem, present⟩ => ⟨e, mem, present, rfl, rfl⟩
  | latest =>
    have row := reads.get_iff (.latestEvent (pairOf e) (tsDesc e))
      ⟨keyable.pair_plain, keyable.tsDesc_plain⟩ (.event e)
    refine row.trans (holds_latestEvent.trans ⟨?_, ?_⟩)
    · rintro ⟨e', named, _, same⟩
      exact Value.event.inj same ▸ named
    · exact fun named => ⟨e, named, rfl, rfl⟩
  | all =>
    have row := reads.get_iff (eventKey e) keyable.eventKey_plain (.event e)
    refine row.trans (holds_event.trans ⟨?_, ?_⟩)
    · rintro ⟨e', mem, _, same⟩
      exact Value.event.inj same ▸ mem
    · exact fun mem => ⟨e, mem, rfl, rfl⟩

theorem top_notMem_messageKey (keyable : Keyable e) : (255 : Byte) ∉ messageKey e := by
  have digits : (255 : Byte) ∉ tsDesc e := notMem_descendingTimestamp keyable.timestamp (by decide)
  have other : (255 : Byte) ≠ colon := by decide
  simp [messageKey, top_notMem_utf8, digits, other]

theorem start_of_message (message : e.messageID = f.messageID) (body : bodyMatches m f e = true) :
    messagePrefix f <+: messageKey e := by
  unfold messagePrefix messageKey
  rw [message, prefix_append_right_inj, cons_prefix_cons]
  refine ⟨rfl, ?_⟩
  split
  next exact_ =>
    simp only [bodyMatches, exact_.1, exact_.2, decide_false, Bool.false_or, if_true,
      Bool.and_eq_true, decide_eq_true_eq] at body
    rw [body.1.1]
    exact prefix_append ..
  next => exact nil_prefix

theorem message_of_start (keyable : Keyable e) (plain : NoColon f.messageID)
    (start : messagePrefix f <+: messageKey e) : e.messageID = f.messageID := by
  obtain ⟨rest, parts⟩ := start
  have same := (Text.append_separator_inj plain.notMem keyable.messageID.notMem
    ((append_assoc ..).symm.trans parts)).1
  exact (utf8_injective same).symm

section
variable (keyable : Keyable e) (tenant : e.tenantID = t)
include keyable tenant

theorem within_iff_kept (timed : walkOf f ≠ .message) :
    Within t f e ↔ Kept f.startTime f.endTime e.timestamp := by
  unfold Within listBounds
  cases walk : walkOf f with
  | message => exact absurd walk timed
  | latest =>
    simp only [Walk.family, bytes_latest, tenant]
    exact between_iff keyable _ _
  | all =>
    simp only [Walk.family, bytes_all, tenant]
    exact between_iff keyable _ _

theorem within_iff_start (walk : walkOf f = .message) :
    Within t f e ↔ messagePrefix f <+: messageKey e := by
  unfold Within listBounds
  simp only [walk, Walk.family, bytes_message, tenant]
  constructor
  · rintro ⟨low, high⟩
    have low' := not_lt.mp fun less => not_lt.mpr low (append_lt_append_left.mpr less)
    have start : messagePrefix f ++ [] ≤ messageKey e := by rwa [append_nil]
    obtain ⟨rest, parts⟩ := start_of_between start (append_lt_append_left.mp high)
    exact ⟨rest, parts.symm⟩
  · rintro ⟨rest, parts⟩
    have free : (255 : Byte) ∉ rest := fun mem =>
      top_notMem_messageKey keyable (parts ▸ mem_append_right _ mem)
    have inside := within_start (indexPrefix "msg_events" t ++ messagePrefix f) rest (lt_top free)
    rwa [append_assoc, append_assoc, parts] at inside

variable (answerable : Answerable f)
include answerable

theorem within_iff_inTime (timed : walkOf f ≠ .message) : Within t f e ↔ InTime f e := by
  rw [within_iff_kept keyable tenant timed]
  refine and_congr (imp_congr_right fun set => ?_) (imp_congr_right fun set => ?_)
  · obtain ⟨after, reached⟩ := answerable.startTime set
    rw [Int.emod_eq_of_lt (by omega) (lt_of_lt_of_le (Int.sub_one_lt_of_le reached) (by decide))]
    omega
  · obtain ⟨low, high⟩ := answerable.endTime set
    rw [Int.emod_eq_of_lt low (lt_of_le_of_lt high (by decide))]

/-- What the bounds hold is of the message, and in the time, that the filter asks for. -/
theorem within_iff_asked (body : bodyMatches m f e = true) :
    Within t f e ↔ (walkOf f = .message → e.messageID = f.messageID) ∧ InTime f e := by
  by_cases walk : walkOf f = .message
  · obtain ⟨start, end_⟩ := answerable.untimed walk
    rw [within_iff_start keyable tenant walk]
    constructor
    · exact fun own => ⟨fun _ => message_of_start keyable answerable.messageID own,
        fun set => absurd start set, fun set => absurd end_ set⟩
    · exact fun asked => start_of_message (asked.1 walk) body
  · rw [within_iff_inTime keyable tenant answerable walk]
    exact ⟨fun time => ⟨fun other => absurd other walk, time⟩, And.right⟩

end

/-- The keys of an index are newest first; those of a message's timeline are so for each recipient.
-/
theorem newest_first {a b : EmailEvent} (first : Keyable a) (second : Keyable b)
    (tenant : a.tenantID = b.tenantID) {walk : Walk}
    (pair : walk = .message → a.messageID = b.messageID ∧ a.recipient = b.recipient)
    (before : (indexKey walk a).bytes < (indexKey walk b).bytes) : b.timestamp ≤ a.timestamp := by
  have lengths : (tsDesc a).length = (tsDesc b).length := by
    rw [tsDesc, tsDesc, length_descendingTimestamp first.timestamp,
      length_descendingTimestamp second.timestamp]
  have timed {x y : Bytes} (less : tsDesc a ++ x < tsDesc b ++ y) : b.timestamp ≤ a.timestamp := by
    rw [← tsDesc_le first second]
    rcases (append_lt_append lengths).mp less with strict | ⟨same, _⟩
    · exact le_of_lt strict
    · exact le_of_eq same
  cases walk with
  | message =>
    obtain ⟨message, recipient⟩ := pair rfl
    rw [bytes_message, bytes_message, messageKey, messageKey, tenant, message, recipient] at before
    rw [append_lt_append_left, append_lt_append_left, cons_lt_cons_iff] at before
    rcases before with less | ⟨_, less⟩
    · exact absurd less (lt_irrefl _)
    · exact timed (append_lt_append_left.mp less)
  | latest =>
    rw [bytes_latest, bytes_latest, tenant] at before
    exact timed (append_lt_append_left.mp before)
  | all =>
    rw [bytes_all, bytes_all, tenant] at before
    exact timed (append_lt_append_left.mp before)

end

/-! ### Pages -/

def walked (m : CaseMapping) (db : DB) (t : String) (f : ListFilter) : List EmailEvent :=
  ((db.scan (listBounds t f).1 (listBounds t f).2).filter (wanted m f)).filterMap body

theorem filterMap_take {rows : List (Bytes × Value)} (bodies : ∀ r ∈ rows, (body r).isSome = true)
    (n : Nat) : (rows.take n).filterMap body = (rows.filterMap body).take n := by
  induction rows generalizing n with
  | nil => simp
  | cons r _ ih =>
    obtain ⟨e, found⟩ := isSome_iff_exists.mp (bodies r mem_cons_self)
    cases n with
    | zero => simp
    | succ =>
      rw [take_succ_cons, filterMap_cons_some found, filterMap_cons_some found,
        take_succ_cons, ih fun x mem => bodies x (mem_cons_of_mem _ mem)]

section
variable {db : DB} {c : Contents} {m : CaseMapping} {t : String}

theorem listAll_eq (pages : Nat) (token : Bytes) : listAll m db t f pages token =
      (follow (wanted m f) (size f) (db.scan (listBounds t f).1 (listBounds t f).2) pages
        (tokenOf token)).map (List.filterMap body) := by
  induction pages generalizing token with
  | zero => rfl
  | succ _ ih =>
    simp only [listAll, follow]
    have here : list m db t { f with pageToken := token } =
        ((pageFrom (wanted m f) (size f) (db.scan (listBounds t f).1 (listBounds t f).2)
          (tokenOf token)).1.filterMap body,
        (pageFrom (wanted m f) (size f) (db.scan (listBounds t f).1 (listBounds t f).2)
          (tokenOf token)).2.getD []) := rfl
    rw [here]
    rcases paged : pageFrom (wanted m f) (size f)
        (db.scan (listBounds t f).1 (listBounds t f).2) (tokenOf token) with ⟨taken, next⟩
    cases next with
    | none => simp
    | some =>
      -- a token is the key of a row, and no key is empty
      have next := congrArg Prod.snd paged
      obtain ⟨⟨raw, v⟩, row, rfl⟩ := next_of_pageFrom next
      have present : raw ≠ [] := by
        obtain ⟨x, y, bounds⟩ := listBounds_start t f
        obtain ⟨_, low, high⟩ := Store.mem_scan.mp row
        rw [bounds] at low high
        obtain ⟨rest, rfl⟩ := start_of_between low high
        simp [indexPrefix]
      have named : tokenOf raw = some raw := if_neg present
      simp only [Option.getD_some, present, if_false, ih, named, Option.map_map]
      congr 1
      funext rest
      simp

theorem size_pos (f : ListFilter) : 0 < size f := by
  unfold size
  split <;> omega

theorem listAll_walked {pages : Nat} (enough : db.rows.length < pages) :
    listAll m db t f pages [] = some (walked m db t f) := by
  have shorter : (db.scan (listBounds t f).1 (listBounds t f).2).length < pages :=
    lt_of_le_of_lt (length_filter_le _ _) enough
  have all : follow (wanted m f) (size f) (db.scan (listBounds t f).1 (listBounds t f).2) pages
      none = some ((db.scan (listBounds t f).1 (listBounds t f).2).filter (wanted m f)) :=
    follow_all (size_pos f) (db.scan_sorted _ _) shorter
  have start : tokenOf [] = none := rfl
  rw [listAll_eq, start, all, map_some, walked]

theorem list_first (start : f.pageToken = []) :
    (list m db t f).1 = (walked m db t f).take (size f) := by
  have bodies : ∀ r ∈ (db.scan (listBounds t f).1 (listBounds t f).2).filter (wanted m f),
      (body r).isSome = true := by
    rintro ⟨raw, v⟩ inside
    cases v with
    | event => rfl
    | text => simp [wanted] at inside
  have first : (list m db t f).1 =
      (page (wanted m f) (size f) (db.scan (listBounds t f).1 (listBounds t f).2)).1.filterMap
        body := by
    simp only [list, start, pageFrom]
    rfl
  rw [first, page_taken, filterMap_take bodies, walked]

section
variable {e : EmailEvent} (reads : Represents db c) (keyable : ∀ e ∈ c.stored, Keyable e)
  (targeted : ∀ p e, c.latest p = some e → Keyable e ∧ pairOf e = p)
include reads keyable targeted

/-- The walk yields the tenant's events in the index, within the bounds, that the filter wants. -/
theorem mem_walked (tenant : NoColon t) : e ∈ walked m db t f ↔
      (Keyable e ∧ InIndex c (walkOf f) e) ∧ e.tenantID = t ∧ Within t f e ∧
        bodyMatches m f e = true := by
  constructor
  · intro listed
    obtain ⟨r, inside, found⟩ := mem_filterMap.mp listed
    obtain ⟨row, want⟩ := mem_filter.mp inside
    obtain ⟨e', rfl, keyable', of, held⟩ := found_of_scan reads keyable targeted tenant row
    cases found
    exact ⟨⟨keyable', held⟩, of, (Store.mem_scan.mp row).2, want⟩
  · rintro ⟨⟨keyable', held⟩, of, within, body⟩
    refine mem_filterMap.mpr ⟨((indexKey (walkOf f) e).bytes, .event e),
      mem_filter.mpr ⟨Store.mem_scan.mpr ⟨?_, within⟩, body⟩, rfl⟩
    exact (get_indexKey reads keyable' _).mpr held

theorem candidate_iff (message : walkOf f = .message → e.messageID = f.messageID) :
    Candidate db f e ↔ Keyable e ∧ InIndex c (walkOf f) e := by
  have known : ∀ p e, c.latest p = some e → Keyable e := fun p e latest => (targeted p e latest).1
  unfold Candidate
  cases walk : walkOf f with
  | message =>
    have present : e.messageID ≠ "" := message walk ▸ walkOf_message.mp walk
    refine (reads.mem_stored keyable known).trans ⟨fun mem => ?_, fun both => both.2.1⟩
    exact ⟨keyable e mem, mem, present⟩
  | latest =>
    constructor
    · intro row
      have keyable' := reads.keyable_of_row keyable known row
      exact ⟨keyable', (get_indexKey reads keyable' .latest).mp row⟩
    · rintro ⟨keyable', held⟩
      exact (get_indexKey reads keyable' .latest).mpr held
  | all =>
    refine (reads.mem_stored keyable known).trans ⟨fun mem => ?_, And.right⟩
    exact ⟨keyable e mem, mem⟩

theorem mem_listed (tenant : NoColon t) (answerable : Answerable f) : e ∈ walked m db t f ↔
      Candidate db f e ∧ e.tenantID = t ∧ Matches m f e := by
  rw [mem_walked reads keyable targeted tenant]
  constructor
  · rintro ⟨held, of, within, body⟩
    obtain ⟨message, time⟩ := (within_iff_asked held.1 of answerable body).mp within
    exact ⟨(candidate_iff reads keyable targeted message).mpr held, of, body, message, time⟩
  · rintro ⟨candidate, of, matched⟩
    have held := (candidate_iff reads keyable targeted matched.message).mp candidate
    exact ⟨held, of, (within_iff_asked held.1 of answerable matched.body).mpr
      ⟨matched.message, matched.time⟩, matched.body⟩

end

section
variable (reads : Represents db c) (keyable : ∀ e ∈ c.stored, Keyable e)
  (targeted : ∀ p e, c.latest p = some e → Keyable e ∧ pairOf e = p) (tenant : NoColon t)
include reads keyable targeted tenant

theorem walked_sorted : (walked m db t f).Pairwise fun a b => a ≠ b ∧
        ((walkOf f = .message → a.messageID = b.messageID ∧ a.recipient = b.recipient) →
          b.timestamp ≤ a.timestamp) := by
  rw [walked, pairwise_filterMap]
  refine List.Pairwise.imp_of_mem ?_ ((db.scan_sorted _ _).filter _)
  intro r r' first second less a one b two
  obtain ⟨row, _⟩ := mem_filter.mp first
  obtain ⟨row', _⟩ := mem_filter.mp second
  obtain ⟨e, rfl, keyableA, tenantA, _⟩ := found_of_scan reads keyable targeted tenant row
  obtain ⟨e', rfl, keyableB, tenantB, _⟩ := found_of_scan reads keyable targeted tenant row'
  cases one
  cases two
  constructor
  · rintro rfl
    exact lt_irrefl _ less
  · exact fun pair => newest_first keyableA keyableB (tenantA.trans tenantB.symm) pair less

theorem listed_sorted (answerable : Answerable f) : (walked m db t f).Pairwise fun a b => a ≠ b ∧
        ((walkOf f = .message → a.recipient = b.recipient) → b.timestamp ≤ a.timestamp) := by
  refine List.Pairwise.imp_of_mem ?_ (walked_sorted reads keyable targeted tenant)
  intro a b first second both
  obtain ⟨_, _, matched⟩ := (mem_listed reads keyable targeted tenant answerable).mp first
  obtain ⟨_, _, matched'⟩ := (mem_listed reads keyable targeted tenant answerable).mp second
  refine ⟨both.1, fun recipient => both.2 fun walk => ?_⟩
  exact ⟨(matched.message walk).trans (matched'.message walk).symm, recipient walk⟩

end

end
end Pebble

theorem Indexed.sound {s : EventStore} {cd cv : Contents} (inv : Indexed s cd cv) :
    (∀ e ∈ cd.stored, Keyable e) ∧ ∀ p e, cd.latest p = some e → Keyable e ∧ pairOf e = p := by
  refine ⟨fun e mem => inv.keyable e (inv.committed e mem).1.1, ?_⟩
  intro p e latest
  exact ⟨inv.dbTargeted.keyable inv.keyable p e latest, (inv.dbTargeted p e latest).2.1⟩

section
variable {as : List StoreAction} {s : EventStore} (run : exec EventStore.step .init as = some s)
  (along : AllSteps EventStore.step Proper .init as)
include run along

theorem indexed_of_run : ∃ cd cv, Indexed s cd cv :=
  invariant_along EventStore.step Proper (fun s => ∃ cd cv, Indexed s cd cv)
    (fun s a t proper before taken => by
      obtain ⟨cd, cv, inv⟩ := before
      obtain ⟨cd', cv', kept, _⟩ := inv.step proper taken
      exact ⟨cd', cv', kept⟩)
    _ _ as ⟨_, _, indexed_init⟩ along run

theorem represented_of_run : ∃ c, Represents s.db c ∧ (∀ e ∈ c.stored, Keyable e) ∧
      ∀ p e, c.latest p = some e → Keyable e ∧ pairOf e = p := by
  obtain ⟨cd, cv, inv⟩ := indexed_of_run run along
  exact ⟨cd, inv.db, inv.sound⟩

end

/-- In every store, following the pages of a listing ends and yields each of the tenant's events
that match once: newest first, or so for each recipient where a message id is given. And no page has
an event of another tenant. -/
theorem list_follows (m : CaseMapping) {as : List StoreAction} {s : EventStore}
    (run : exec EventStore.step .init as = some s) (along : AllSteps EventStore.step Proper .init as)
    (tenantID : String) (tenant : NoColon tenantID) :
    (∀ f : ListFilter, Answerable f → ∃ out : List EmailEvent,
      (∀ pages, s.db.rows.length < pages → Pebble.listAll m s.db tenantID f pages [] = some out) ∧
      (∀ e, e ∈ out ↔ Candidate s.db f e ∧ e.tenantID = tenantID ∧ Matches m f e) ∧ out.Nodup ∧
      out.Pairwise fun a b => (f.messageID ≠ "" → a.recipient = b.recipient) →
        b.timestamp ≤ a.timestamp) ∧
    ∀ (f : ListFilter), ∀ e ∈ (Pebble.list m s.db tenantID f).1, e.tenantID = tenantID := by
  obtain ⟨c, reads, keyable, targeted⟩ := represented_of_run run along
  constructor
  · intro f answerable
    refine ⟨Pebble.walked m s.db tenantID f, ?_, ?_, ?_, ?_⟩
    · exact fun pages enough => Pebble.listAll_walked enough
    · exact fun e => Pebble.mem_listed reads keyable targeted tenant answerable
    · exact (Pebble.listed_sorted reads keyable targeted tenant answerable).imp fun both => both.1
    · refine (Pebble.listed_sorted reads keyable targeted tenant answerable).imp fun both pair => ?_
      exact both.2 fun walk => pair (walkOf_message.mp walk)
  · intro f e listed
    obtain ⟨r, taken, found⟩ := mem_filterMap.mp listed
    obtain ⟨row, _⟩ := mem_pageFrom taken
    obtain ⟨e', rfl, _, of, _⟩ := Pebble.found_of_scan reads keyable targeted tenant row
    cases found
    exact of

/-! ### The times of a request -/

/-- `ListEvents` passes on the times that the request has. -/
def ListFilter.between (f : ListFilter) (start end_ : Option Int) : ListFilter :=
  { f with startTime := start.getD zeroTime, endTime := end_.getD zeroTime }

open ListFilter Pebble

/-- Between the times of a request, both of them included. -/
def Asked (start end_ : Option Int) (at_ : Int) : Prop :=
  (∀ t ∈ start, t ≤ at_) ∧ ∀ t ∈ end_, at_ ≤ t

/-- What a request asks for: of the latest events or of all, those of the tenant and the message
that match and lie between its times. -/
structure Wanted (m : CaseMapping) (db : DB) (tenantID : String) (f : ListFilter)
    (start end_ : Option Int) (e : EmailEvent) : Prop where
  among : if f.latestOnly then db.get (Key.latestEvent (pairOf e) (tsDesc e)).bytes = some (.event e)
    else e ∈ stored db
  tenant : e.tenantID = tenantID
  body : bodyMatches m f e = true
  message : f.messageID ≠ "" → e.messageID = f.messageID
  time : Asked start end_ e.timestamp

/-- Times that a walk by time serves. If an event can lie between them, the start is after the first
instant of 1970, and the end up to 2262 or its remainder in 64 bits not before. Otherwise nothing
lies between their remainders either. -/
def Served (start end_ : Option Int) : Prop :=
  ((∃ at_, Datable at_ ∧ Asked start end_ at_) ∧ (∀ t ∈ start, t = zeroTime ∨ 0 < t) ∧
      ∀ t ∈ end_, t ≤ maxInt64 ∨ maxInt64 ≤ t % 2 ^ 64) ∨
    ∀ at_, Datable at_ → ¬ Asked start end_ at_ ∧
      ¬ Kept (start.getD zeroTime) (end_.getD zeroTime) at_

section
variable {start end_ : Option Int}

theorem served_iff : Served start end_ ↔ ∀ at_, Datable at_ →
    (Kept (start.getD zeroTime) (end_.getD zeroTime) at_ ↔ Asked start end_ at_) := by
  by_cases room : ∃ at_, Datable at_ ∧ Asked start end_ at_
  · obtain ⟨mid, dated, after, before⟩ := room
    have low := dated.1
    have high := dated.2
    have top : maxInt64 = 2 ^ 63 - 1 := rfl
    have zero : zeroTime < 0 := by decide
    constructor
    · rintro (⟨_, starts, ends⟩ | none_)
      · rintro at_ ⟨first, last⟩
        refine and_congr ?_ ?_
        · cases start with
          | none => simp
          | some t =>
            have below := after t rfl
            have served := starts t rfl
            simp only [getD_some, mem_some_iff, forall_eq']
            omega
        · cases end_ with
          | none => simp
          | some t =>
            have above := before t rfl
            have served := ends t rfl
            simp only [getD_some, mem_some_iff, forall_eq']
            omega
      · exact absurd ⟨after, before⟩ (none_ mid dated).1
    · -- the first and the last instant show what bounds that are not served leave out
      intro same
      refine .inl ⟨⟨mid, dated, after, before⟩, fun t given => ?_, fun t given => ?_⟩
      · cases given
        refine or_iff_not_imp_left.mpr fun set => not_le.mp fun early => ?_
        have asked : Asked (some t) end_ 0 := ⟨fun _ same => Option.some.inj same ▸ early,
          fun t given => low.trans (before t given)⟩
        have kept := ((same 0 (by decide)).mpr asked).1 set
        omega
      · cases given
        refine or_iff_not_imp_left.mpr fun late => ?_
        have asked : Asked start (some t) maxInt64 := ⟨fun t given => (after t given).trans high,
          fun _ same => Option.some.inj same ▸ le_of_not_ge late⟩
        exact ((same maxInt64 (by decide)).mpr asked).2 (by rw [getD_some]; omega)
  · have nowhere : ∀ at_, Datable at_ → ¬ Asked start end_ at_ := fun at_ dated asked =>
      room ⟨at_, dated, asked⟩
    constructor
    · rintro (⟨held, _⟩ | none_) at_ dated
      · exact absurd held room
      · exact iff_of_false (none_ at_ dated).2 (none_ at_ dated).1
    · intro same
      exact .inr fun at_ dated =>
        ⟨nowhere at_ dated, fun kept => nowhere at_ dated ((same at_ dated).mp kept)⟩

end

/-- Following the pages of a listing yields, in every store, exactly the events asked for. -/
def ListsExactly (m : CaseMapping) (tenantID : String) (f : ListFilter) (start end_ : Option Int) :
    Prop :=
  ∀ as s, exec EventStore.step .init as = some s → AllSteps EventStore.step Proper .init as →
    ∃ out, (∀ pages, s.db.rows.length < pages →
        listAll m s.db tenantID (f.between start end_) pages [] = some out) ∧
      ∀ e, e ∈ out ↔ Wanted m s.db tenantID f start end_ e

/-- No event of another message matches whose key begins as those of the message do. -/
def Own (m : CaseMapping) (f : ListFilter) : Prop :=
  ∀ e, Keyable e → e.messageID ≠ "" → bodyMatches m f e = true →
    messagePrefix f <+: messageKey e → e.messageID = f.messageID

section
variable {m : CaseMapping} {db : DB} {c : Contents} {t : String} {e : EmailEvent}
  {start end_ : Option Int} (reads : Represents db c)
  (sound : (∀ e ∈ c.stored, Keyable e) ∧ ∀ p e, c.latest p = some e → Keyable e ∧ pairOf e = p)
include reads sound

theorem wanted_iff : Wanted m db t f start end_ e ↔
    (Keyable e ∧ InIndex c (if f.latestOnly then .latest else .all) e) ∧ e.tenantID = t ∧
      bodyMatches m f e = true ∧ (f.messageID ≠ "" → e.messageID = f.messageID) ∧
      Asked start end_ e.timestamp := by
  have among : (if f.latestOnly then
        db.get (Key.latestEvent (pairOf e) (tsDesc e)).bytes = some (.event e) else e ∈ stored db) ↔
      Keyable e ∧ InIndex c (if f.latestOnly then .latest else .all) e := by
    have held := candidate_iff (f := { f with messageID := "" }) (e := e) reads sound.1 sound.2
      fun walk => absurd rfl (walkOf_message.mp walk)
    cases only : f.latestOnly <;> simpa [Candidate, walkOf, only] using held
  constructor
  · exact fun ⟨held, of, body, message, time⟩ => ⟨among.mp held, of, body, message, time⟩
  · exact fun ⟨held, of, body, message, time⟩ => ⟨among.mpr held, of, body, message, time⟩

variable (tenant : NoColon t)
include tenant

theorem mem_walked_timed (blank : f.messageID = "") : e ∈ walked m db t (f.between start end_) ↔
    (Keyable e ∧ InIndex c (if f.latestOnly then .latest else .all) e) ∧ e.tenantID = t ∧
      Kept (start.getD zeroTime) (end_.getD zeroTime) e.timestamp ∧ bodyMatches m f e = true := by
  have walk : walkOf (f.between start end_) = if f.latestOnly then .latest else .all := by
    simp [walkOf, ListFilter.between, blank]
  have timed : walkOf (f.between start end_) ≠ .message := fun message =>
    walkOf_message.mp message blank
  rw [mem_walked reads sound.1 sound.2 tenant, walk]
  refine and_congr_right fun held => and_congr_right fun of => and_congr_left' ?_
  exact within_iff_kept held.1 of timed

theorem mem_walked_message (given : f.messageID ≠ "") :
    e ∈ walked m db t (f.between start end_) ↔ (Keyable e ∧ e ∈ c.stored ∧ e.messageID ≠ "") ∧
      e.tenantID = t ∧ messagePrefix f <+: messageKey e ∧ bodyMatches m f e = true := by
  have walk : walkOf (f.between start end_) = .message := walkOf_message.mpr given
  rw [mem_walked reads sound.1 sound.2 tenant, walk]
  refine and_congr_right fun held => and_congr_right fun of => and_congr_left' ?_
  exact within_iff_start held.1 of walk

end

section
variable {m : CaseMapping} {tenantID : String} {start end_ : Option Int}

theorem store_of {s : EventStore} {cd cv : Contents} (inv : Indexed s cd cv) {es : List EmailEvent}
    (keyable : ∀ e ∈ es, Keyable e) (fresh : ∀ e ∈ es, ∀ e' ∈ s.written, e'.id ≠ e.id)
    (ids : es.Pairwise fun a b => a.id ≠ b.id) : ∃ as s', exec EventStore.step s as = some s' ∧
      AllSteps EventStore.step Proper s as ∧
      Indexed s' (es.foldl Contents.write cv) (es.foldl Contents.write cv) := by
  induction es generalizing s cv with
  | nil => exact ⟨[.commit], _, rfl, ⟨trivial, fun _ _ => trivial⟩, indexed_commit inv⟩
  | cons e rest ih =>
    have proper : Proper s (.write e) := ⟨keyable e mem_cons_self, fresh e mem_cons_self⟩
    obtain ⟨apart, others⟩ := pairwise_cons.mp ids
    obtain ⟨as, s', run, along, inv'⟩ := ih (indexed_write inv proper rfl)
      (fun e mem => keyable e (mem_cons_of_mem _ mem))
      (fun b mem => forall_mem_concat (fresh b (mem_cons_of_mem _ mem)) (apart b mem)) others
    refine ⟨.write e :: as, s', run, ⟨proper, fun _ taken => ?_⟩, inv'⟩
    cases taken
    exact along

theorem ListsExactly.at_ (exact_ : ListsExactly m tenantID f start end_) {es : List EmailEvent}
    (keyable : ∀ e ∈ es, Keyable e) (ids : es.Pairwise fun a b => a.id ≠ b.id) :
    ∃ s : EventStore, Indexed s (es.foldl Contents.write .empty) (es.foldl Contents.write .empty) ∧
      ∀ e, e ∈ walked m s.db tenantID (f.between start end_) ↔
        Wanted m s.db tenantID f start end_ e := by
  obtain ⟨as, s, run, along, inv⟩ := store_of indexed_init keyable (fun _ _ => nofun) ids
  obtain ⟨out, all, listed⟩ := exact_ as s run along
  have same := (all _ (Nat.lt_succ_self _)).symm.trans (listAll_walked (Nat.lt_succ_self _))
  exact ⟨s, inv, Option.some.inj same ▸ listed⟩

theorem listsExactly_of (exact_ : ∀ (s : EventStore) (c : Contents), Represents s.db c →
      ((∀ e ∈ c.stored, Keyable e) ∧ ∀ p e, c.latest p = some e → Keyable e ∧ pairOf e = p) →
      ∀ e, e ∈ walked m s.db tenantID (f.between start end_) ↔
        Wanted m s.db tenantID f start end_ e) : ListsExactly m tenantID f start end_ := by
  intro as s run along
  obtain ⟨c, reads, sound⟩ := represented_of_run run along
  exact ⟨_, fun pages enough => listAll_walked enough, exact_ s c reads sound⟩

/-- An event that the filter matches. -/
def matching (f : ListFilter) (tenantID messageID id : String) (at_ : Nat) : EmailEvent :=
  ⟨id, tenantID, "", "", messageID, f.eventType, f.recipient, f.subject, at_, ""⟩

theorem bodyMatches_matching (messageID id : String) (at_ : Nat) :
    bodyMatches m f (matching f tenantID messageID id at_) = true := by
  have self (word : String) : containsFold m word word = true := by
    unfold containsFold
    cases (m.toLower word).toList <;> simp [Text.contains]
  simp [bodyMatches, matching, self]

variable (tenant : NoColon tenantID)
include tenant

theorem listsExactly_timed (blank : f.messageID = "") :
    ListsExactly m tenantID f start end_ ↔ Served start end_ := by
  rw [served_iff]
  constructor
  · intro exact_ at_ dated
    lift at_ to Nat using dated.1
    generalize made : matching f tenantID "m" "e" at_ = e
    have keyable : Keyable e := made ▸ ⟨tenant, (by decide : NoColon "m"), (by decide : NoColon "e"), dated⟩
    have body : bodyMatches m f e = true := made ▸ bodyMatches_matching ..
    have moves : Contents.empty.Moves e := ⟨made ▸ (by decide : "m" ≠ ""), .inl rfl⟩
    have held : InIndex (Contents.empty.write e) (if f.latestOnly then .latest else .all) e := by
      split
      · exact write_latest moves
      · exact mem_write ..
    obtain ⟨s, inv, listed⟩ := exact_.at_ (forall_mem_singleton.mpr keyable) (pairwise_singleton ..)
    have here := listed e
    rw [mem_walked_timed inv.db inv.sound tenant blank, wanted_iff inv.db inv.sound] at here
    have of : e.tenantID = tenantID := made ▸ rfl
    have stamp : e.timestamp = at_ := made ▸ rfl
    simp only [body, blank, keyable, of, stamp, true_and, and_true, ne_eq, not_true_eq_false,
      false_implies] at here
    exact ⟨fun kept => (here.mp ⟨held, kept⟩).2, fun asked => (here.mpr ⟨held, asked⟩).2⟩
  · intro same
    refine listsExactly_of fun s c reads sound e => ?_
    rw [mem_walked_timed reads sound tenant blank, wanted_iff reads sound]
    refine and_congr_right fun held => and_congr_right fun of => ?_
    rw [same e.timestamp held.1.timestamp, and_comm]
    simp [blank]

section
variable (given : f.messageID ≠ "")
include given

theorem ListsExactly.wanted (exact_ : ListsExactly m tenantID f start end_) {es : List EmailEvent}
    (keyable : ∀ e ∈ es, Keyable e) (ids : es.Pairwise fun a b => a.id ≠ b.id) {e : EmailEvent}
    (mem : e ∈ (es.foldl Contents.write .empty).stored) (present : e.messageID ≠ "")
    (of : e.tenantID = tenantID) (own : messagePrefix f <+: messageKey e)
    (body : bodyMatches m f e = true) :
    InIndex (es.foldl Contents.write .empty) (if f.latestOnly then .latest else .all) e ∧
      e.messageID = f.messageID ∧ Asked start end_ e.timestamp := by
  obtain ⟨s, inv, listed⟩ := exact_.at_ keyable ids
  have walked_ : e ∈ walked m s.db tenantID (f.between start end_) :=
    (mem_walked_message inv.db inv.sound tenant given).mpr
      ⟨⟨inv.sound.1 e mem, mem, present⟩, of, own, body⟩
  obtain ⟨⟨_, held⟩, _, _, message, time⟩ := (wanted_iff inv.db inv.sound).mp ((listed e).mp walked_)
  exact ⟨held, message given, time⟩

theorem ListsExactly.own (exact_ : ListsExactly m tenantID f start end_) : Own m f := by
  intro e keyable present body own
  -- the event as one of the tenant's
  have keyable' : Keyable { e with tenantID := tenantID } :=
    ⟨tenant, keyable.messageID, keyable.id, keyable.timestamp⟩
  exact (exact_.wanted tenant given (forall_mem_singleton.mpr keyable') (pairwise_singleton ..)
    (mem_write ..) present rfl own body).2.1

variable (plain : NoColon f.messageID)
include plain

theorem ListsExactly.untimed (exact_ : ListsExactly m tenantID f start end_) {at_ : Int}
    (dated : Datable at_) : Asked start end_ at_ := by
  lift at_ to Nat using dated.1
  have keyable : Keyable (matching f tenantID f.messageID "e" at_) :=
    ⟨tenant, plain, (by decide : NoColon "e"), dated⟩
  have body : bodyMatches m f (matching f tenantID f.messageID "e" at_) = true :=
    bodyMatches_matching ..
  exact (exact_.wanted tenant given (forall_mem_singleton.mpr keyable) (pairwise_singleton ..)
    (mem_write ..) given rfl (start_of_message rfl body) body).2.2

/-- Of two events of a message the older is in its timeline, and is not the latest. -/
theorem ListsExactly.notLatest (exact_ : ListsExactly m tenantID f start end_) :
    f.latestOnly = false := by
  generalize older : matching f tenantID f.messageID "a" 0 = a
  generalize newer : matching f tenantID f.messageID "b" 0 = b
  have first : Keyable a := older ▸ ⟨tenant, plain, (by decide : NoColon "a"), (by decide : Datable 0)⟩
  have second : Keyable b := newer ▸ ⟨tenant, plain, (by decide : NoColon "b"), (by decide : Datable 0)⟩
  have body : bodyMatches m f a = true := older ▸ bodyMatches_matching ..
  have apart : a.id ≠ b.id := older ▸ newer ▸ (by decide : "a" ≠ "b")
  have pair : pairOf a = pairOf b := older ▸ newer ▸ rfl
  have message : a.messageID = f.messageID := older ▸ rfl
  have moves : Contents.empty.Moves a := ⟨message ▸ given, .inl rfl⟩
  have moves' : (Contents.empty.write a).Moves b := by
    refine ⟨newer ▸ given, .inr ?_⟩
    rw [← pair, pointer_some (write_latest moves)]
    exact older ▸ newer ▸ le_refl _
  have both : ∀ e ∈ [a, b], Keyable e := by simp [first, second]
  have listed := (exact_.wanted tenant given both (pairwise_pair.mpr apart)
    (write_stored .. ▸ .inr (mem_write ..)) (message ▸ given) (older ▸ rfl)
    (start_of_message message body) body).1
  cases only : f.latestOnly with
  | false => rfl
  | true =>
    rw [only] at listed
    have named : ((Contents.empty.write a).write b).latest (pairOf a) = some a := listed
    rw [latest_write, if_pos ⟨moves', pair⟩, Option.some.injEq] at named
    exact absurd (congrArg EmailEvent.id named).symm apart

end

theorem listsExactly_message (given : f.messageID ≠ "") :
    ListsExactly m tenantID f start end_ ↔ Own m f ∧ (NoColon f.messageID →
      f.latestOnly = false ∧ ∀ at_, Datable at_ → Asked start end_ at_) := by
  constructor
  · intro exact_
    exact ⟨exact_.own tenant given, fun plain =>
      ⟨exact_.notLatest tenant given plain, fun at_ => exact_.untimed tenant given plain⟩⟩
  · rintro ⟨own, plainly⟩
    refine listsExactly_of fun s c reads sound e => ?_
    rw [mem_walked_message reads sound tenant given, wanted_iff reads sound]
    constructor
    · rintro ⟨⟨keyable, mem, present⟩, of, start, body⟩
      have message := own e keyable present body start
      obtain ⟨all, untimed⟩ := plainly (message ▸ keyable.messageID)
      refine ⟨⟨keyable, ?_⟩, of, body, fun _ => message, untimed _ keyable.timestamp⟩
      rw [all]
      exact mem
    · rintro ⟨⟨keyable, held⟩, of, body, message, _⟩
      obtain ⟨all, _⟩ := plainly (message given ▸ keyable.messageID)
      rw [all] at held
      exact ⟨⟨keyable, held, message given ▸ given⟩, of, start_of_message (message given) body, body⟩

end

def openedByA : EmailEvent := ⟨"e1", "t1", "p1", "smtp", "m1", .opened, "a@x.org", "Hi", 5, ""⟩

def bouncedAtB : EmailEvent := ⟨"e2", "t1", "p1", "smtp", "m1", .bounced, "b@x.org", "Hi", 9, ""⟩

def twoRecipients : List StoreAction := [.write openedByA, .write bouncedAtB, .commit]

theorem proper_twoRecipients : AllSteps EventStore.step Proper .init twoRecipients := by decide

def timelineOf (messageID : String) : ListFilter :=
  ⟨1, [], "", .unspecified, zeroTime, zeroTime, messageID, false, false, ""⟩

theorem list_follows_timeline : ∃ s out, exec EventStore.step .init twoRecipients = some s ∧
    Pebble.listAll .ascii s.db "t1" (timelineOf "m1") (s.db.rows.length + 1) [] = some out ∧
    (∀ e, e ∈ out ↔ Candidate s.db (timelineOf "m1") e ∧ e.tenantID = "t1" ∧
      Matches .ascii (timelineOf "m1") e) ∧ out.Nodup := by
  have runs : (exec EventStore.step .init twoRecipients).isSome = true := by decide
  obtain ⟨s, run⟩ := Option.isSome_iff_exists.mp runs
  have answerable : Answerable (timelineOf "m1") :=
    ⟨by decide, fun set => absurd rfl set, fun set => absurd rfl set, fun _ => ⟨rfl, rfl⟩⟩
  obtain ⟨out, all, listed, once, _⟩ :=
    (list_follows .ascii run proper_twoRecipients "t1" (by decide)).1 (timelineOf "m1") answerable
  exact ⟨s, out, run, all _ (Nat.lt_succ_self _), listed, once⟩

/-- A timeline is by recipient first: one's older event comes before another's newer one. -/
theorem timeline_not_newest_first : ∃ s, exec EventStore.step .init twoRecipients = some s ∧
    AllSteps EventStore.step Proper .init twoRecipients ∧
    Pebble.listAll .ascii s.db "t1" (timelineOf "m1") 3 [] = some [openedByA, bouncedAtB] ∧
    openedByA.timestamp < bouncedAtB.timestamp := by
  decide +kernel

end Panmail.Events
