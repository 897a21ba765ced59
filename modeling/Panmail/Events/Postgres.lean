import Mathlib.Data.Prod.Lex
import Panmail.Events.Listing
import Panmail.Lib.Keyset
import Panmail.Lib.Rfc3339

/-!
# Listing events from the shared store

The shared store keeps the events in a table, and `List` is one query on it: the filter and the page
token in the `WHERE` clause, the newest first, one row more than the page has room for. With
`LatestOnly` the rows that remain are numbered by message and recipient, and the first of each are
kept.
-/
namespace Panmail.Events

open ByteStrings Text Delivery List

namespace Postgres

/-! ### The table -/

def isHexDigit (b : Byte) : Bool := isDigit b || (97 ≤ b.val && b.val ≤ 102)

def isUUID (s : Bytes) : Bool :=
  s.length = 36 && s.zipIdx.all fun (b, i) =>
    if i ∈ [8, 13, 18, 23] then b = Rfc3339.hyphen else isHexDigit b

theorem length_of_isUUID {s : Bytes} (form : isUUID s = true) : s.length = 36 := by
  simp only [isUUID, Bool.and_eq_true, decide_eq_true_eq] at form
  exact form.1

theorem noColon_of_isUUID {s : String} (form : isUUID (utf8 s) = true) : NoColon s := by
  intro mem
  have inside : colon ∈ utf8 s :=
    mem_map.mpr ⟨58, mem_flatMap.mpr ⟨':', mem, by decide⟩, by decide⟩
  simp only [isUUID, Bool.and_eq_true, all_eq_true] at form
  obtain ⟨i, short, at_⟩ := mem_iff_getElem.mp inside
  have checked := form.2 (colon, i) (mem_zipIdx_iff_getElem?.mpr (by
    rw [getElem?_eq_getElem short, at_]))
  have other : colon ≠ Rfc3339.hyphen ∧ isHexDigit colon = false := by decide
  split at checked
  · exact other.1 (of_decide_eq_true checked)
  · rw [other.2] at checked
    cases checked

/-- A timestamp is kept, and compared, in whole microseconds. -/
def micros (t : Int) : Int := t / 1000 * 1000

/-- What a row of `email_events` can be. -/
structure Row (e : EmailEvent) : Prop where
  id : isUUID (utf8 e.id) = true
  tenantID : isUUID (utf8 e.tenantID) = true
  messageID : isUUID (utf8 e.messageID) = true
  recipient : e.recipient.length ≤ 320
  timestamp : micros e.timestamp = e.timestamp
  dated : e.timestamp < Rfc3339.limit

instance (e : EmailEvent) : Decidable (Row e) :=
  decidable_of_iff (isUUID (utf8 e.id) = true ∧ isUUID (utf8 e.tenantID) = true ∧
      isUUID (utf8 e.messageID) = true ∧ e.recipient.length ≤ 320 ∧
      micros e.timestamp = e.timestamp ∧ e.timestamp < Rfc3339.limit)
    ⟨fun ⟨a, b, c, d, e, f⟩ => ⟨a, b, c, d, e, f⟩, fun ⟨a, b, c, d, e, f⟩ => ⟨a, b, c, d, e, f⟩⟩

structure EventTable where
  rows : List EmailEvent
  unique : (rows.map EmailEvent.id).Nodup
  wellFormed : ∀ e ∈ rows, Row e

/-! ### The writer -/

def recorded (e : EmailEvent) : EmailEvent := { e with timestamp := e.timestamp / 1000 * 1000 }

namespace EventTable

def empty : EventTable := ⟨[], List.Pairwise.nil, nofun⟩

def insert (table : EventTable) (e : EmailEvent) : EventTable :=
  if new : Row e ∧ e.id ∉ table.rows.map EmailEvent.id then
    { rows := table.rows ++ [e]
      unique := by
        rw [map_append, nodup_append']
        refine ⟨table.unique, nodup_singleton _, fun id held same => ?_⟩
        exact new.2 (mem_singleton.mp same ▸ held)
      wellFormed := fun x mem => by
        rcases mem_append.mp mem with old | last
        · exact table.wellFormed x old
        · exact mem_singleton.mp last ▸ new.1 }
  else table

/-- One statement inserts a batch. If the database does not take one of its rows, it takes none. -/
def flush (table : EventTable) (batch : List EmailEvent) : EventTable :=
  if ∀ e ∈ batch, Row (recorded e) then (batch.map recorded).foldl insert table else table

variable {table : EventTable}

theorem foldl_insert_rows {events : List EmailEvent} (rows : ∀ e ∈ events, Row e)
    (distinct : ((table.rows ++ events).map EmailEvent.id).Nodup) :
    (events.foldl insert table).rows = table.rows ++ events := by
  induction events generalizing table with
  | nil => exact (append_nil _).symm
  | cons e _ ih =>
    have fresh : e.id ∉ table.rows.map EmailEvent.id := by
      rw [map_append, nodup_append'] at distinct
      exact fun held => distinct.2.2 held (by simp)
    have first : (table.insert e).rows = table.rows ++ [e] := by
      rw [insert, dif_pos ⟨rows e mem_cons_self, fresh⟩]
    rw [foldl_cons, ih (fun x mem => rows x (mem_cons_of_mem _ mem)), first,
      append_assoc, singleton_append]
    rwa [first, append_assoc, singleton_append]

theorem flush_all_rows {batches : List (List EmailEvent)} {t : EventTable}
    (rows : ∀ e ∈ batches.flatten, Row (recorded e))
    (distinct : ((t.rows ++ batches.flatten.map recorded).map EmailEvent.id).Nodup) :
    (batches.foldl flush t).rows = t.rows ++ batches.flatten.map recorded := by
  induction batches generalizing t with
  | nil => exact (append_nil _).symm
  | cons batch rest ih =>
    have parts : t.rows ++ (batch :: rest).flatten.map recorded =
        (t.rows ++ batch.map recorded) ++ rest.flatten.map recorded := by
      rw [flatten_cons, map_append, append_assoc]
    rw [parts] at distinct ⊢
    have whole : ∀ e ∈ batch, Row (recorded e) := fun e mem => rows e (mem_append_left _ mem)
    have first : (t.flush batch).rows = t.rows ++ batch.map recorded := by
      rw [flush, if_pos whole]
      refine foldl_insert_rows (fun e mem => ?_)
        (distinct.sublist ((sublist_append_left _ _).map _))
      obtain ⟨x, inside, rfl⟩ := mem_map.mp mem
      exact whole x inside
    have later := @ih (t.flush batch)
      (fun e mem => rows e (mem_append_right _ mem)) (by rwa [first])
    rw [foldl_cons, later, first]

end EventTable

/-! ### Page tokens -/

/-- What the rows are sorted by. -/
abbrev SortKey := Int ×ₗ Bytes

def sortKey (e : EmailEvent) : SortKey := toLex ((e.timestamp : Int), utf8 e.id)

def bar : Byte := 124

def encodePageToken (ts : Nat) (id : Bytes) : Bytes := Rfc3339.format ts ++ bar :: id

/-- `time.Parse` for RFC 3339: what is not in the strict form goes to the general parser. -/
def parseTime (general : Bytes → Except String Int) (s : Bytes) : Except String Int :=
  match Rfc3339.parse s with
  | some t => .ok t
  | none => general s

def decodePageToken (general : Bytes → Except String Int) (token : Bytes) :
    Except String (Int × Bytes) :=
  match token.dropWhile (· ≠ bar) with
  | [] => .error "malformed page token"
  | _ :: id =>
    match parseTime general (token.takeWhile (· ≠ bar)) with
    | .ok ts => .ok (ts, id)
    | .error why => .error ("malformed page token: " ++ why)

/-! ### The query -/

def ilike (m : CaseMapping) (pattern s : String) : Bool :=
  like (m.toLower pattern).toList (m.toLower s).toList

/-- The `WHERE` clause of a filter. -/
def accepts (m : CaseMapping) (tenantID : String) (f : ListFilter) (e : EmailEvent) : Bool :=
  e.tenantID = tenantID &&
  (f.messageID = "" || e.messageID = f.messageID) &&
  (f.recipient = "" || if f.recipientExact then e.recipient = f.recipient
    else ilike m ("%" ++ f.recipient ++ "%") e.recipient) &&
  (f.eventType = .unspecified || e.type = f.eventType) &&
  (f.subject = "" || ilike m ("%" ++ f.subject ++ "%") e.subject) &&
  (f.startTime = zeroTime || micros f.startTime ≤ e.timestamp) &&
  (f.endTime = zeroTime || e.timestamp ≤ micros f.endTime)

def size (f : ListFilter) : Nat :=
  if f.pageSize ≤ 0 ∨ f.pageSize > 500 then 50 else f.pageSize.toNat

def matching (m : CaseMapping) (table : EventTable) (tenantID : String) (f : ListFilter) :
    List EmailEvent :=
  table.rows.filter (accepts m tenantID f)

/-- What the rows are numbered in. -/
def partition (e : EmailEvent) : String × String := (e.messageID, e.recipient)

def query (f : ListFilter) (rows : List EmailEvent) (token : Option SortKey) : List EmailEvent :=
  if f.latestOnly then Keyset.listing sortKey partition rows token
  else Keyset.descending sortKey (Keyset.below sortKey rows token)

def tokenOf (general : Bytes → Except String Int) (token : Bytes) :
    Except String (Option (Int × Bytes)) :=
  if token = [] then .ok none else (decodePageToken general token).map some

/-- The parameters that the database reads as UUIDs. -/
def uuidParameters (tenantID : String) (f : ListFilter) (token : Option (Int × Bytes)) :
    List Bytes :=
  utf8 tenantID :: ((if f.messageID = "" then [] else [utf8 f.messageID]) ++
    (token.map Prod.snd).toList)

/-- One more than the page was asked for shows that there is another page. -/
def pageOf (size : Nat) (events : List EmailEvent) : List EmailEvent × Bytes :=
  if size < events.length then
    (events.take size, (events[size - 1]?.map fun last =>
      encodePageToken last.timestamp (utf8 last.id)).getD [])
  else (events, [])

def list (m : CaseMapping) (general : Bytes → Except String Int) (table : EventTable)
    (tenantID : String) (f : ListFilter) : Except String (List EmailEvent × Bytes) := do
  let token ← tokenOf general f.pageToken
  if (uuidParameters tenantID f token).all isUUID then
    let after := token.map fun t => toLex (micros t.1, t.2)
    let events := (query f (matching m table tenantID f) after).take (size f + 1)
    return pageOf (size f) events
  else throw "invalid input syntax for type uuid"

/-- Follow the tokens until there is none, for at most so many pages. -/
def listAll (m : CaseMapping) (general : Bytes → Except String Int) (table : EventTable)
    (tenantID : String) (f : ListFilter) : Nat → Bytes → Option (List EmailEvent)
  | 0, _ => none
  | pages + 1, token =>
    match list m general table tenantID { f with pageToken := token } with
    | .ok (events, next) =>
      if next = [] then some events
      else (listAll m general table tenantID f pages next).map (events ++ ·)
    | .error _ => none

/-! ### Tokens read back -/

theorem decode_encode (general : Bytes → Except String Int) {ts : Nat} (early : ts < Rfc3339.limit)
    (id : Bytes) : decodePageToken general (encodePageToken ts id) = .ok (ts, id) := by
  have free : ∀ b ∈ Rfc3339.format ts, decide (b ≠ bar) = true := fun b mem =>
    decide_eq_true fun same => Rfc3339.notMem_format early (by decide) (by decide) (same ▸ mem)
  have stops (l : Bytes) : (bar :: l).dropWhile (· ≠ bar) = bar :: l := by simp
  have ends (l : Bytes) : (bar :: l).takeWhile (· ≠ bar) = [] := by simp
  rw [decodePageToken, encodePageToken, dropWhile_append_of_pos free,
    takeWhile_append_of_pos free, stops, ends, append_nil, parseTime,
    Rfc3339.parse_format early]

variable {last : Option EmailEvent}

section
variable {table : EventTable} {e : EmailEvent}

theorem sortKeys_nodup (table : EventTable) : (table.rows.map sortKey).Nodup := by
  have ids : (table.rows.map fun e => utf8 e.id).Nodup := by
    have mapped := table.unique.map (fun _ _ => utf8_injective)
    rwa [map_map] at mapped
  refine List.Nodup.of_map (fun k => (ofLex k).2) ?_
  rw [map_map]
  exact ids

/-- The token of the page that ends with an event. -/
def tokenText : Option EmailEvent → Bytes
  | some last => encodePageToken last.timestamp (utf8 last.id)
  | none => []

theorem tokenText_some (last : EmailEvent) : tokenText (some last) ≠ [] := by
  simp [tokenText, encodePageToken]

theorem tokenOf_text (general : Bytes → Except String Int) (rows : ∀ e ∈ last, Row e) :
    tokenOf general (tokenText last) =
      .ok (last.map fun e => ((e.timestamp : Int), utf8 e.id)) := by
  cases last with
  | none => rfl
  | some e =>
    rw [tokenOf, if_neg (tokenText_some e), tokenText, decode_encode general (rows e rfl).dated]
    rfl

end

/-! ### Following the pages -/

section
variable {m : CaseMapping} {general : Bytes → Except String Int} {table : EventTable}
variable {t : String} {f : ListFilter}

theorem size_pos (f : ListFilter) : 0 < size f := by
  unfold size
  split <;> omega

def Castable (t : String) (f : ListFilter) : Prop :=
  isUUID (utf8 t) = true ∧ (f.messageID ≠ "" → isUUID (utf8 f.messageID) = true)

theorem parameters_cast (castable : Castable t f) (rows : ∀ e ∈ last, Row e) : (uuidParameters t f
      (last.map fun e => ((e.timestamp : Int), utf8 e.id))).all isUUID = true := by
  have message : (if f.messageID = "" then [] else [utf8 f.messageID]).all isUUID = true := by
    split
    · rfl
    next present => simp [castable.2 present]
  have token : ((last.map fun e => ((e.timestamp : Int), utf8 e.id)).map Prod.snd).toList.all
      isUUID = true := by
    cases last with
    | none => rfl
    | some e => simp [(rows e rfl).id]
  rw [uuidParameters, all_cons, all_append, castable.1, message, token]
  rfl

theorem list_after (castable : Castable t f) (rows : ∀ e ∈ last, Row e) :
    list m general table t { f with pageToken := tokenText last } =
      .ok (pageOf (size f)
        ((query f (matching m table t f) (last.map sortKey)).take (size f + 1))) := by
  have keys : (last.map fun e => ((e.timestamp : Int), utf8 e.id)).map
      (fun k => (toLex (micros k.1, k.2) : SortKey)) = last.map sortKey := by
    cases last with
    | none => rfl
    | some e =>
      simp only [Option.map_some, sortKey]
      rw [(rows e rfl).timestamp]
  have cast : (uuidParameters t { f with pageToken := tokenText last }
      (last.map fun e => ((e.timestamp : Int), utf8 e.id))).all isUUID = true :=
    parameters_cast castable rows
  simp only [list, tokenOf_text general rows]
  change (if _ then _ else _) = _
  rw [if_pos cast, keys]
  rfl

theorem pageOf_eq (events : List EmailEvent) : ∃ last : Option EmailEvent,
    (∀ e ∈ last, e ∈ events) ∧ Keyset.pageOf sortKey (size f) events =
      ((pageOf (size f) events).1, last.map sortKey) ∧
        (pageOf (size f) events).2 = tokenText last := by
  unfold pageOf Keyset.pageOf
  split
  · refine ⟨events[size f - 1]?, fun e found => mem_of_getElem? found, rfl, ?_⟩
    cases events[size f - 1]? <;> rfl
  · exact ⟨none, fun e found => (nomatch found), rfl, rfl⟩

theorem pageOf_first (n : Nat) (found : List EmailEvent) :
    (pageOf n (found.take (n + 1))).1 = found.take n := by
  unfold pageOf
  split
  · rw [take_take, Nat.min_eq_left (Nat.le_succ n)]
  next fits =>
    -- the limit did not cut anything off
    have short : found.length ≤ n := by
      rw [length_take] at fits
      omega
    rw [take_of_length_le short, take_of_length_le (Nat.le_succ_of_le short)]

theorem list_first (m : CaseMapping) (general : Bytes → Except String Int) (table : EventTable)
    (castable : Castable t f) (start : f.pageToken = []) : ∃ next, list m general table t f =
      .ok ((query f (matching m table t f) none).take (size f), next) := by
  have same : { f with pageToken := tokenText none } = f := by rw [tokenText, ← start]
  have page : list m general table t { f with pageToken := tokenText none } = _ :=
    list_after castable fun _ none_ => (nomatch none_)
  rw [same] at page
  refine ⟨_, page.trans (congrArg Except.ok (Prod.ext (pageOf_first _ _) rfl))⟩

theorem matching_distinct (m : CaseMapping) (table : EventTable) (t : String) (f : ListFilter) :
    ((matching m table t f).map sortKey).Nodup :=
  (sortKeys_nodup table).sublist (filter_sublist.map sortKey)

theorem listAll_eq (castable : Castable t f) (latest : f.latestOnly = true) (pages : Nat)
    (known : ∀ e ∈ last, e ∈ table.rows) : listAll m general table t f pages (tokenText last) =
      Keyset.follow sortKey partition (matching m table t f) (size f) pages (last.map sortKey) := by
  induction pages generalizing last with
  | zero => rfl
  | succ _ ih =>
    have rows : ∀ e ∈ last, Row e := fun e mem => table.wellFormed e (known e mem)
    have latest_ : query f (matching m table t f) (last.map sortKey) =
        Keyset.listing sortKey partition (matching m table t f) (last.map sortKey) := if_pos latest
    obtain ⟨next, among, page, token⟩ := pageOf_eq (f := f)
      ((query f (matching m table t f) (last.map sortKey)).take (size f + 1))
    simp only [listAll, Keyset.follow, list_after castable rows, token]
    rw [latest_] at among page ⊢
    rw [Keyset.page, page]
    cases next with
    | none => simp [tokenText]
    | some e =>
      have inside : e ∈ table.rows := by
        have listed := mem_of_mem_take (among e rfl)
        have found := Keyset.mem_of_below (Keyset.mem_listing.mp listed).1
        exact (mem_filter.mp found).1
      have later := @ih (some e) fun x same => by
        cases same
        exact inside
      rw [if_neg (tokenText_some e), later]
      simp only [Option.map_some]

end

/-- In every table and for every filter, following the pages of the latest events ends; it lists
each message and recipient of the matching events once, with the newest of them, if and only if no
page ends between that event and another matching one of them. -/
theorem latest_pages_once_iff (m : CaseMapping) (general : Bytes → Except String Int)
    (table : EventTable) (tenantID : String) (f : ListFilter) (castable : Castable tenantID f)
    (latest : f.latestOnly = true) : ∃ out : List EmailEvent, (∀ pages, table.rows.length < pages →
      listAll m general table tenantID f pages [] = some out) ∧
    (Keyset.Once sortKey partition (matching m table tenantID f) out ↔
      Keyset.Clear sortKey partition (matching m table tenantID f) (size f)) := by
  obtain ⟨out, ends, once⟩ :=
    Keyset.follow_once_iff partition (matching_distinct m table tenantID f) (size_pos f)
  refine ⟨out, fun pages enough => ?_, once⟩
  have fewer : (matching m table tenantID f).length < pages :=
    lt_of_le_of_lt (length_filter_le _ _) enough
  have start : listAll m general table tenantID f pages (tokenText none) = _ :=
    listAll_eq castable latest pages fun _ none_ => (nomatch none_)
  exact start.trans (ends pages fewer)

/-! ### A page that ends between two events of a recipient -/

def tenantA : String := "aaaaaaaa-0000-4000-8000-000000000000"

def eventOf (id messageID : String) (timestamp : Nat) : EmailEvent :=
  ⟨id, tenantA, "", "", messageID, .delivered, "a@x.org", "Hi", timestamp, ""⟩

def messageOne : String := "11111111-0000-4000-8000-000000000000"

def messageTwo : String := "22222222-0000-4000-8000-000000000000"

def messageThree : String := "33333333-0000-4000-8000-000000000000"

def latestEvents (pageSize : Int) : ListFilter :=
  ⟨pageSize, [], "", .unspecified, zeroTime, zeroTime, "", true, false, ""⟩

def newestOne := eventOf "00000000-0000-4000-8000-000000000001" messageOne 9000
def earlierOne := eventOf "00000000-0000-4000-8000-000000000002" messageOne 8000
def oldestOne := eventOf "00000000-0000-4000-8000-000000000003" messageOne 3000
def onlyTwo := eventOf "00000000-0000-4000-8000-000000000004" messageTwo 7000
def onlyThree := eventOf "00000000-0000-4000-8000-000000000005" messageThree 5000

def unbrokenTable : EventTable where
  rows := [earlierOne, newestOne, onlyThree, onlyTwo]
  unique := by decide
  wellFormed := by decide +kernel

/-- The older event of the first message is on the right side of the end of the page. -/
theorem latest_pages_once_unbroken : ∃ out,
    listAll .ascii (fun _ => .error "") unbrokenTable tenantA (latestEvents 2) 5 [] = some out ∧
    Keyset.Once sortKey partition (matching .ascii unbrokenTable tenantA (latestEvents 2)) out := by
  have castable : Castable tenantA (latestEvents 2) :=
    ⟨by decide +kernel, fun present => absurd rfl present⟩
  obtain ⟨out, listed, once⟩ := latest_pages_once_iff .ascii (fun _ => .error "") unbrokenTable
    tenantA (latestEvents 2) castable rfl
  refine ⟨out, listed 5 (by decide), once.mpr ?_⟩
  rw [Keyset.clear_iff (matching_distinct _ _ _ _)]
  have listing : Keyset.listing sortKey partition
      (matching .ascii unbrokenTable tenantA (latestEvents 2)) none =
        [newestOne, onlyTwo, onlyThree] := by decide +kernel
  intro k beyond
  rw [listing] at beyond ⊢
  have first : k = 0 ∨ k = 1 := by
    have two : size (latestEvents 2) = 2 := rfl
    simp only [two, length_cons, length_nil] at beyond
    omega
  rcases first with rfl | rfl
  · simp
  · decide +kernel

def brokenTable : EventTable where
  rows := [oldestOne, newestOne, onlyThree]
  unique := by decide
  wellFormed := by decide +kernel

/-- The first message is on the first page, and again on the third. -/
theorem latest_listed_twice :
    listAll .ascii (fun _ => .error "") brokenTable tenantA (latestEvents 1) 4 [] =
      some [newestOne, onlyThree, oldestOne] ∧
    newestOne.messageID = oldestOne.messageID ∧ newestOne.recipient = oldestOne.recipient ∧
    oldestOne.timestamp < newestOne.timestamp := by
  have listed : listAll .ascii (fun _ => .error "") brokenTable tenantA (latestEvents 1) 4 [] =
      some [newestOne, onlyThree, oldestOne] := by decide +kernel
  exact ⟨listed, rfl, rfl, by decide⟩

end Postgres
end Panmail.Events
