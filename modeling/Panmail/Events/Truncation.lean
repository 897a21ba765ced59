import Panmail.Events.PassProgress

/-!
# A retention pass from beginning to end

What a completed `truncateBefore` leaves of a store that nothing else writes to meanwhile, and
what it leaves alone: event by event, through every index that an event is read from.
-/
namespace Panmail.Events

open ByteStrings KeyValue Runs Delivery List Option Contents Store EventStore

/-! ### Reading an event -/

inductive ReadError where
  | invalidIndexValue | notFound | unreadable

/-- `GetByID`: the index names the tenant and the time, and with them the event. -/
def getByID (db : DB) (tenantID id : String) : Except ReadError (Option EmailEvent) :=
  match db.get (Key.eventID id).bytes with
  | none => .ok none
  | some (.event _) => .error .invalidIndexValue
  | some (.text idVal) =>
    match idVal.splitOn colon with
    | [actualTenantID, timestampDesc] =>
      if actualTenantID ≠ utf8 tenantID then .ok none
      else
        match db.get (Key.event tenantID timestampDesc id).bytes with
        | none => .error .notFound
        | some (.text _) => .error .unreadable
        | some (.event e) => .ok (some e)
    | _ => .error .invalidIndexValue

def listByMessageID (db : DB) (tenantID messageID : String) : List EmailEvent :=
  let start := utf8 "msg_events" ++ colon :: (utf8 tenantID ++ colon :: (utf8 messageID ++ [colon]))
  ((db.scan start (start ++ [255])).takeWhile fun r => start.isPrefixOf r.1).filterMap Pebble.body

/-! ### The states of a pass -/

/-- The states that a store goes through, between its steps and in the middle of a chunk, whose
events are archived one after another before its deletions are committed. -/
inductive Visits : EventStore → List StoreAction → EventStore → Prop where
  | here (s : EventStore) (as : List StoreAction) : Visits s as s
  | archiving {s : EventStore} {i : Nat} {x : Pass} (found : s.passes[i]? = some x)
      (held : List Bytes) (as : List StoreAction) (n : Nat) :
      Visits s (.expireChunk i held :: as) { s with
        archived := s.archived ++
          (expireChunk (x.remaining.take truncateBatchSize) held).archived.take n }
  | later {s t u : EventStore} {a : StoreAction} {as : List StoreAction}
      (taken : s.step a = some t) (rest : Visits t as u) : Visits s (a :: as) u

/-! ### Contents of a store -/

def idPart (k : Bytes) : Option Bytes :=
  match k.splitOn colon with
  | _ :: _ :: _ :: id :: _ => some id
  | _ => none

/-- The rows of a database are where they belong. There may be rows that cannot be read. -/
structure Filed (db : DB) : Prop where
  /-- A copy of an event is under one of its own keys. -/
  own : ∀ k e, db.get k = some (.event e) → k = (eventKey e).bytes ∨
    e.messageID ≠ "" ∧ (k = (msgEventKey e).bytes ∨ k = (Key.latestEvent (pairOf e) (tsDesc e)).bytes)
  keyable : ∀ k e, db.get k = some (.event e) → Keyable e
  /-- No two events have the same id. -/
  unique : ∀ k k' e e', db.get k = some (.event e) → db.get k' = some (.event e') →
    e.id = e'.id → e = e'
  /-- Nor do two rows of events. -/
  rows : ∀ r ∈ db.scan (utf8 "events:") (utf8 "events;"),
    ∀ r' ∈ db.scan (utf8 "events:") (utf8 "events;"), idPart r.1 = idPart r'.1 → r = r'
  indexed : ∀ e ∈ stored db,
    db.get (idKey e).bytes = some (.text (utf8 e.tenantID ++ colon :: tsDesc e))
  /-- An entry of the index of latest events is the one its pointer names. -/
  pointed : ∀ e, e.messageID ≠ "" →
    db.get (Key.latestEvent (pairOf e) (tsDesc e)).bytes = some (.event e) →
      db.get (Key.latestTs (pairOf e)).bytes = some (.text (tsDesc e))

/-! ### The events of a pass -/

def expiredBefore (db : DB) (before : Int) : List ExpiredEvent :=
  (db.scan (utf8 "events:") (utf8 "events;")).filterMap
    (expiredRow (int64 (maxInt64 - unixNano before)))

theorem progress_start {s t : EventStore} {before : Int}
    (quiet : s.batch = [] ∧ s.batchLatestTs = .empty)
    (taken : s.step (.truncateBefore before) = some t) :
    Progress s s.passes.length (expiredBefore s.db before) t [] (expiredBefore s.db before) [] [] := by
  simp only [step] at taken
  split at taken
  · cases taken
  obtain rfl := some.inj taken
  exact {
    split := rfl
    idle := quiet
    pass := ⟨_, getElem?_concat_length, rfl, rfl⟩
    pointers := rfl
    archived := (append_nil _).symm
    kept := fun _ => .inl rfl
    justified := fun _ changed => absurd rfl changed
    deleted := forall_mem_nil _
    dropped := forall_mem_nil _ }

section
variable {db : DB} {e : EmailEvent} {before : Int} {r : ExpiredEvent}

theorem bodyOf_iff : bodyOf r = some e ↔ r.value = .event e := by
  unfold bodyOf
  cases r.value with
  | event | text => simp

theorem expiredRow_some {cutoff : Int} {row : Bytes × Value} (old : expiredRow cutoff row = some r) :
    row = (r.key, r.value) ∧ idPart r.key = some r.id := by
  unfold expiredRow at old
  split at old
  next parts =>
    split at old
    · cases old
    obtain rfl := some.inj old
    exact ⟨rfl, by simp [idPart, parts]⟩
  · cases old

theorem row_of_expired (mem : r ∈ expiredBefore db before) :
    (r.key, r.value) ∈ db.scan (utf8 "events:") (utf8 "events;") ∧ idPart r.key = some r.id := by
  obtain ⟨row, scanned, old⟩ := mem_filterMap.mp mem
  obtain ⟨rfl, id⟩ := expiredRow_some old
  exact ⟨scanned, id⟩

theorem idPart_eventKey (keyable : Keyable e) : idPart (eventKey e).bytes = some (utf8 e.id) := by
  rw [idPart, splitOn_eventKey keyable]

theorem eventKey_between (e : EmailEvent) :
    utf8 "events:" ≤ (eventKey e).bytes ∧ (eventKey e).bytes < utf8 "events;" := by
  have lower : utf8 "events:" = utf8 "events" ++ [colon] := by decide
  have upper : utf8 "events;" = utf8 "events" ++ [59] := by decide
  have shape : (eventKey e).bytes = utf8 "events" ++ colon :: (eventKey e).parts := rfl
  rw [lower, upper, shape]
  constructor
  · rw [← not_lt, append_lt_append_left]
    simp
  · rw [append_lt_append_left]
    exact cons_lt_cons_iff.mpr (.inl (by decide))

theorem Filed.eventKey_of_scanned (filed : Filed db) {k : Bytes}
    (row : (k, .event e) ∈ db.scan (utf8 "events:") (utf8 "events;")) : k = (eventKey e).bytes := by
  obtain ⟨found, low, high⟩ := mem_scan.mp row
  obtain ⟨rest, start⟩ := start_of_scanned low high
  rcases filed.own k e found with own | ⟨_, timeline | latest⟩
  · exact own
  · have family := (family_of_bytes (by decide) (timeline.symm.trans start)).1
    simp [msgEventKey, Key.family] at family
  · have family := (family_of_bytes (by decide) (latest.symm.trans start)).1
    simp [Key.family] at family

theorem cutoff_eq (dated : Datable before) :
    int64 (maxInt64 - unixNano before) = maxInt64 - before := by
  have low := dated.1
  have high := dated.2
  rw [unixNano_of_datable dated, int64_of_range (by omega) (by omega)]

theorem Filed.expired_iff (filed : Filed db) (dated : Datable before) (mem : e ∈ stored db) :
    expiredOf e ∈ expiredBefore db before ↔ (e.timestamp : Int) < before := by
  have found := mem_stored.mp mem
  have keyable := filed.keyable _ _ found
  have row : rowOf e ∈ db.scan (utf8 "events:") (utf8 "events;") :=
    mem_scan.mpr ⟨found, eventKey_between e⟩
  have read := expiredRow_rowOf keyable (maxInt64 - before)
  unfold expiredBefore
  rw [cutoff_eq dated, mem_filterMap]
  constructor
  · rintro ⟨row, _, old⟩
    obtain ⟨same, _⟩ := expiredRow_some old
    have own : row = rowOf e := same
    by_contra late
    rw [own, read, if_pos (by omega)] at old
    cases old
  · intro early
    exact ⟨rowOf e, row, by rw [read, if_neg (by omega)]⟩

theorem Filed.body_of_expired (filed : Filed db) (dated : Datable before)
    (mem : r ∈ expiredBefore db before) (body : bodyOf r = some e) :
    r = expiredOf e ∧ e ∈ stored db ∧ (e.timestamp : Int) < before := by
  obtain ⟨row, id⟩ := row_of_expired mem
  have value := bodyOf_iff.mp body
  rw [value] at row
  have key := filed.eventKey_of_scanned row
  have found := (mem_scan.mp row).1
  have keyable := filed.keyable _ _ found
  have stored_ : e ∈ stored db := mem_stored.mpr (key ▸ found)
  have part := idPart_eventKey keyable
  have same : r = expiredOf e := by
    rw [key, part, some.injEq] at id
    cases r
    simp only at value key id
    rw [value, key, ← id]
    rfl
  exact ⟨same, stored_, (filed.expired_iff dated stored_).mp (same ▸ mem)⟩

theorem Filed.tidy (filed : Filed db) (mem : r ∈ expiredBefore db before) : Tidy r := by
  obtain ⟨row, _⟩ := row_of_expired mem
  obtain ⟨found, low, high⟩ := mem_scan.mp row
  refine ⟨start_of_scanned low high, fun q pointer => ?_⟩
  obtain ⟨e, body, named⟩ := bind_eq_some_iff.mp pointer
  have value := bodyOf_iff.mp body
  rw [value] at found
  have keyable := filed.keyable _ _ found
  split at named
  · cases named
  obtain rfl := some.inj named
  exact ⟨keyable.tenantID, keyable.tsDesc_ne_nil⟩

end

section
variable {s u : EventStore} {i : Nat} {gone rest : List ExpiredEvent}
variable {done handed : List LatestPointer} {e : EmailEvent} {before : Int}

section
variable (progress : Progress s i (expiredBefore s.db before) u gone rest done handed)
include progress

theorem Progress.unchanged {k : Bytes} {v : Value} (found : u.db.get k = some v) :
    s.db.get k = some v := by
  rcases progress.kept k with same | none_
  · exact same ▸ found
  · cases none_.symm.trans found

theorem Progress.mem_expired {r : ExpiredEvent} (inside : r ∈ gone) :
    r ∈ expiredBefore s.db before :=
  progress.split ▸ mem_append_left _ inside

theorem Progress.eventRow (filed : Filed s.db) (mem : e ∈ stored s.db)
    (changed : u.db.get (eventKey e).bytes ≠ s.db.get (eventKey e).bytes) : expiredOf e ∈ gone := by
  have found := mem_stored.mp mem
  obtain ⟨r, inside, same⟩ := progress.cause (fun _ => filed.tidy) changed
  obtain ⟨row, id⟩ := row_of_expired (progress.mem_expired inside)
  have value : r.value = .event e := by
    have here := (mem_scan.mp row).1
    rw [← same, found] at here
    exact (some.inj here).symm
  rw [← same, idPart_eventKey (filed.keyable _ _ found), some.injEq] at id
  have own : r = expiredOf e := by
    cases r
    simp only at value same id
    rw [value, ← same, ← id]
    rfl
  exact own ▸ inside

theorem Progress.stored_or_archived (filed : Filed s.db) (mem : e ∈ stored s.db) :
    e ∈ stored u.db ∨ e ∈ gone.filterMap bodyOf := by
  by_cases changed : u.db.get (eventKey e).bytes = s.db.get (eventKey e).bytes
  · exact .inl (mem_stored.mpr (changed.trans (mem_stored.mp mem)))
  · right
    exact mem_filterMap.mpr ⟨_, progress.eventRow filed mem changed, rfl⟩

end

variable (filed : Filed s.db) (dated : Datable before)
variable (progress : Progress s i (expiredBefore s.db before) u gone rest done handed)

include filed dated progress

theorem Progress.origin {q : LatestPointer} (mem : q ∈ done) :
    ∃ e ∈ stored s.db, (e.timestamp : Int) < before ∧ q = ⟨pairOf e, tsDesc e⟩ := by
  obtain ⟨r, inside, pointer⟩ : ∃ r ∈ gone, pointerOf r = some q := by
    apply mem_filterMap.mp
    rw [progress.pointers]
    exact mem_append_left _ mem
  obtain ⟨e, body, named⟩ := bind_eq_some_iff.mp pointer
  obtain ⟨_, stored_, early⟩ := filed.body_of_expired dated
    (progress.mem_expired inside) body
  split at named
  · cases named
  · exact ⟨e, stored_, early, (some.inj named).symm⟩

theorem Progress.keeps (mem : e ∈ stored s.db) (late : before ≤ e.timestamp) {k : Bytes}
    (found : s.db.get k = some (.event e)) : u.db.get k = some (.event e) := by
  by_contra lost
  have changed : u.db.get k ≠ s.db.get k := fun same => lost (same.trans found)
  have keyable := filed.keyable _ _ found
  have spared : expiredOf e ∉ expiredBefore s.db before := fun expired =>
    absurd ((filed.expired_iff dated mem).mp expired) (not_lt.mpr late)
  rcases filed.own k e found with rfl | ⟨present, rfl | rfl⟩
  · exact spared (progress.mem_expired (progress.eventRow filed mem changed))
  · -- the timeline entry of another event is another row
    obtain ⟨r, inside, e', body, _, same⟩ := progress.cause (fun _ => filed.tidy) changed
    obtain ⟨own, stored', _⟩ := filed.body_of_expired dated (progress.mem_expired inside) body
    have found' := mem_stored.mp stored'
    have keyable' := filed.keyable _ _ found'
    have keys := Key.bytes_inj keyable.msgEventKey_plain keyable'.msgEventKey_plain same
    simp only [msgEventKey, Key.msgEvent.injEq] at keys
    have equal := filed.unique _ _ e e' found found' keys.2.2
    exact spared (equal ▸ own ▸ progress.mem_expired inside)
  · -- a pointer that is dropped names an instant before the cutoff
    obtain ⟨q, from_, same⟩ := progress.cause (fun _ => filed.tidy) changed
    obtain ⟨e', stored', early, rfl⟩ := progress.origin filed dated from_
    have keyable' := filed.keyable _ _ (mem_stored.mp stored')
    have keys := Key.bytes_inj (k := .latestEvent (pairOf e) (tsDesc e))
      (l := .latestEvent (pairOf e') (tsDesc e')) ⟨keyable.pair_plain, keyable.tsDesc_plain⟩
      ⟨keyable'.pair_plain, keyable'.tsDesc_plain⟩ same
    rw [Key.latestEvent.injEq] at keys
    have time := (descendingTimestamp_inj keyable.timestamp keyable'.timestamp).mp keys.2
    omega

theorem Progress.keeps_id (mem : e ∈ stored s.db) (late : before ≤ e.timestamp) :
    u.db.get (idKey e).bytes = s.db.get (idKey e).bytes := by
  by_contra changed
  have found := mem_stored.mp mem
  obtain ⟨r, inside, id⟩ := progress.cause (fun _ => filed.tidy) changed
  -- an expired row with this id is the event's own
  have whole := progress.mem_expired inside
  obtain ⟨row, part⟩ := row_of_expired whole
  have own := filed.rows _ row _ (mem_scan.mpr ⟨found, eventKey_between e⟩) (by
    rw [part, idPart_eventKey (filed.keyable _ _ found), ← id])
  have body : bodyOf r = some e := bodyOf_iff.mpr (congrArg Prod.snd own)
  have early := (filed.body_of_expired dated whole body).2.2
  omega

end

section
variable {s u : EventStore} {i : Nat} {done : List LatestPointer} {e : EmailEvent} {before : Int}
variable (filed : Filed s.db) (dated : Datable before)
variable (progress : Progress s i (expiredBefore s.db before) u (expiredBefore s.db before) [] done [])

include filed dated progress

theorem Progress.removes (mem : e ∈ stored s.db) (early : (e.timestamp : Int) < before) :
    u.db.get (idKey e).bytes = none ∧ (e.messageID ≠ "" → u.db.get (msgEventKey e).bytes = none ∧
        u.db.get (Key.latestTs (pairOf e)).bytes ≠ some (.text (tsDesc e))) ∧
      ∀ k, u.db.get k ≠ some (.event e) := by
  have expired := (filed.expired_iff dated mem).mpr early
  have gone := progress.deleted _ expired
  have id : (idKey e).bytes ∈ expiredKeys (expiredOf e) := by
    apply mem_append_right
    simp [idKey, Key.bytes, Key.family, Key.parts, expiredOf]
  have row : (eventKey e).bytes ∈ expiredKeys (expiredOf e) := by
    apply mem_append_right
    simp [expiredOf]
  have timeline (present : e.messageID ≠ "") : (msgEventKey e).bytes ∈ expiredKeys (expiredOf e) := by
    apply mem_append_left
    simp [expiredOf, present]
  have pointer (present : e.messageID ≠ "") : (⟨pairOf e, tsDesc e⟩ : LatestPointer) ∈ done := by
    have handed : (⟨pairOf e, tsDesc e⟩ : LatestPointer) ∈
        (expiredBefore s.db before).filterMap pointerOf :=
      mem_filterMap.mpr ⟨_, expired, by simp [pointerOf, bodyOf, expiredOf, present]⟩
    rw [progress.pointers, append_nil] at handed
    exact handed
  refine ⟨gone _ id, fun present => ⟨gone _ (timeline present), fun named => ?_⟩, fun k found => ?_⟩
  · have dropped := progress.dropped _ (pointer present) (progress.unchanged named) _
      (mem_cons_of_mem _ mem_cons_self)
    rw [dropped] at named
    cases named
  · have before_ := progress.unchanged found
    -- an event is stored under three keys, and all of them were to be deleted
    rcases filed.own k e before_ with rfl | ⟨present, rfl | rfl⟩
    · rw [gone _ row] at found
      cases found
    · rw [gone _ (timeline present)] at found
      cases found
    · have named := filed.pointed e present before_
      rw [progress.dropped _ (pointer present) named _ mem_cons_self] at found
      cases found

theorem Progress.stored_iff : e ∈ stored u.db ↔ e ∈ stored s.db ∧ before ≤ e.timestamp := by
  constructor
  · intro mem
    have found := mem_stored.mp mem
    have was : e ∈ stored s.db := mem_stored.mpr (progress.unchanged found)
    refine ⟨was, ?_⟩
    by_contra early
    exact (progress.removes filed dated was (not_le.mp early)).2.2 _ found
  · rintro ⟨mem, late⟩
    exact mem_stored.mpr (progress.keeps filed dated mem late (mem_stored.mp mem))

end

/-! ### Reading after a pass -/

section
variable {s u : EventStore} {e : EmailEvent} {db : DB}

theorem getByID_stored (filed : Filed db) (mem : e ∈ stored db)
    (row : u.db.get (eventKey e).bytes = some (.event e))
    (index : u.db.get (idKey e).bytes = db.get (idKey e).bytes) (t : String) :
    getByID u.db t e.id = .ok (if e.tenantID = t then some e else none) := by
  have keyable := filed.keyable _ _ (mem_stored.mp mem)
  have idVal := index.trans (filed.indexed e mem)
  have parts : (utf8 e.tenantID ++ colon :: tsDesc e).splitOn colon =
      [utf8 e.tenantID, tsDesc e] := by
    rw [splitOn_append_cons_self_of_not_mem keyable.tenantID.notMem,
      splitOn_eq_singleton keyable.tsDesc_plain]
  have key : (Key.eventID e.id).bytes = (idKey e).bytes := rfl
  unfold getByID
  simp only [key, idVal, parts]
  by_cases own : e.tenantID = t
  · have place : (Key.event t (tsDesc e) e.id).bytes = (eventKey e).bytes := by
      rw [← own]
      rfl
    simp [own, place, row]
  · simp [own]

theorem listByMessageID_eq (db : DB) (t m : String) : listByMessageID db t m =
    (db.scan (utf8 "msg_events" ++ colon :: (utf8 t ++ colon :: (utf8 m ++ [colon])))
      (utf8 "msg_events" ++ colon :: (utf8 t ++ colon :: (utf8 m ++ [colon])) ++ [255])).filterMap
        Pebble.body := by
  unfold listByMessageID
  simp only
  congr 1
  apply takeWhile_eq_self_iff.mpr
  rintro ⟨k, v⟩ row
  obtain ⟨_, low, high⟩ := mem_scan.mp row
  rw [← append_nil (utf8 "msg_events" ++ _)] at low
  obtain ⟨rest, rfl⟩ := start_of_between low high
  exact isPrefixOf_iff_prefix.mpr (prefix_append _ _)

theorem mem_bodies_iff (less : ∀ k v, u.db.get k = some v → s.db.get k = some v)
    (same : ∀ k, s.db.get k = some (.event e) → u.db.get k = some (.event e)) (lower upper : Bytes)
    (p : Bytes × Value → Bool) : e ∈ ((u.db.scan lower upper).filter p).filterMap Pebble.body ↔
      e ∈ ((s.db.scan lower upper).filter p).filterMap Pebble.body := by
  have body {k : Bytes} {v : Value} : Pebble.body (k, v) = some e ↔ v = .event e := by
    cases v with
    | event | text => simp [Pebble.body]
  simp only [mem_filterMap, mem_filter, Prod.exists]
  constructor
  · rintro ⟨k, v, ⟨row, wanted⟩, found⟩
    obtain ⟨there, bounds⟩ := mem_scan.mp row
    exact ⟨k, v, ⟨mem_scan.mpr ⟨less k v there, bounds⟩, wanted⟩, found⟩
  · rintro ⟨k, v, ⟨row, wanted⟩, found⟩
    obtain ⟨there, bounds⟩ := mem_scan.mp row
    obtain rfl := body.mp found
    exact ⟨k, _, ⟨mem_scan.mpr ⟨same k there, bounds⟩, wanted⟩, found⟩

end

/-! ### A whole pass -/

section
variable {s s' u : EventStore} {before : Int} {bs : List StoreAction} {i : Nat}
variable {gone rest : List ExpiredEvent} {done handed : List LatestPointer}

section
variable (filed : Filed s.db)
  (progress : Progress s i (expiredBefore s.db before) u gone rest done handed)
  (own : ∀ b ∈ bs, PassStep i b)
include filed progress own

theorem Progress.exec (run : exec EventStore.step u bs = some s') : ∃ gone' rest' done' handed',
      Progress s i (expiredBefore s.db before) s' gone' rest' done' handed' := by
  induction bs generalizing u gone rest done handed with
  | nil =>
    obtain rfl := some.inj run
    exact ⟨_, _, _, _, progress⟩
  | cons b _ ih =>
    obtain ⟨t, taken, later⟩ := bind_eq_some_iff.mp run
    obtain ⟨_, _, _, _, next⟩ := progress.step (fun _ => filed.tidy) (own b mem_cons_self) taken
    exact ih next (fun x mem => own x (mem_cons_of_mem _ mem)) later

/-- In every state that a pass goes through, what is no longer stored is in its archive. -/
theorem Progress.visits {v : EventStore} (visits : Visits u bs v) {e : EmailEvent}
    (mem : e ∈ stored s.db) : e ∈ stored v.db ∨ e ∈ v.archived.drop s.archived.length := by
  have here {w : EventStore} {gone rest : List ExpiredEvent} {done handed : List LatestPointer}
      (progress : Progress s i (expiredBefore s.db before) w gone rest done handed) :
      e ∈ stored w.db ∨ e ∈ w.archived.drop s.archived.length := by
    rw [progress.archived, drop_left]
    exact progress.stored_or_archived filed mem
  induction visits generalizing gone rest done handed with
  | here => exact here progress
  | @archiving u j x found held as n =>
    -- the database is still the one before the chunk
    rcases here progress with stored_ | archived
    · exact .inl stored_
    · right
      have longer : s.archived.length ≤ u.archived.length := by
        rw [progress.archived]
        simp
      simp only [drop_append_of_le_length longer]
      exact mem_append_left _ archived
  | later taken _ ih =>
    obtain ⟨_, _, _, _, next⟩ := progress.step (fun _ => filed.tidy) (own _ mem_cons_self) taken
    exact ih next fun x mem => own x (mem_cons_of_mem _ mem)

end

theorem Progress.completed
    (progress : Progress s i (expiredBefore s.db before) u gone rest done handed)
    (complete : u.passes[i]?.any Pass.completed = true) :
    Progress s i (expiredBefore s.db before) u (expiredBefore s.db before) [] done [] := by
  obtain ⟨x, found, remaining, waiting⟩ := progress.pass
  rw [found, any_some, Pass.completed_iff] at complete
  have none_ : rest = [] := remaining.symm.trans complete.1
  have idle : handed = [] := waiting.symm.trans complete.2
  subst none_ idle
  have all : gone = expiredBefore s.db before := by rw [← progress.split, append_nil]
  exact all ▸ progress

/-- A pass that completes on a store nothing else writes to removes exactly the events before the
cutoff, with all their entries; each is archived before its row goes; and every other event is read
by its id, in its message's timeline and in every listing as before, in the same order. -/
theorem truncate_exact (filed : Filed s.db) (quiet : s.batch = [] ∧ s.batchLatestTs = .empty)
    (dated : Datable before)
    (run : Runs.exec EventStore.step s (.truncateBefore before :: bs) = some s')
    (own : ∀ b ∈ bs, PassStep s.passes.length b)
    (complete : s'.passes[s.passes.length]?.any Pass.completed = true) :
    (∀ e, e ∈ stored s'.db ↔ e ∈ stored s.db ∧ before ≤ e.timestamp) ∧
    (∀ e ∈ stored s.db, (e.timestamp : Int) < before → s'.db.get (idKey e).bytes = none ∧
      (e.messageID ≠ "" → s'.db.get (msgEventKey e).bytes = none ∧
        s'.db.get (Key.latestTs (pairOf e)).bytes ≠ some (.text (tsDesc e))) ∧
      ∀ k, s'.db.get k ≠ some (.event e)) ∧
    (∀ u, Visits s (.truncateBefore before :: bs) u → ∀ e ∈ stored s.db,
      e ∈ stored u.db ∨ e ∈ u.archived.drop s.archived.length) ∧
    (∀ e ∈ stored s.db, before ≤ e.timestamp → (∀ t, getByID s'.db t e.id = getByID s.db t e.id) ∧
      (∀ t m, e ∈ listByMessageID s'.db t m ↔ e ∈ listByMessageID s.db t m) ∧
      ∀ m t f, e ∈ Pebble.walked m s'.db t f ↔ e ∈ Pebble.walked m s.db t f) ∧
    (∀ t m, (listByMessageID s'.db t m).Sublist (listByMessageID s.db t m)) ∧
    ∀ m t f, (Pebble.walked m s'.db t f).Sublist (Pebble.walked m s.db t f) ∧
      (∀ pages, s.db.rows.length < pages →
        Pebble.listAll m s.db t f pages [] = some (Pebble.walked m s.db t f)) ∧
      ∀ pages, s'.db.rows.length < pages →
        Pebble.listAll m s'.db t f pages [] = some (Pebble.walked m s'.db t f) := by
  obtain ⟨t, taken, later⟩ := Option.bind_eq_some_iff.mp run
  have start := progress_start quiet taken
  obtain ⟨gone, rest, done, handed, progress⟩ := start.exec filed own later
  have final := progress.completed complete
  -- a pass only deletes, so all listings shrink with the rows
  have less : ∀ k v, s'.db.get k = some v → s.db.get k = some v := fun _ _ => final.unchanged
  have rows := Store.rows_sublist less
  refine ⟨fun e => final.stored_iff filed dated, fun e => final.removes filed dated, ?_, ?_, ?_, ?_⟩
  · intro u visits e member
    cases visits with
    | here => exact .inl member
    | later taken' rest' =>
      rw [taken] at taken'
      obtain rfl := Option.some.inj taken'
      exact start.visits filed own rest' member
  · intro e member late
    have keeps {k : Bytes} := final.keeps filed dated member late (k := k)
    refine ⟨fun t => ?_, fun t m => ?_, fun m t f => ?_⟩
    · rw [getByID_stored filed member (keeps (mem_stored.mp member))
          (final.keeps_id filed dated member late),
        getByID_stored (u := s) filed member (mem_stored.mp member) rfl]
    · rw [listByMessageID_eq, listByMessageID_eq]
      have all (lower upper : Bytes) :=
        mem_bodies_iff less (fun k => keeps) lower upper (fun _ => true)
      simp only [filter_true] at all
      exact all _ _
    · exact mem_bodies_iff less (fun k => keeps) _ _ _
  · intro t m
    rw [listByMessageID_eq, listByMessageID_eq]
    exact (rows.filter _).filterMap _
  · intro m t f
    refine ⟨((rows.filter _).filter _).filterMap _, fun _ => Pebble.listAll_walked,
      fun _ => Pebble.listAll_walked⟩

end

/-! ### Every store is filed -/

section
variable {db : DB} {c : Contents}

theorem filed_of_represents (reads : Represents db c) (keyable : ∀ e ∈ c.stored, Keyable e)
    (unique : ∀ e e', (e ∈ c.stored ∨ ∃ p, c.latest p = some e) →
      (e' ∈ c.stored ∨ ∃ p, c.latest p = some e') → e.id = e'.id → e = e')
    (targeted : ∀ p e, c.latest p = some e → Keyable e ∧ pairOf e = p ∧ e.messageID ≠ "") :
    Filed db := by
  have known : ∀ p e, c.latest p = some e → Keyable e := fun p e latest => (targeted p e latest).1
  -- every row is of one of the five kinds of keys, and says what the contents say
  have holds {k : Bytes} {v : Value} (found : db.get k = some v) :
      ∃ key : Key, key.Plain ∧ k = key.bytes ∧ c.Holds key v := by
    obtain ⟨key, plain, rfl⟩ := reads.keyed k v found
    exact ⟨key, plain, rfl, (reads.get_iff key plain v).mp found⟩
  have source {k : Bytes} {e : EmailEvent} (found : db.get k = some (.event e)) :
      e ∈ c.stored ∨ ∃ p, c.latest p = some e := by
    obtain ⟨key, _, _, row⟩ := holds found
    exact mem_of_holds row
  constructor
  · intro k e found
    obtain ⟨key, _, rfl, row⟩ := holds found
    cases key with
    | event =>
      obtain ⟨e', _, at_, body⟩ := holds_event.mp row
      obtain rfl := Value.event.inj body
      exact .inl (congrArg Key.bytes at_)
    | msgEvent =>
      obtain ⟨e', _, present, at_, body⟩ := holds_msgEvent.mp row
      obtain rfl := Value.event.inj body
      exact .inr ⟨present, .inl (congrArg Key.bytes at_)⟩
    | latestEvent p =>
      obtain ⟨e', latest, at_, body⟩ := holds_latestEvent.mp row
      obtain rfl := Value.event.inj body
      obtain ⟨_, of, present⟩ := targeted p e latest
      exact .inr ⟨present, .inr (by rw [at_, of])⟩
    | latestTs =>
      obtain ⟨_, _, body⟩ := holds_latestTs.mp row
      cases body
    | eventID id =>
      have of : (Key.eventID id).id? = some id := rfl
      obtain ⟨e', _, entry⟩ := (holds_of_id of).mp row
      simp only [entries, mem_append, mem_cons, Prod.mk.injEq, not_mem_nil, or_false,
        eventKey, reduceCtorEq, false_and, and_false, false_or] at entry
      split at entry
      · cases entry
      · simp [msgEventKey] at entry
  · intro k e found
    exact reads.keyable_of_row keyable known found
  · intro k k' e e' found found'
    exact unique e e' (source found) (source found')
  · intro r row r' row' same
    obtain ⟨e, mem, rfl⟩ := mem_scan_events reads row
    obtain ⟨e', mem', rfl⟩ := mem_scan_events reads row'
    -- the id is the part of the key that deletions are told apart by
    have ids : utf8 e.id = utf8 e'.id := by
      have parts : idPart (eventKey e).bytes = idPart (eventKey e').bytes := same
      rw [idPart_eventKey (keyable e mem), idPart_eventKey (keyable e' mem')] at parts
      exact some.inj parts
    rw [unique e e' (.inl mem) (.inl mem') (utf8_injective ids)]
  · intro e mem
    have live := (reads.mem_stored keyable known).mp mem
    exact (reads.get_iff (idKey e) trivial _).mpr (.inl ⟨e, live, by simp [entries]⟩)
  · intro e present found
    have plain := (reads.keyable_of_row keyable known found)
    obtain ⟨e', latest, _, body⟩ := holds_latestEvent.mp
      ((reads.get_iff (.latestEvent (pairOf e) (tsDesc e)) ⟨plain.pair_plain, plain.tsDesc_plain⟩
        _).mp found)
    obtain rfl := Value.event.inj body
    exact (reads.get_iff (.latestTs (pairOf e)) plain.pair_plain _).mpr
      (holds_latestTs.mpr ⟨e, latest, rfl⟩)

theorem filed_of_run {as : List StoreAction} {s : EventStore}
    (run : exec step .init as = some s) (along : AllSteps step Proper .init as) :
    Filed s.db := by
  obtain ⟨cd, cv, inv⟩ := indexed_of_run run along
  have written {e : EmailEvent} (source : e ∈ cd.stored ∨ ∃ p, cd.latest p = some e) :
      e ∈ s.written := by
    rcases source with mem | ⟨p, latest⟩
    · exact (inv.committed e mem).1.1
    · exact (inv.dbTargeted p e latest).1
  refine filed_of_represents inv.db (fun e mem => inv.keyable e (written (.inl mem)))
    (fun e e' source source' => inv.unique e (written source) e' (written source')) ?_
  intro p e latest
  obtain ⟨mem, of⟩ := inv.dbTargeted p e latest
  exact ⟨inv.keyable e mem, of⟩

/-- In every state a run reaches, in the middle of a pass too, a stored event is found by its id: by
its own tenant, and by no other. -/
theorem getByID_of_run {as : List StoreAction} {s : EventStore} {e : EmailEvent}
    (run : exec step .init as = some s) (along : AllSteps step Proper .init as)
    (mem : e ∈ stored s.db) (t : String) :
    getByID s.db t e.id = .ok (if e.tenantID = t then some e else none) :=
  getByID_stored (filed_of_run run along) mem (mem_stored.mp mem) rfl t

/-- Between the chunks of a pass over the older of two events. -/
def midPass : List StoreAction := twoRecipients ++ [.truncateBefore 7, .expireChunk 0 []]

theorem getByID_midPass : ∃ s, exec step .init midPass = some s ∧
    (∃ p ∈ s.passes, p.completed = false) ∧
    getByID s.db "t1" bouncedAtB.id = .ok (some bouncedAtB) ∧
    getByID s.db "t2" bouncedAtB.id = .ok none := by
  have runs : ∃ s ∈ exec step .init midPass, (∃ p ∈ s.passes, p.completed = false) ∧
      bouncedAtB ∈ stored s.db := by decide +kernel
  have along : AllSteps step Proper .init midPass := by decide +kernel
  obtain ⟨s, run, open_, mem⟩ := runs
  exact ⟨s, run, open_, getByID_of_run run along mem "t1", getByID_of_run run along mem "t2"⟩

end

/-! ### A pass over two events -/

def expireFirst : List StoreAction := [.expireChunk 0 [], .expireLatest 0]

/-- The older of two recipients' events goes, the other stays. -/
theorem truncate_two_recipients : ∃ s s', exec EventStore.step .init twoRecipients = some s ∧
    exec EventStore.step s (.truncateBefore 7 :: expireFirst) = some s' ∧
    (∀ e, e ∈ stored s'.db ↔ e ∈ stored s.db ∧ (7 : Int) ≤ e.timestamp) ∧
    openedByA ∈ stored s.db ∧ bouncedAtB ∈ stored s.db := by
  have runs : ∃ s ∈ exec EventStore.step .init twoRecipients,
      ∃ s' ∈ exec EventStore.step s (.truncateBefore 7 :: expireFirst),
        (∃ x ∈ s'.passes[s.passes.length]?, x.completed = true) ∧ s.passes.isEmpty ∧
          s.batch.isEmpty ∧ s.batchLatestTs.rows.isEmpty ∧ openedByA ∈ stored s.db ∧
            bouncedAtB ∈ stored s.db := by decide +kernel
  have along : AllSteps EventStore.step Proper .init twoRecipients := by decide +kernel
  simp only [List.isEmpty_iff] at runs
  obtain ⟨s, run, s', pass, ⟨x, found, finished⟩, none_, batch, cache, first, second⟩ := runs
  have clean : s.batchLatestTs = .empty := Store.ext_get fun k => by
    rw [Store.get, cache]
    rfl
  have own : ∀ b ∈ expireFirst, PassStep s.passes.length b := by
    rw [none_]
    simp [expireFirst, PassStep]
  have complete : s'.passes[s.passes.length]?.any Pass.completed = true := by
    rw [found]
    exact finished
  exact ⟨s, s', run, pass, (truncate_exact (filed_of_run run along) ⟨batch, clean⟩ (by decide) pass
    own complete).1, first, second⟩

end Panmail.Events
