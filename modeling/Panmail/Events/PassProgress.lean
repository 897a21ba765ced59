import Panmail.Events.Listing

/-!
# The steps of a retention pass

What the chunks of a pass and the writer's part in them do to the rows of a store that nothing
else writes to meanwhile: which rows have gone at any point, and why.
-/
namespace Panmail.Events

open ByteStrings KeyValue Runs Delivery List

/-- A step of pass `i`, which nothing else archives for. -/
def PassStep (i : Nat) : StoreAction → Prop
  | .expireChunk j held => j = i ∧ held = []
  | .expireLatest j => j = i
  | _ => False

/-! ### What is deleted for a row -/

def bodyOf (rec_ : ExpiredEvent) : Option EmailEvent :=
  match rec_.value with
  | .event e => some e
  | .text _ => none

def expiredKeys (rec_ : ExpiredEvent) : List Bytes :=
  (match rec_.value with
    | .event e => if e.messageID = "" then [] else [(msgEventKey e).bytes]
    | .text _ => []) ++ [rec_.key, utf8 "event_id" ++ colon :: rec_.id]

def pointerOf (rec_ : ExpiredEvent) : Option LatestPointer :=
  (bodyOf rec_).bind fun e => if e.messageID = "" then none else some ⟨pairOf e, tsDesc e⟩

/-- A pointer that is dropped when the writer is asked to. -/
def Named (db : DB) (q : LatestPointer) : Prop :=
  db.get (Key.latestTs q.pair).bytes = some (.text q.tsDesc)

def pointerKeys (q : LatestPointer) : List Bytes :=
  [(Key.latestEvent q.pair q.tsDesc).bytes, (Key.latestTs q.pair).bytes]

section

theorem expireEvent_eq (rec_ : ExpiredEvent) : expireEvent rec_ true =
    ⟨(bodyOf rec_).toList, (expiredKeys rec_).map Op.delete, (pointerOf rec_).toList⟩ := by
  unfold expireEvent bodyOf expiredKeys pointerOf bodyOf deleteEventIndexes deleteEventRow
  cases rec_.value with
  | text => rfl
  | event e =>
    by_cases blank : e.messageID = ""
    · simp [blank]
    · simp [blank]

theorem expireChunk_eq (chunk : List ExpiredEvent) : expireChunk chunk [] =
    ⟨chunk.filterMap bodyOf, (chunk.flatMap expiredKeys).map Op.delete,
      chunk.filterMap pointerOf⟩ := by
  have archive (rec_ : ExpiredEvent) : decide (rec_.id ∉ ([] : List Bytes)) = true := by simp
  unfold expireChunk
  simp only [archive, expireEvent_eq, map_flatMap, filterMap_eq_flatMap_toList]

end

/-! ### Dropping pointers -/

section
variable {db : DB} {q r : LatestPointer}

/-- Pointers of one text are of one recipient, where no tenant has a colon. -/
theorem pointerKeys_eq (plain : NoColon q.pair.tenantID) (plain' : NoColon r.pair.tenantID)
    (same : cacheKey q.pair = cacheKey r.pair) (time : q.tsDesc = r.tsDesc) :
    pointerKeys q = pointerKeys r := by
  obtain ⟨tenant, rest⟩ := Text.append_separator_inj plain.notMem plain'.notMem same
  have pointer : (Key.latestTs q.pair).bytes = (Key.latestTs r.pair).bytes :=
    congrArg (fun x => utf8 "latest_ts" ++ colon :: x) same
  have entry : (Key.latestEvent q.pair q.tsDesc).bytes = (Key.latestEvent r.pair r.tsDesc).bytes := by
    change utf8 "latest_events" ++ colon :: (utf8 q.pair.tenantID ++ colon :: (q.tsDesc ++ colon ::
        (utf8 q.pair.messageID ++ colon :: utf8 q.pair.recipient))) =
      utf8 "latest_events" ++ colon :: (utf8 r.pair.tenantID ++ colon :: (r.tsDesc ++ colon ::
        (utf8 r.pair.messageID ++ colon :: utf8 r.pair.recipient)))
    rw [tenant, time, rest]
  rw [pointerKeys, pointerKeys, pointer, entry]

theorem cacheKey_eq_iff {p p' : Pair} :
    cacheKey p = cacheKey p' ↔ (Key.latestTs p).bytes = (Key.latestTs p').bytes := by
  constructor
  · exact fun same => congrArg (fun x => utf8 "latest_ts" ++ colon :: x) same
  · intro same
    have both : utf8 "latest_ts" ++ colon :: cacheKey p = utf8 "latest_ts" ++ colon :: cacheKey p' :=
      same
    simpa using both

/-- The writer deletes the rows of those pointers that are named, and no others. -/
theorem performLatestExpiry_spec (qs : List LatestPointer) (cache : BatchLatestTs)
    (blank : ∀ k ts, cache.get k = some ts → ts = [])
    (plain : ∀ q ∈ qs, NoColon q.pair.tenantID ∧ q.tsDesc ≠ []) :
    ∃ ks : List Bytes, (performLatestExpiry db qs cache).1 = ks.map Op.delete ∧
      (∀ k ∈ ks, ∃ q ∈ qs, Named db q ∧ k ∈ pointerKeys q) ∧
      ∀ q ∈ qs, Named db q → cache.get (cacheKey q.pair) = none → ∀ k ∈ pointerKeys q, k ∈ ks := by
  induction qs generalizing cache with
  | nil => exact ⟨[], rfl, nofun, nofun⟩
  | cons q rest ih =>
    obtain ⟨tenant, present⟩ := plain q mem_cons_self
    have later : ∀ r ∈ rest, NoColon r.pair.tenantID ∧ r.tsDesc ≠ [] := fun r mem =>
      plain r (mem_cons_of_mem _ mem)
    -- what is in the cache was dropped before in this batch
    have current : latestTs db cache q.pair = some q.tsDesc ↔
        cache.get (cacheKey q.pair) = none ∧ Named db q := by
      unfold latestTs Named
      cases cached : cache.get (cacheKey q.pair) with
      | some ts => simp [blank _ _ cached, present.symm]
      | none =>
        cases db.get (Key.latestTs q.pair).bytes with
        | none => simp
        | some v => cases v <;> simp
    rw [performLatestExpiry_cons]
    split
    next found =>
      obtain ⟨_, named⟩ := current.mp found
      have blank' : ∀ k ts, (cache.set (cacheKey q.pair) []).get k = some ts → ts = [] := by
        intro k ts found
        rw [Store.get_set] at found
        split at found
        · exact (Option.some.inj found).symm
        · exact blank k ts found
      obtain ⟨ks, ops, sound, complete⟩ := ih (cache.set (cacheKey q.pair) []) blank' later
      refine ⟨pointerKeys q ++ ks, by simp [ops, pointerKeys], ?_, ?_⟩
      · intro k mem
        rcases mem_append.mp mem with here | tail
        · exact ⟨q, mem_cons_self, named, here⟩
        · obtain ⟨r, inside, of⟩ := sound k tail
          exact ⟨r, mem_cons_of_mem _ inside, of⟩
      · intro r mem named' free k key
        apply mem_append.mpr
        by_cases same : cacheKey r.pair = cacheKey q.pair
        · -- both are named by the same row, so they are the same pointer
          left
          have time : r.tsDesc = q.tsDesc := by
            have both : some (Value.text r.tsDesc) = some (.text q.tsDesc) := by
              rw [← named', ← named, cacheKey_eq_iff.mp same]
            simpa using both
          rw [← pointerKeys_eq (plain r mem).1 tenant same time]
          exact key
        · right
          rcases mem_cons.mp mem with rfl | inside
          · exact absurd rfl same
          refine complete r inside named' ?_ k key
          rw [Store.get_set, if_neg same]
          exact free
    next other =>
      obtain ⟨ks, ops, sound, complete⟩ := ih cache blank later
      refine ⟨ks, ops, fun k mem => ?_, fun r mem named free => ?_⟩
      · obtain ⟨r, inside, named⟩ := sound k mem
        exact ⟨r, mem_cons_of_mem _ inside, named⟩
      · rcases mem_cons.mp mem with rfl | inside
        · exact absurd (current.mpr ⟨free, named⟩) other
        · exact complete r inside named free

end

/-! ### The run of a pass -/

/-- Where a pass stands: the rows deleted and to come, the pointers dealt with and to be. -/
structure Progress (s : EventStore) (i : Nat) (expired : List ExpiredEvent) (u : EventStore)
    (gone rest : List ExpiredEvent) (done handed : List LatestPointer) : Prop where
  split : gone ++ rest = expired
  idle : u.batch = [] ∧ u.batchLatestTs = .empty
  pass : ∃ x, u.passes[i]? = some x ∧ x.remaining = rest ∧ x.handed = handed
  pointers : gone.filterMap pointerOf = done ++ handed
  archived : u.archived = s.archived ++ gone.filterMap bodyOf
  /-- Rows are only ever deleted, -/
  kept : ∀ k, u.db.get k = s.db.get k ∨ u.db.get k = none
  /-- those of an expired event and of its pointer, -/
  justified : ∀ k, u.db.get k ≠ s.db.get k → (∃ r ∈ gone, k ∈ expiredKeys r) ∨
    ∃ q ∈ done, Named s.db q ∧ k ∈ pointerKeys q
  /-- and all of these. -/
  deleted : ∀ r ∈ gone, ∀ k ∈ expiredKeys r, u.db.get k = none
  dropped : ∀ q ∈ done, Named s.db q → ∀ k ∈ pointerKeys q, u.db.get k = none

theorem family_of_bytes {w : String} {k : Key} {x : Bytes} (plain : NoColon w)
    (same : k.bytes = utf8 w ++ colon :: x) : k.family = w ∧ k.parts = x := by
  obtain ⟨family, parts⟩ := Text.append_separator_inj k.family_plain.notMem plain.notMem same
  exact ⟨utf8_injective family, parts⟩

theorem start_of_scanned {k : Bytes} (low : utf8 "events:" ≤ k) (high : k < utf8 "events;") :
    ∃ rest, k = utf8 "events" ++ colon :: rest := by
  have lower : utf8 "events:" = utf8 "events" ++ [colon] := by decide
  have upper : utf8 "events;" = utf8 "events" ++ [59] := by decide
  rw [lower] at low
  rw [upper] at high
  obtain ⟨tail, rfl⟩ := start_of_between low high
  rw [← not_lt, append_lt_append_left, not_lt] at low
  rw [append_lt_append_left] at high
  cases tail with
  | nil => exact absurd low (not_le.mpr (nil_lt_cons colon []))
  | cons b others =>
    rw [← not_lt, cons_lt_cons_iff, not_or, not_lt] at low
    rw [cons_lt_cons_iff] at high
    have least : colon.val ≤ b.val := low.1
    have code : colon.val = 58 := rfl
    have same : b = colon := by
      rcases high with below | ⟨_, below⟩
      · have bound : b.val < 59 := below
        exact Fin.ext (by omega)
      · simp at below
    exact ⟨others, by rw [same]⟩

variable {l : Key}

theorem family_of_expiredKeys {r : ExpiredEvent}
    (start : ∃ rest, r.key = utf8 "events" ++ colon :: rest) (mem : l.bytes ∈ expiredKeys r) :
    (l.family = "events" ∧ l.bytes = r.key) ∨ (l.family = "event_id" ∧ l.parts = r.id) ∨
      (l.family = "msg_events" ∧ ∃ e, bodyOf r = some e ∧ e.messageID ≠ "" ∧
        l.bytes = (msgEventKey e).bytes) := by
  rcases mem_append.mp mem with timeline | row
  · right
    right
    unfold bodyOf
    cases value : r.value with
    | text =>
      rw [value] at timeline
      cases timeline
    | event e =>
      simp only [value] at timeline
      split at timeline
      · cases timeline
      next present =>
        have same := mem_singleton.mp timeline
        exact ⟨(family_of_bytes (w := "msg_events") (by decide) same).1, e, rfl, present, same⟩
  · simp only [mem_cons, not_mem_nil, or_false] at row
    rcases row with same | same
    · obtain ⟨rest, shape⟩ := start
      exact .inl ⟨(family_of_bytes (by decide) (same.trans shape)).1, same⟩
    · exact .inr (.inl (family_of_bytes (by decide) same))

theorem family_of_pointerKeys {q : LatestPointer} (mem : l.bytes ∈ pointerKeys q) :
    (l.family = "latest_events" ∧ l.bytes = (Key.latestEvent q.pair q.tsDesc).bytes) ∨
      (l.family = "latest_ts" ∧ l.bytes = (Key.latestTs q.pair).bytes) := by
  simp only [pointerKeys, mem_cons, not_mem_nil, or_false] at mem
  rcases mem with same | same
  · exact .inl ⟨(family_of_bytes (w := "latest_events") (by decide) same).1, same⟩
  · exact .inr ⟨(family_of_bytes (w := "latest_ts") (by decide) same).1, same⟩

section
variable {s u t : EventStore} {i : Nat} {expired gone rest : List ExpiredEvent}
variable {done handed : List LatestPointer}

/-- A row under a key of an event, and the pointer of one without a colon in its tenant. -/
structure Tidy (r : ExpiredEvent) : Prop where
  start : ∃ rest, r.key = utf8 "events" ++ colon :: rest
  pointer : ∀ q, pointerOf r = some q → NoColon q.pair.tenantID ∧ q.tsDesc ≠ []

/-- Rows that are deleted for the expired events, or for the pointers dealt with, take a pass on. -/
theorem Progress.delete (progress : Progress s i expired u gone rest done handed) {ks : List Bytes}
    (without : Without ks u.db t.db) {gone' rest' : List ExpiredEvent}
    {done' handed' : List LatestPointer} (split : gone' ++ rest' = expired)
    (idle : t.batch = [] ∧ t.batchLatestTs = .empty)
    (pass : ∃ x, t.passes[i]? = some x ∧ x.remaining = rest' ∧ x.handed = handed')
    (pointers : gone'.filterMap pointerOf = done' ++ handed')
    (archived : t.archived = s.archived ++ gone'.filterMap bodyOf)
    (rows : gone ⊆ gone') (dealt : done ⊆ done')
    (justified : ∀ k ∈ ks, (∃ r ∈ gone', k ∈ expiredKeys r) ∨
      ∃ q ∈ done', Named s.db q ∧ k ∈ pointerKeys q)
    (deleted : ∀ r ∈ gone', r ∈ gone ∨ ∀ k ∈ expiredKeys r, k ∈ ks)
    (dropped : ∀ q ∈ done', Named s.db q → q ∈ done ∨ (∀ k ∈ pointerKeys q, k ∈ ks) ∨
      ∀ k ∈ pointerKeys q, u.db.get k = none) :
    Progress s i expired t gone' rest' done' handed' := by
  -- what is gone stays gone
  have gone_ {k : Bytes} (was : u.db.get k = none) : t.db.get k = none := by
    by_cases mem : k ∈ ks
    · exact (without k).1 mem
    · exact ((without k).2 mem).trans was
  refine ⟨split, idle, pass, pointers, archived, fun k => ?_, fun k changed => ?_, ?_, ?_⟩
  · by_cases mem : k ∈ ks
    · exact .inr ((without k).1 mem)
    · rw [(without k).2 mem]
      exact progress.kept k
  · by_cases mem : k ∈ ks
    · exact justified k mem
    · rw [(without k).2 mem] at changed
      rcases progress.justified k changed with ⟨r, inside, key⟩ | ⟨q, inside, of⟩
      · exact .inl ⟨r, rows inside, key⟩
      · exact .inr ⟨q, dealt inside, of⟩
  · intro r mem k key
    rcases deleted r mem with before | now
    · exact gone_ (progress.deleted r before k key)
    · exact (without k).1 (now k key)
  · intro q mem named k key
    rcases dropped q mem named with before | now | already
    · exact gone_ (progress.dropped q before named k key)
    · exact (without k).1 (now k key)
    · exact gone_ (already k key)

theorem Progress.expireChunk (progress : Progress s i expired u gone rest done [])
    (taken : u.step (.expireChunk i []) = some t) :
    Progress s i expired t (gone ++ rest.take truncateBatchSize) (rest.drop truncateBatchSize) done
      ((rest.take truncateBatchSize).filterMap pointerOf) := by
  obtain ⟨x, found, remaining, empty⟩ := progress.pass
  simp only [EventStore.step, found] at taken
  split at taken
  · cases taken
  rw [remaining, expireChunk_eq] at taken
  obtain rfl := Option.some.inj taken
  refine progress.delete (without_commit ((rest.take truncateBatchSize).flatMap expiredKeys)) ?_
    progress.idle ⟨_, getElem?_set_here _ found, rfl, rfl⟩ ?_ ?_
    (subset_append_left _ _) (List.Subset.refl _) ?_ ?_ fun q mem _ => .inl mem
  · rw [append_assoc, take_append_drop, progress.split]
  · rw [filterMap_append, progress.pointers, append_nil]
  · rw [filterMap_append, ← append_assoc, ← progress.archived]
  · intro k mem
    obtain ⟨r, inside, key⟩ := mem_flatMap.mp mem
    exact .inl ⟨r, mem_append_right _ inside, key⟩
  · intro r mem
    exact (mem_append.mp mem).imp_right fun chunk k key => mem_flatMap.mpr ⟨r, chunk, key⟩

/-- Why a row is another than before the pass, by its key. -/
def Cause (s : EventStore) (gone : List ExpiredEvent) (done : List LatestPointer) (l : Key) : Prop :=
  match l with
  | .event .. => ∃ r ∈ gone, l.bytes = r.key
  | .eventID id => ∃ r ∈ gone, utf8 id = r.id
  | .msgEvent .. => ∃ r ∈ gone, ∃ e, bodyOf r = some e ∧ e.messageID ≠ "" ∧
      l.bytes = (msgEventKey e).bytes
  | .latestEvent .. => ∃ q ∈ done, l.bytes = (Key.latestEvent q.pair q.tsDesc).bytes
  | .latestTs _ => ∃ q ∈ done, Named s.db q ∧ l.bytes = (Key.latestTs q.pair).bytes

section
variable (progress : Progress s i expired u gone rest done handed) (tidy : ∀ r ∈ expired, Tidy r)
  {q : LatestPointer}
include progress tidy

theorem Progress.cause (changed : u.db.get l.bytes ≠ s.db.get l.bytes) : Cause s gone done l := by
  rcases progress.justified _ changed with ⟨r, mem, key⟩ | ⟨q, mem, named, key⟩
  · have inside : r ∈ expired := progress.split ▸ mem_append_left _ mem
    rcases family_of_expiredKeys (tidy r inside).start key with ⟨family, same⟩ | ⟨family, same⟩ |
      ⟨family, e, body⟩ <;> cases l <;> simp [Key.family] at family
    · exact ⟨r, mem, same⟩
    · exact ⟨r, mem, same⟩
    · exact ⟨r, mem, e, body⟩
  · rcases family_of_pointerKeys key with ⟨family, same⟩ | ⟨family, same⟩ <;> cases l <;>
      simp [Key.family] at family
    · exact ⟨q, mem, same⟩
    · exact ⟨q, mem, named, same⟩

theorem Progress.tidy_pointer (mem : q ∈ done ++ handed) :
    NoColon q.pair.tenantID ∧ q.tsDesc ≠ [] := by
  rw [← progress.pointers] at mem
  obtain ⟨r, from_, pointer⟩ := mem_filterMap.mp mem
  exact (tidy r (progress.split ▸ mem_append_left _ from_)).pointer q pointer

/-- What was a pointer's row before the pass is that still, or the pointer is dropped. -/
theorem Progress.named (plain : NoColon q.pair.tenantID) (named : Named s.db q) :
    Named u.db q ∨ ∀ k ∈ pointerKeys q, u.db.get k = none := by
  by_cases changed : u.db.get (Key.latestTs q.pair).bytes = s.db.get (Key.latestTs q.pair).bytes
  · exact .inl (changed.trans named)
  · obtain ⟨q', mem, named', same⟩ := progress.cause tidy changed
    have time : q.tsDesc = q'.tsDesc := by
      have both : some (Value.text q.tsDesc) = some (.text q'.tsDesc) := by
        rw [← named, ← named', same]
      simpa using both
    have plain' := (progress.tidy_pointer tidy (mem_append_left _ mem)).1
    rw [pointerKeys_eq plain plain' (cacheKey_eq_iff.mpr same) time]
    exact .inr (progress.dropped q' mem named')

theorem Progress.expireLatest (taken : u.step (.expireLatest i) = some t) :
    Progress s i expired t gone rest (done ++ handed) [] := by
  obtain ⟨x, found, remaining, waiting⟩ := progress.pass
  simp only [EventStore.step, found] at taken
  split at taken
  · cases taken
  rw [waiting, progress.idle.1, progress.idle.2, nil_append] at taken
  have plain : ∀ q ∈ handed, NoColon q.pair.tenantID ∧ q.tsDesc ≠ [] := fun q mem =>
    progress.tidy_pointer tidy (mem_append_right _ mem)
  obtain ⟨ks, ops, sound, complete⟩ := @performLatestExpiry_spec u.db handed .empty
    (by simp) plain
  rw [ops] at taken
  obtain rfl := Option.some.inj taken
  refine progress.delete (without_commit ks) progress.split ⟨rfl, rfl⟩
    ⟨_, getElem?_set_here _ found, remaining, rfl⟩
    (by rw [progress.pointers, append_nil]) progress.archived (List.Subset.refl _)
    (subset_append_left _ _) ?_ (fun r mem => .inl mem) ?_
  · intro k mem
    obtain ⟨q, inside, named, key⟩ := sound k mem
    refine .inr ⟨q, mem_append_right _ inside, ?_, key⟩
    rcases progress.kept (Key.latestTs q.pair).bytes with same | none_
    · exact same.symm.trans named
    · rw [Named, none_] at named
      cases named
  · intro q mem named
    refine (mem_append.mp mem).imp_right fun last => ?_
    exact (progress.named tidy (plain q last).1 named).imp_left fun still =>
      complete q last still rfl

theorem Progress.step {a : StoreAction} (own : PassStep i a) (taken : u.step a = some t) :
    ∃ gone' rest' done' handed', Progress s i expired t gone' rest' done' handed' := by
  cases a with
  | expireChunk =>
    obtain ⟨rfl, rfl⟩ := own
    have idle : handed = [] := by
      obtain ⟨x, found, _, waiting⟩ := progress.pass
      simp only [EventStore.step, found] at taken
      split at taken
      · cases taken
      next free =>
        simp only [not_or, not_not] at free
        exact waiting.symm.trans free.1
    subst idle
    exact ⟨_, _, _, _, progress.expireChunk taken⟩
  | expireLatest =>
    obtain rfl := own
    exact ⟨_, _, _, _, progress.expireLatest tidy taken⟩
  | _ => cases own

end

end

end Panmail.Events
