import Panmail.Events.Contents

/-!
# The operations of the event store, on contents

What the writer and a retention pass do to rows, said of the events and pointers that the rows
stand for: writing an event adds it and may move its recipient's pointer, expiring a chunk
removes its events, and the writer drops the pointers that still name an expired event.
-/
namespace Panmail.Events

open ByteStrings KeyValue Delivery List

/-! ### Writing -/

namespace Contents

/-- An event moves the pointer of its recipient unless that names a newer one. -/
def Moves (c : Contents) (e : EmailEvent) : Prop :=
  e.messageID ≠ "" ∧ (c.pointer (pairOf e) = [] ∨ tsDesc e ≤ c.pointer (pairOf e))

instance (c : Contents) (e : EmailEvent) : Decidable (c.Moves e) :=
  inferInstanceAs (Decidable (_ ∧ _))

def write (c : Contents) (e : EmailEvent) : Contents :=
  if c.Moves e then (c.add e).point (pairOf e) (some e) else c.add e

theorem write_stored (c : Contents) (e : EmailEvent) : (c.write e).stored = insert e c.stored := by
  unfold write
  split <;> rfl

theorem mem_write (c : Contents) (e : EmailEvent) : e ∈ (c.write e).stored := by
  rw [write_stored]
  exact Set.mem_insert ..

theorem latest_write (c : Contents) (e : EmailEvent) (p : Pair) :
    (c.write e).latest p = if c.Moves e ∧ p = pairOf e then some e else c.latest p := by
  unfold write
  split
  next moves =>
    by_cases here : p = pairOf e
    · rw [if_pos ⟨moves, here⟩, here, point_self]
    · rw [if_neg fun both => here both.2, point_of_ne _ _ here]
      rfl
  next stays =>
    rw [if_neg fun both => stays both.1]
    rfl

theorem write_latest {c : Contents} {e : EmailEvent} (moves : c.Moves e) :
    (c.write e).latest (pairOf e) = some e := by rw [latest_write, if_pos ⟨moves, rfl⟩]

theorem pointer_point (c : Contents) (p q : Pair) (target : Option EmailEvent) :
    (c.point p target).pointer q = if q = p then (target.map tsDesc).getD [] else c.pointer q := by
  unfold pointer
  by_cases same : q = p
  · rw [if_pos same, same, point_self]
  · rw [if_neg same, point_of_ne c target same]

end Contents

theorem cacheKey_inj {p q : Pair} (plain : p.Plain) (plain' : q.Plain)
    (same : cacheKey p = cacheKey q) : p = q := by
  have bytes : (Key.latestTs p).bytes = (Key.latestTs q).bytes :=
    congrArg (fun x => utf8 "latest_ts" ++ colon :: x) same
  cases Key.bytes_inj (k := .latestTs p) (l := .latestTs q) plain plain' bytes
  rfl

theorem latestTs_set (db : DB) (cache : BatchLatestTs) {p q : Pair} (plain : p.Plain)
    (plain' : q.Plain) (ts : Bytes) :
    latestTs db (cache.set (cacheKey p) ts) q = if q = p then some ts else latestTs db cache q := by
  unfold latestTs
  rw [Store.get_set]
  by_cases same : q = p
  · rw [if_pos (congrArg cacheKey same), if_pos same]
  · rw [if_neg fun keys => same (cacheKey_inj plain' plain keys), if_neg same]

open Contents

/-- The writer's view of the pointers: batch and database give, for every recipient, that of the
contents. -/
def Points (db : DB) (cache : BatchLatestTs) (c : Contents) : Prop :=
  ∀ p : Pair, p.Plain → (latestTs db cache p).getD [] = c.pointer p

section
variable {db view : DB} {cache : BatchLatestTs} {c : Contents} {e : EmailEvent}

theorem performWrite_eq (points : Points db cache c) (keyable : Keyable e) :
    performWrite db e cache = if c.Moves e then ((entries e).map (fun r => .set r.1.bytes r.2) ++
          (if c.pointer (pairOf e) = [] then []
            else [.delete (Key.latestEvent (pairOf e) (c.pointer (pairOf e))).bytes]) ++
          [.set (Key.latestTs (pairOf e)).bytes (.text (tsDesc e)),
            .set (Key.latestEvent (pairOf e) (tsDesc e)).bytes (.event e)],
          cache.set (cacheKey (pairOf e)) (tsDesc e))
      else ((entries e).map (fun r => .set r.1.bytes r.2), cache) := by
  have old := points (pairOf e) keyable.pair_plain
  unfold performWrite entries
  simp only [old]
  by_cases blank : e.messageID = ""
  · have still : ¬ c.Moves e := fun moves => moves.1 blank
    simp [blank, still]
  · by_cases moves : c.pointer (pairOf e) = [] ∨ tsDesc e ≤ c.pointer (pairOf e)
    · have moved : c.Moves e := ⟨blank, moves⟩
      simp [blank, moves, moved]
    · have still : ¬ c.Moves e := fun moved => moves moved.2
      simp [blank, moves, still]

theorem performWrite_represents (reads : Represents view c) (points : Points db cache c)
    (keyable : Keyable e) (fresh : ∀ e' ∈ c.stored, e'.id ≠ e.id)
    (known : ∀ p e, c.latest p = some e → Keyable e) :
    Represents (view.commit (performWrite db e cache).1) (c.write e) := by
  have added := reads.add keyable fresh
  rw [performWrite_eq points keyable, write]
  split
  next moves =>
    have pointed := added.point keyable keyable.pair_plain known
    rw [commit_append, commit_append]
    exact pointed
  next => exact added

theorem performWrite_points (points : Points db cache c) (keyable : Keyable e) :
    Points db (performWrite db e cache).2 (c.write e) := by
  intro p plain
  rw [performWrite_eq points keyable, write]
  split
  next moves =>
    rw [latestTs_set db cache keyable.pair_plain plain, pointer_point]
    split
    · rw [Option.getD_some, Option.map_some, Option.getD_some]
    · exact points p plain
  next => exact points p plain

section
variable {op : Write} (points : Points db cache c) (keyable : Keyable e)
  (known : ∀ p e, c.latest p = some e → Keyable e) (staged : op ∈ (performWrite db e cache).1)
include points keyable known staged

theorem performWrite_keys :
    ∃ k : Key, k.Plain ∧ op.key = k.bytes ∧ (k.id? = some e.id ∨ k.id? = none) := by
  have own : op ∈ (entries e).map (fun r => Op.set r.1.bytes r.2) →
      ∃ k : Key, k.Plain ∧ op.key = k.bytes ∧ (k.id? = some e.id ∨ k.id? = none) := by
    intro mem
    obtain ⟨⟨k, v⟩, row, rfl⟩ := mem_map.mp mem
    exact ⟨k, plain_of_entry keyable row, rfl, .inl (id_of_entry row).1⟩
  rw [performWrite_eq points keyable] at staged
  split at staged
  next moves =>
    rcases mem_append.mp staged with front | pointer
    · rcases mem_append.mp front with row | cleared
      · exact own row
      · split at cleared
        · cases cleared
        next present =>
          rw [mem_singleton.mp cleared]
          refine ⟨.latestEvent (pairOf e) (c.pointer (pairOf e)), ⟨keyable.pair_plain, ?_⟩, rfl,
            .inr rfl⟩
          cases latest : c.latest (pairOf e) with
          | none => exact absurd (pointer_none latest) present
          | some e' =>
            rw [pointer_some latest]
            exact (known _ e' latest).tsDesc_plain
    · simp only [mem_cons, not_mem_nil, or_false] at pointer
      rcases pointer with rfl | rfl
      · exact ⟨.latestTs (pairOf e), keyable.pair_plain, rfl, .inr rfl⟩
      · exact ⟨.latestEvent (pairOf e) (tsDesc e), ⟨keyable.pair_plain, keyable.tsDesc_plain⟩, rfl,
          .inr rfl⟩
  next => exact own staged

theorem performWrite_away {e' : EmailEvent} (keyable' : Keyable e') (other : e'.id ≠ e.id)
    {k : Key} {v : Value} (row : (k, v) ∈ entries e') : op.key ≠ k.bytes := by
  obtain ⟨l, plain, at_, id⟩ := performWrite_keys points keyable known staged
  intro same
  have equal : l = k := Key.bytes_inj plain (plain_of_entry keyable' row) (at_.symm.trans same)
  rw [equal, (id_of_entry row).1] at id
  rcases id with mine | none_
  · exact other (Option.some.inj mine)
  · cases none_

end

end

/-! ### Dropping pointers -/

namespace Contents

def unpoint (c : Contents) : List LatestPointer → Contents
  | [] => c
  | q :: expired =>
    if c.pointer q.pair = q.tsDesc ∧ q.tsDesc ≠ [] then (c.point q.pair none).unpoint expired
    else c.unpoint expired

variable {c : Contents}

theorem unpoint_stored (expired : List LatestPointer) : (c.unpoint expired).stored = c.stored := by
  induction expired generalizing c with
  | nil => rfl
  | cons _ _ ih =>
    unfold unpoint
    split <;> exact ih

theorem unpoint_latest (expired : List LatestPointer) (p : Pair) :
    ((c.unpoint expired).latest p = c.latest p ∧
        ∀ q ∈ expired, q.pair = p → q.tsDesc ≠ [] → c.pointer p ≠ q.tsDesc) ∨
      ((c.unpoint expired).latest p = none ∧ ∃ q ∈ expired, q.pair = p ∧ c.pointer p = q.tsDesc ∧
        q.tsDesc ≠ []) := by
  induction expired generalizing c with
  | nil => exact .inl ⟨rfl, nofun⟩
  | cons q _ ih =>
    unfold unpoint
    split
    next named =>
      by_cases here : q.pair = p
      · right
        subst here
        refine ⟨?_, q, mem_cons_self, rfl, named⟩
        rcases @ih (c.point q.pair none) with kept | dropped
        · exact kept.1.trans (point_self c _ _)
        · exact dropped.1
      · have other : p ≠ q.pair := fun same => here same.symm
        have pointer : (c.point q.pair none).pointer p = c.pointer p := by
          rw [pointer_point, if_neg other]
        rcases @ih (c.point q.pair none) with ⟨kept, free⟩ | ⟨dropped, r, mem, of⟩
        · left
          refine ⟨kept.trans (point_of_ne c none other), ?_⟩
          intro r mem of present
          rcases mem_cons.mp mem with rfl | later
          · exact absurd of here
          · exact pointer ▸ free r later of present
        · exact .inr ⟨dropped, r, mem_cons_of_mem _ mem, pointer ▸ of⟩
    next free =>
      rcases @ih c with ⟨kept, others⟩ | ⟨dropped, r, mem, of⟩
      · left
        refine ⟨kept, ?_⟩
        intro r mem of present same
        rcases mem_cons.mp mem with rfl | later
        · exact free ⟨of ▸ same, present⟩
        · exact others r later of present same
      · exact .inr ⟨dropped, r, mem_cons_of_mem _ mem, of⟩

end Contents

section
variable {db view : DB} {cache : BatchLatestTs} {c : Contents}

theorem performLatestExpiry_cons (db : DB) (q : LatestPointer) (rest : List LatestPointer)
    (cache : BatchLatestTs) : (performLatestExpiry db (q :: rest) cache).1 =
      if latestTs db cache q.pair = some q.tsDesc then
        .delete (Key.latestEvent q.pair q.tsDesc).bytes :: .delete (Key.latestTs q.pair).bytes ::
          (performLatestExpiry db rest (cache.set (cacheKey q.pair) [])).1
      else (performLatestExpiry db rest cache).1 := by
  rw [performLatestExpiry]
  cases latestTs db cache q.pair with
  | none => simp
  | some ts => by_cases named : ts = q.tsDesc <;> simp [named]

theorem performLatestExpiry_represents (expired : List LatestPointer)
    (plain : ∀ q ∈ expired, q.pair.Plain ∧ q.tsDesc ≠ []) (reads : Represents view c)
    (points : Points db cache c) (known : ∀ p e, c.latest p = some e → Keyable e) :
    Represents (view.commit (performLatestExpiry db expired cache).1) (c.unpoint expired) := by
  induction expired generalizing view cache c with
  | nil => exact reads
  | cons q rest ih =>
    have later : ∀ r ∈ rest, r.pair.Plain ∧ r.tsDesc ≠ [] := fun r mem =>
      plain r (mem_cons_of_mem _ mem)
    obtain ⟨here, present⟩ := plain q mem_cons_self
    have current : latestTs db cache q.pair = some q.tsDesc ↔ c.pointer q.pair = q.tsDesc := by
      rw [← points q.pair here]
      cases latestTs db cache q.pair with
      | none => simp [present.symm]
      | some ts => simp
    rw [performLatestExpiry_cons, unpoint]
    simp only [current, present, ne_eq, not_false_eq_true, and_true]
    by_cases pointed : c.pointer q.pair = q.tsDesc
    · -- the pointer names the expired event: both of its rows go
      rw [if_pos pointed, if_pos pointed]
      cases latest : c.latest q.pair with
      | none => exact absurd (pointed.symm.trans (pointer_none latest)) present
      | some e =>
        have own : tsDesc e = q.tsDesc := (pointer_some latest).symm.trans pointed
        have dropped := reads.unpoint (known _ e latest) here latest
        rw [own] at dropped
        have moved : Points db (cache.set (cacheKey q.pair) []) (c.point q.pair none) := by
          intro p other
          rw [latestTs_set db cache here other, pointer_point]
          split
          · rfl
          · exact points p other
        have still : ∀ p e, (c.point q.pair none).latest p = some e → Keyable e := by
          intro p e' target
          by_cases same : p = q.pair
          · rw [same, point_self] at target
            cases target
          · exact known p e' (point_of_ne c none same ▸ target)
        exact ih later dropped moved still
    · rw [if_neg pointed, if_neg pointed]
      exact ih later reads points known

end

/-! ### Expiring -/

def rowOf (e : EmailEvent) : Bytes × Value := ((eventKey e).bytes, .event e)

def expiredOf (e : EmailEvent) : ExpiredEvent := ⟨(eventKey e).bytes, utf8 e.id, .event e⟩

def expiryKeys (e : EmailEvent) : List Key :=
  (if e.messageID = "" then [] else [msgEventKey e]) ++ [eventKey e, idKey e]

section
variable {e : EmailEvent} {k : Key} {db : DB} {c : Contents}

theorem mem_expiryKeys : k ∈ expiryKeys e ↔ ∃ v, (k, v) ∈ entries e := by
  unfold expiryKeys entries
  split
  · simp [exists_or]
  · simp only [cons_append, nil_append, mem_cons, not_mem_nil, or_false,
      Prod.mk.injEq, exists_or, exists_and_left, exists_eq, and_true]
    tauto

theorem splitOn_eventKey (keyable : Keyable e) : (eventKey e).bytes.splitOn colon =
    [utf8 "events", utf8 e.tenantID, tsDesc e, utf8 e.id] := by
  have family : colon ∉ utf8 "events" := (eventKey e).family_plain.notMem
  have last : (utf8 e.id).splitOn colon = [utf8 e.id] :=
    splitOn_eq_singleton keyable.id.notMem
  change (utf8 "events" ++ colon :: (utf8 e.tenantID ++ colon ::
    (tsDesc e ++ colon :: utf8 e.id))).splitOn colon = _
  rw [splitOn_append_cons_self_of_not_mem family,
    splitOn_append_cons_self_of_not_mem keyable.tenantID.notMem,
    splitOn_append_cons_self_of_not_mem keyable.tsDesc_plain, last]

theorem expiredRow_rowOf (keyable : Keyable e) (cutoff : Int) : expiredRow cutoff (rowOf e) =
      if maxInt64 - e.timestamp ≤ cutoff then none else some (expiredOf e) := by
  have parts := splitOn_eventKey keyable
  have read : parseInt64 (tsDesc e) = maxInt64 - e.timestamp :=
    parse_descendingTimestamp keyable.timestamp
  simp only [expiredRow, rowOf, parts, read]
  rfl

theorem expireChunk_deletes (es : List EmailEvent) (held : List Bytes) :
    (expireChunk (es.map expiredOf) held).deletes =
      (es.flatMap expiryKeys).map fun k => .delete k.bytes := by
  simp only [expireChunk, flatMap_map, map_flatMap]
  congr 1
  funext e
  simp only [expireEvent, expiredOf, deleteEventIndexes, deleteEventRow, expiryKeys]
  split <;> rfl

theorem mem_expireChunk_latest {es : List EmailEvent} {held : List Bytes} {q : LatestPointer} :
    q ∈ (expireChunk (es.map expiredOf) held).latest ↔
      ∃ e ∈ es, e.messageID ≠ "" ∧ q = ⟨pairOf e, tsDesc e⟩ := by
  simp only [expireChunk, flatMap_map, mem_flatMap]
  constructor
  · rintro ⟨e, mem, named⟩
    refine ⟨e, mem, ?_⟩
    simp only [expireEvent, expiredOf, deleteEventIndexes] at named
    split at named
    · cases named
    next present => exact ⟨present, by simpa using named⟩
  · rintro ⟨e, mem, present, rfl⟩
    refine ⟨e, mem, ?_⟩
    simp [expireEvent, expiredOf, deleteEventIndexes, present]

theorem family_of_scanned (low : utf8 "events:" ≤ k.bytes) (high : k.bytes < utf8 "events;") :
    k.family = "events" := by
  have lower : utf8 "events:" = [101, 118, 101, 110, 116, 115, 58] := by decide
  have upper : utf8 "events;" = [101, 118, 101, 110, 116, 115, 59] := by decide
  rw [lower] at low
  rw [upper] at high
  cases k with
  | event => rfl
  | eventID =>
    have family : utf8 "event_id" = [101, 118, 101, 110, 116, 95, 105, 100] := by decide
    rw [← not_lt] at low
    simp [Key.bytes, Key.family, family, cons_lt_cons_iff] at low
  | msgEvent =>
    have family : utf8 "msg_events" = [109, 115, 103, 95, 101, 118, 101, 110, 116, 115] := by decide
    simp [Key.bytes, Key.family, family, cons_lt_cons_iff] at high
  | latestTs =>
    have family : utf8 "latest_ts" = [108, 97, 116, 101, 115, 116, 95, 116, 115] := by decide
    simp [Key.bytes, Key.family, family, cons_lt_cons_iff] at high
  | latestEvent =>
    have family : utf8 "latest_events" = [108, 97, 116, 101, 115, 116, 95, 101, 118, 101, 110, 116,
      115] := by decide
    simp [Key.bytes, Key.family, family, cons_lt_cons_iff] at high

theorem mem_scan_events (reads : Represents db c) {r : Bytes × Value}
    (scanned : r ∈ db.scan (utf8 "events:") (utf8 "events;")) : ∃ e ∈ c.stored, r = rowOf e := by
  obtain ⟨raw, v⟩ := r
  obtain ⟨found, low, high⟩ := Store.mem_scan.mp scanned
  obtain ⟨k, plain, rfl⟩ := reads.keyed raw v found
  have family := family_of_scanned low high
  rcases (reads.get_iff k plain v).mp found with ⟨e, mem, row⟩ | ⟨p, e, _, row⟩
  · refine ⟨e, mem, ?_⟩
    simp only [entries, mem_append, mem_cons, Prod.mk.injEq, not_mem_nil,
      or_false] at row
    rcases row with (⟨rfl, rfl⟩ | ⟨rfl, _⟩) | other
    · rfl
    · simp [idKey, Key.family] at family
    · split at other
      · cases other
      simp only [mem_singleton, Prod.mk.injEq] at other
      rw [other.1] at family
      simp [msgEventKey, Key.family] at family
  · simp only [pointerEntries, mem_cons, Prod.mk.injEq, not_mem_nil, or_false] at row
    rcases row with ⟨rfl, _⟩ | ⟨rfl, _⟩ <;> simp [Key.family] at family

end
end Panmail.Events
