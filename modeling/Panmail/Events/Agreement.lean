import Panmail.Events.Postgres

/-!
# The two stores side by side

The local store keeps an index of latest events and filters what it finds there; the shared store
filters first and takes the latest of what is left. The two agree where the latest event of a
message and recipient is the latest that matches.
-/
namespace Panmail.Events

open ByteStrings Runs Text Delivery List EmailEvent

/-! ### Histories -/

/-- A step that both stores follow: a write of an event that fits the keys of one and the columns of
the other, or a commit. -/
def Shared (s : EventStore) : StoreAction → Prop
  | .write e => Proper s (.write e) ∧ Postgres.Row (Postgres.recorded e)
  | .commit | .restart => True
  | .truncateBefore _ | .expireChunk .. | .expireLatest _ => False

instance (s : EventStore) : (a : StoreAction) → Decidable (Shared s a)
  | .write e => inferInstanceAs (Decidable (Proper s (.write e) ∧ _))
  | .commit | .restart => isTrue trivial
  | .truncateBefore _ | .expireChunk .. | .expireLatest _ => isFalse id

/-- Events that were written to both stores, in whatever batches. -/
structure History where
  actions : List StoreAction
  store : EventStore
  run : exec EventStore.step .init actions = some store
  along : AllSteps EventStore.step Shared .init actions
  committed : store.batch = []
  batches : List (List EmailEvent)
  flushed : batches.flatten = store.written

namespace History

def events (h : History) : List EmailEvent := h.store.written

def table (h : History) : Postgres.EventTable := h.batches.foldl .flush .empty

end History

/-- The store has all that was written, and the pointers are right. -/
structure Complete (s : EventStore) (cd cv : Contents) : Prop where
  indexed : Indexed s cd cv
  current : Current s cd cv
  idle : s.passes = []
  ids : (s.written.map EmailEvent.id).Nodup
  kept : ∀ e ∈ s.written, e ∈ cv.stored
  rows : ∀ e ∈ s.written, Postgres.Row (Postgres.recorded e)

theorem complete_init : Complete .init .empty .empty where
  indexed := indexed_init
  current := current_init
  idle := rfl
  ids := List.Pairwise.nil
  kept := nofun
  rows := nofun

section
variable {s t : EventStore} {cd cv : Contents}

theorem Complete.write {e : EmailEvent} (inv : Complete s cd cv) (shared : Shared s (.write e))
    (taken : s.step (.write e) = some t) : ∃ cd' cv', Complete t cd' cv' := by
  have indexed := indexed_write inv.indexed shared.1 taken
  cases taken
  refine ⟨cd, cv.write e, indexed,
    ⟨inv.current.db, inv.current.view.write inv.indexed.targets shared.1.1⟩, inv.idle, ?_, ?_, ?_⟩
  · rw [map_append, nodup_append']
    refine ⟨inv.ids, nodup_singleton _, fun id held same => ?_⟩
    obtain ⟨e', mem, named⟩ := mem_map.mp held
    exact shared.1.2 e' mem (named.trans (mem_singleton.mp same))
  · intro e' mem
    rw [Contents.write_stored]
    rcases mem_append.mp mem with old | new
    · exact .inr (inv.kept e' old)
    · exact .inl (mem_singleton.mp new)
  · exact forall_mem_concat inv.rows shared.2

theorem Complete.commit (inv : Complete s cd cv) : Complete s.commitBatch cv cv where
  indexed := indexed_commit inv.indexed
  current := ⟨inv.current.view, inv.current.view⟩
  idle := inv.idle
  ids := inv.ids
  kept := inv.kept
  rows := inv.rows

theorem Complete.step {a : StoreAction} (inv : Complete s cd cv) (shared : Shared s a)
    (taken : s.step a = some t) : ∃ cd' cv', Complete t cd' cv' := by
  cases a with
  | write => exact inv.write shared taken
  | commit =>
    cases taken
    exact ⟨cv, cv, inv.commit⟩
  | restart =>
    simp only [EventStore.step, Option.ite_none_right_eq_some, Option.some.injEq] at taken
    obtain ⟨_, rfl⟩ := taken
    exact ⟨cv, cv, inv.commit⟩
  | truncateBefore | expireChunk | expireLatest => exact shared.elim

theorem History.complete (h : History) : ∃ cd cv, Complete h.store cd cv :=
  invariant_along EventStore.step Shared (fun s => ∃ cd cv, Complete s cd cv)
    (fun s a t shared before taken => by
      obtain ⟨cd, cv, inv⟩ := before
      exact inv.step shared taken)
    _ _ h.actions ⟨_, _, complete_init⟩ h.along h.run

end

section
variable {h : History} {e : EmailEvent} {c : Contents}

theorem History.rows (h : History) : ∀ e ∈ h.events, Postgres.Row (Postgres.recorded e) := by
  obtain ⟨_, _, inv⟩ := h.complete
  exact inv.rows

theorem History.ids (h : History) : (h.events.map EmailEvent.id).Nodup := by
  obtain ⟨_, _, inv⟩ := h.complete
  exact inv.ids

theorem History.table_rows (h : History) : h.table.rows = h.events.map Postgres.recorded := by
  have ids : ((h.batches.flatten.map Postgres.recorded).map EmailEvent.id).Nodup := by
    rw [map_map, h.flushed]
    exact h.ids
  have rows : ∀ e ∈ h.batches.flatten, Postgres.Row (Postgres.recorded e) := by
    rw [h.flushed]
    exact h.rows
  have all := Postgres.EventTable.flush_all_rows rows (t := .empty) ids
  rwa [h.flushed] at all

structure History.Holds (h : History) (c : Contents) : Prop where
  reads : Represents h.store.db c
  keyable : ∀ e ∈ h.events, Keyable e
  stored : ∀ e, e ∈ c.stored ↔ e ∈ h.events
  targeted : ∀ p e, c.latest p = some e → e ∈ h.events ∧ pairOf e = p
  covered : ∀ e ∈ h.events, ∃ e', c.latest (pairOf e) = some e' ∧ e.timestamp ≤ e'.timestamp

theorem History.Holds.keyable_stored (holds : h.Holds c) : ∀ e ∈ c.stored, Keyable e :=
  fun e mem => holds.keyable e ((holds.stored e).mp mem)

theorem History.Holds.keyable_latest (holds : h.Holds c) :
    ∀ p e, c.latest p = some e → Keyable e ∧ pairOf e = p :=
  fun p e named => ⟨holds.keyable e (holds.targeted p e named).1, (holds.targeted p e named).2⟩

theorem History.holds (h : History) : ∃ c, h.Holds c := by
  obtain ⟨cd, cv, inv⟩ := h.complete
  have whole : h.store.view = h.store.db := by
    rw [EventStore.view, h.committed]
    rfl
  refine ⟨cv, whole ▸ inv.indexed.view, inv.indexed.keyable,
    fun e => ⟨inv.indexed.known e, inv.kept e⟩,
    fun p e latest => ⟨(inv.indexed.viewTargeted p e latest).1,
      (inv.indexed.viewTargeted p e latest).2.1⟩, fun e mem => ?_⟩
  have present : e.messageID ≠ "" := by
    intro blank
    have length := Postgres.length_of_isUUID (inv.rows e mem).messageID
    rw [Postgres.recorded, blank] at length
    cases length
  -- no pass is under way, so none of the events is about to be deleted
  rcases inv.current.view.covered e (inv.kept e mem) present with ⟨x, passing, _⟩ | latest
  · rw [inv.idle] at passing
    cases passing
  · exact latest

end

/-! ### The two listings -/

/-- The filter of the local store: the bounds of the walk, and the body. -/
def Pebble.accepts (m : CaseMapping) (t : String) (f : ListFilter) (e : EmailEvent) : Bool :=
  Pebble.Within t f e && bodyMatches m f e

def ofTenant (events : List EmailEvent) (t : String) : List EmailEvent :=
  events.filter fun e => e.tenantID = t

def matchingEvents (m : CaseMapping) (events : List EmailEvent) (t : String) (f : ListFilter) :
    List EmailEvent :=
  (ofTenant events t).filter (Pebble.accepts m t f)

/-- A listing that the stores can agree on: no message is named, the filters take the same events,
and no two events of the tenant share a microsecond. -/
structure Comparable (m pg : CaseMapping) (events : List EmailEvent) (t : String) (f : ListFilter) :
    Prop where
  message : f.messageID = ""
  agree : ∀ e ∈ ofTenant events t,
    Pebble.accepts m t f e = Postgres.accepts pg t f (Postgres.recorded e)
  apart : ∀ e ∈ ofTenant events t, ∀ e' ∈ ofTenant events t,
    (Postgres.recorded e).timestamp = (Postgres.recorded e').timestamp → e = e'

section
variable {m pg : CaseMapping} {h : History} {t : String} {f : ListFilter} {e : EmailEvent}

variable {events : List EmailEvent}

theorem mem_ofTenant : e ∈ ofTenant events t ↔ e ∈ events ∧ e.tenantID = t := by simp [ofTenant]

theorem Comparable.order (comparable : Comparable m pg events t f) :
    ∀ a ∈ ofTenant events t, ∀ b ∈ ofTenant events t,
      Postgres.sortKey (Postgres.recorded a) < Postgres.sortKey (Postgres.recorded b) ↔
        a.timestamp < b.timestamp := by
  intro a first b second
  have apart := comparable.apart a first b second
  have floor (x y : Nat) : x / 1000 * 1000 < y / 1000 * 1000 ↔
      x < y ∧ x / 1000 * 1000 ≠ y / 1000 * 1000 := by omega
  have rows : (Postgres.recorded a).timestamp < (Postgres.recorded b).timestamp ↔
      a.timestamp < b.timestamp ∧
        (Postgres.recorded a).timestamp ≠ (Postgres.recorded b).timestamp := floor _ _
  rw [Postgres.sortKey, Postgres.sortKey, Prod.Lex.toLex_lt_toLex]
  simp only [Int.ofNat_lt, Int.ofNat_inj]
  constructor
  · rintro (earlier | ⟨same, less⟩)
    · exact (rows.mp earlier).1
    · rw [apart same] at less
      exact absurd less (lt_irrefl _)
  · intro earlier
    refine .inl (rows.mpr ⟨earlier, fun same => ?_⟩)
    rw [apart same] at earlier
    exact lt_irrefl _ earlier

theorem Comparable.distinct (comparable : Comparable m pg events t f)
    (ids : (events.map EmailEvent.id).Nodup) :
    ((ofTenant events t).map timestamp).Nodup := by
  have nodup : (ofTenant events t).Nodup := (List.Nodup.of_map _ ids).filter _
  refine List.Nodup.map_on (fun a first b second same => ?_) nodup
  exact comparable.apart a first b second (by rw [Postgres.recorded, Postgres.recorded, same])

theorem Comparable.matching_eq (comparable : Comparable m pg h.events t f) :
    Postgres.matching pg h.table t f = (matchingEvents m h.events t f).map Postgres.recorded := by
  have same : (h.events.filter fun e => Postgres.accepts pg t f (Postgres.recorded e)) =
      matchingEvents m h.events t f := by
    rw [matchingEvents, ofTenant, filter_filter]
    refine filter_congr fun e mem => ?_
    by_cases tenant : e.tenantID = t
    · have agree := comparable.agree e (mem_ofTenant.mpr ⟨mem, tenant⟩)
      simp [agree, tenant]
    · have refused : Postgres.accepts pg t f (Postgres.recorded e) = false := by
        simp [Postgres.accepts, Postgres.recorded, tenant]
      simp [refused, tenant]
  rw [Postgres.matching, h.table_rows, filter_map, ← same]
  rfl

/-- A filter that means the same to both: its words have no wildcards, and its bounds are whole
microseconds. -/
structure PlainFilter (m : CaseMapping) (f : ListFilter) : Prop where
  percent : m.lower '%' = '%'
  recipient : Literal (m.toLower f.recipient).toList
  subject : Literal (m.toLower f.subject).toList
  startTime : Postgres.micros f.startTime = f.startTime
  endTime : Postgres.micros f.endTime = f.endTime

theorem ilike_around {word : String} (percent : m.lower '%' = '%')
    (literal : Literal (m.toLower word).toList) (s : String) :
    Postgres.ilike m ("%" ++ word ++ "%") s = containsFold m word s := by
  have pattern : (m.toLower ("%" ++ word ++ "%")).toList =
      '%' :: ((m.toLower word).toList ++ ['%']) := by
    have sign : "%".toList = ['%'] := rfl
    simp only [CaseMapping.toLower, String.toList_append, String.toList_ofList, sign,
      map_append, map_cons, map_nil, percent, cons_append, nil_append]
  rw [Postgres.ilike, pattern, like_around literal, containsFold]

theorem accepts_agree (plain : PlainFilter m f) (answerable : Answerable f)
    (message : f.messageID = "") (keyable : Keyable e) (tenant : e.tenantID = t)
    (whole : Postgres.recorded e = e) :
    Pebble.accepts m t f e = Postgres.accepts m t f (Postgres.recorded e) := by
  have timed : walkOf f ≠ .message := fun walk => walkOf_message.mp walk message
  have within := Pebble.within_iff_inTime keyable tenant answerable timed
  have recipient := ilike_around plain.percent plain.recipient e.recipient
  have subject := ilike_around plain.percent plain.subject e.subject
  rw [whole, Bool.eq_iff_iff]
  simp only [Pebble.accepts, Postgres.accepts, bodyMatches, Bool.and_eq_true, decide_eq_true_eq,
    within, InTime, tenant, message, recipient, subject, plain.startTime, plain.endTime,
    Bool.or_eq_true, decide_true, Bool.true_or, true_and, ← or_iff_not_imp_left, ne_eq]
  constructor
  · rintro ⟨⟨after, before⟩, ⟨recipient_, type⟩, words⟩
    exact ⟨⟨⟨⟨recipient_, type⟩, words⟩, after⟩, before⟩
  · rintro ⟨⟨⟨⟨recipient_, type⟩, words⟩, after⟩, before⟩
    exact ⟨⟨after, before⟩, ⟨recipient_, type⟩, words⟩

theorem walkOf_latest (latest : f.latestOnly = true) (message : f.messageID = "") :
    walkOf f = .latest := by simp [walkOf, latest, message]

section
variable (comparable : Comparable m pg h.events t f)
include comparable

theorem mem_walked_latest (latest : f.latestOnly = true) (tenant : NoColon t) :
    e ∈ Pebble.walked m h.store.db t f ↔ e ∈ matchingEvents m h.events t f ∧
        Keyset.Top timestamp Postgres.partition (ofTenant h.events t) e := by
  obtain ⟨c, holds⟩ := h.holds
  have walk := walkOf_latest latest comparable.message
  rw [Pebble.mem_walked holds.reads holds.keyable_stored holds.keyable_latest tenant, walk]
  simp only [matchingEvents, mem_filter, Pebble.accepts, Bool.and_eq_true, decide_eq_true_eq]
  constructor
  · rintro ⟨⟨_, named⟩, of, asked⟩
    have inside := mem_ofTenant.mpr ⟨(holds.targeted _ e named).1, of⟩
    refine ⟨⟨inside, asked⟩, inside, fun b other same => ?_⟩
    obtain ⟨written, of'⟩ := mem_ofTenant.mp other
    obtain ⟨e', pointed, later⟩ := holds.covered b written
    -- the same message and recipient, so the same pointer
    have pair : pairOf b = pairOf e := by
      simp only [Postgres.partition, Prod.mk.injEq] at same
      rw [pairOf, pairOf, of', of, same.1, same.2]
    rw [pair] at pointed
    have self : e' = e := Option.some.inj (pointed.symm.trans named)
    exact self ▸ later
  · rintro ⟨⟨inside, asked⟩, _, newest⟩
    obtain ⟨written, of⟩ := mem_ofTenant.mp inside
    refine ⟨⟨holds.keyable e written, ?_⟩, of, asked⟩
    obtain ⟨e', pointed, later⟩ := holds.covered e written
    obtain ⟨written', pair⟩ := holds.targeted _ e' pointed
    simp only [pairOf, Pair.mk.injEq] at pair
    have inside' := mem_ofTenant.mpr ⟨written', pair.1.trans of⟩
    have earlier := newest e' inside' (by rw [Postgres.partition, Postgres.partition, pair.2.1, pair.2.2])
    have self : e = e' := comparable.apart e inside e' inside'
      (by rw [Postgres.recorded, Postgres.recorded, le_antisymm later earlier])
    change c.latest (pairOf e) = some e
    rw [pointed, ← self]

theorem walked_latest_sorted (latest : f.latestOnly = true) (tenant : NoColon t) :
    (Pebble.walked m h.store.db t f).Pairwise fun a b => b.timestamp < a.timestamp := by
  obtain ⟨c, holds⟩ := h.holds
  have walk := walkOf_latest latest comparable.message
  refine List.Pairwise.imp_of_mem ?_
    (Pebble.walked_sorted holds.reads holds.keyable_stored holds.keyable_latest tenant)
  intro a b first second both
  have inside := ((mem_walked_latest comparable latest tenant).mp first).2.1
  have inside' := ((mem_walked_latest comparable latest tenant).mp second).2.1
  refine lt_of_le_of_ne (both.2 fun other => ?_) fun same => both.1 ?_
  · rw [walk] at other
    cases other
  · exact comparable.apart a inside b inside'
      (by rw [Postgres.recorded, Postgres.recorded, same])

/-- The shared store lists the latest of the matching events of every message and recipient. -/
theorem Comparable.listing_eq :
    Keyset.listing Postgres.sortKey Postgres.partition (Postgres.matching pg h.table t f) none =
      (Keyset.listing timestamp Postgres.partition
        (matchingEvents m h.events t f) none).map Postgres.recorded := by
  have inside : ∀ e ∈ matchingEvents m h.events t f, e ∈ ofTenant h.events t := fun e mem =>
    (mem_filter.mp mem).1
  rw [comparable.matching_eq]
  refine Keyset.listing_map
    ((comparable.distinct h.ids).sublist (filter_sublist.map timestamp)) ?_ ?_
  · exact fun a first b second => comparable.order a (inside a first) b (inside b second)
  · exact fun a _ b _ => Iff.rfl

end

end

def SamePage (m pg : CaseMapping) (general : Bytes → Except String Int) (h : History) (t : String)
    (f : ListFilter) : Prop :=
  ∃ page next, Postgres.list pg general h.table t f = .ok (page, next) ∧
    ∀ id, id ∈ page.map EmailEvent.id ↔ id ∈ (Pebble.list m h.store.db t f).1.map EmailEvent.id

/-- The latest matching event of a message and recipient is its latest event, unless a page of
others have a newer matching event. -/
def LatestMatch (m : CaseMapping) (events : List EmailEvent) (t : String) (f : ListFilter) : Prop :=
  ∀ e, Keyset.Top EmailEvent.timestamp Postgres.partition (matchingEvents m events t f) e →
    Keyset.rank EmailEvent.timestamp Postgres.partition (matchingEvents m events t f) e <
      Postgres.size f →
    Keyset.Top EmailEvent.timestamp Postgres.partition (ofTenant events t) e

def latestMatching (m : CaseMapping) (events : List EmailEvent) (t : String) (f : ListFilter) :
    List EmailEvent :=
  (Keyset.tops EmailEvent.timestamp Postgres.partition (ofTenant events t)).filter
    (Pebble.accepts m t f)

section
variable {m pg : CaseMapping} {h : History} {t : String} {f : ListFilter}

theorem size_le (f : ListFilter) : Postgres.size f ≤ Pebble.size f := by
  unfold Postgres.size Pebble.size
  split <;> split <;> omega

theorem mem_latestMatching {e : EmailEvent} : e ∈ latestMatching m h.events t f ↔
    e ∈ matchingEvents m h.events t f ∧
      Keyset.Top timestamp Postgres.partition (ofTenant h.events t) e := by
  simp only [latestMatching, matchingEvents, mem_filter, Keyset.mem_tops]
  constructor
  · exact fun ⟨top, asked⟩ => ⟨⟨top.1, asked⟩, top⟩
  · exact fun ⟨⟨_, asked⟩, top⟩ => ⟨top, asked⟩

theorem walked_length (comparable : Comparable m pg h.events t f) (latest : f.latestOnly = true)
    (tenant : NoColon t) :
    (Pebble.walked m h.store.db t f).length = (latestMatching m h.events t f).length := by
  have once : (Pebble.walked m h.store.db t f).Nodup := by
    have different : (Pebble.walked m h.store.db t f).Pairwise fun a b => a ≠ b := by
      refine (walked_latest_sorted comparable latest tenant).imp ?_
      rintro a b less rfl
      exact lt_irrefl _ less
    exact different
  have once' : (latestMatching m h.events t f).Nodup :=
    (((List.Nodup.of_map _ h.ids).filter _).filter _).filter _
  refine ((perm_ext_iff_of_nodup once once').mpr fun e => ?_).length_eq
  rw [mem_walked_latest comparable latest tenant, mem_latestMatching]

theorem take_length_iff (comparable : Comparable m pg h.events t f) (latest : f.latestOnly = true)
    (tenant : NoColon t) :
    ((Pebble.walked m h.store.db t f).take (Pebble.size f)).length ≤ Postgres.size f ↔
      f.pageSize ≤ 500 ∨ (latestMatching m h.events t f).length ≤ 50 := by
  rw [length_take, walked_length comparable latest tenant]
  unfold Postgres.size Pebble.size
  split <;> split <;> omega

theorem same_ids_iff {xs ys : List EmailEvent} (known : ∀ e ∈ xs, e ∈ h.events)
    (known' : ∀ e ∈ ys, e ∈ h.events) :
    (∀ id, id ∈ xs.map EmailEvent.id ↔ id ∈ ys.map EmailEvent.id) ↔ ∀ e, e ∈ xs ↔ e ∈ ys := by
  have among {xs ys : List EmailEvent} (known : ∀ e ∈ xs, e ∈ h.events)
      (known' : ∀ e ∈ ys, e ∈ h.events)
      (same : ∀ id, id ∈ xs.map EmailEvent.id → id ∈ ys.map EmailEvent.id) :
      ∀ e ∈ xs, e ∈ ys := by
    intro e mem
    obtain ⟨e', inside, named⟩ := mem_map.mp (same e.id (mem_map_of_mem mem))
    have self := inj_on_of_nodup_map h.ids (known' e' inside) (known e mem) named
    exact self ▸ inside
  constructor
  · intro same e
    exact ⟨among known known' (fun id => (same id).mp) e,
      among known' known (fun id => (same id).mpr) e⟩
  · intro same id
    simp only [mem_map, same]

/-- The first pages have the same events if they are cut from two listings at the same events. -/
theorem samePage_iff (general : Bytes → Except String Int) (castable : Postgres.Castable t f)
    (latest : f.latestOnly = true) (start : f.pageToken = [])
    (comparable : Comparable m pg h.events t f) : SamePage m pg general h t f ↔
      ∀ e, e ∈ (Pebble.walked m h.store.db t f).take (Pebble.size f) ↔
        e ∈ (Keyset.listing timestamp Postgres.partition
          (matchingEvents m h.events t f) none).take (Postgres.size f) := by
  have tenant : NoColon t := Postgres.noColon_of_isUUID castable.1
  obtain ⟨next, page⟩ := Postgres.list_first pg general h.table castable start
  have listing : Postgres.query f (Postgres.matching pg h.table t f) none =
      (Keyset.listing timestamp Postgres.partition
        (matchingEvents m h.events t f) none).map Postgres.recorded :=
    (if_pos latest).trans comparable.listing_eq
  -- the shared store cuts the times to microseconds, but keeps the ids
  have ids (xs : List EmailEvent) :
      (xs.map Postgres.recorded).map EmailEvent.id = xs.map EmailEvent.id := by
    rw [map_map]
    rfl
  have known : ∀ e ∈ (Pebble.walked m h.store.db t f).take (Pebble.size f), e ∈ h.events := by
    intro e mem
    have top := ((mem_walked_latest comparable latest tenant).mp (mem_of_mem_take mem)).2
    exact (mem_ofTenant.mp top.1).1
  have known' : ∀ e ∈ (Keyset.listing timestamp Postgres.partition
      (matchingEvents m h.events t f) none).take (Postgres.size f), e ∈ h.events := by
    intro e mem
    have top := Keyset.mem_listing.mp (mem_of_mem_take mem)
    exact (mem_ofTenant.mp (mem_filter.mp top.1).1).1
  rw [← same_ids_iff known known']
  unfold SamePage
  rw [page, listing, Pebble.list_first start, ← map_take]
  constructor
  · rintro ⟨_, _, found, same⟩ id
    cases found
    rw [← same id, ids]
  · intro same
    refine ⟨_, _, rfl, fun id => ?_⟩
    rw [ids, same id]

end

/-- For every history of both stores and every comparable filter on the latest events, the first
pages have the same events if and only if the latest matching event of each message and recipient
that comes onto the page is its latest event. -/
theorem first_pages_agree_iff (m pg : CaseMapping) (general : Bytes → Except String Int)
    (h : History) (t : String) (f : ListFilter) (castable : Postgres.Castable t f)
    (latest : f.latestOnly = true) (start : f.pageToken = [])
    (comparable : Comparable m pg h.events t f) :
    SamePage m pg general h t f ↔ LatestMatch m h.events t f ∧
      (f.pageSize ≤ 500 ∨ (latestMatching m h.events t f).length ≤ 50) := by
  have tenant : NoColon t := Postgres.noColon_of_isUUID castable.1
  have distinct : ((matchingEvents m h.events t f).map EmailEvent.timestamp).Nodup :=
    (comparable.distinct h.ids).sublist (filter_sublist.map EmailEvent.timestamp)
  have sub : ∀ e ∈ Pebble.walked m h.store.db t f,
      e ∈ Keyset.listing EmailEvent.timestamp Postgres.partition
        (matchingEvents m h.events t f) none := by
    intro e member
    obtain ⟨asked, top⟩ := (mem_walked_latest comparable latest tenant).mp member
    exact Keyset.mem_listing.mpr ⟨asked, fun b other => top.2 b (mem_filter.mp other).1⟩
  rw [samePage_iff general castable latest start comparable,
    Keyset.same_take_iff (walked_latest_sorted comparable latest tenant)
      (Keyset.listing_sorted Postgres.partition none distinct) sub (size_le f),
    take_length_iff comparable latest tenant]
  refine and_congr_left fun _ => ?_
  constructor
  · intro has e top low
    exact ((mem_walked_latest comparable latest tenant).mp
      (has e ((Keyset.mem_take_listing distinct).mpr ⟨top, low⟩))).2
  · intro newest e member
    obtain ⟨top, low⟩ := (Keyset.mem_take_listing distinct).mp member
    exact (mem_walked_latest comparable latest tenant).mpr ⟨top.1, newest e top low⟩

/-! ### A message that was sent, and then delivered -/

def sentOne : EmailEvent :=
  ⟨"00000000-0000-4000-8000-000000000006", Postgres.tenantA, "", "", Postgres.messageOne, .sent,
    "a@x.org", "Hi", 3000, ""⟩

def latestOf (eventType : EventType) : ListFilter :=
  ⟨0, [], "", eventType, zeroTime, zeroTime, "", true, false, ""⟩

def sentAndDelivered : List StoreAction :=
  [.write sentOne, .commit, .write Postgres.newestOne, .restart]

def sampleEvents : List EmailEvent := [sentOne, Postgres.newestOne]

def sampleHistory : History where
  actions := sentAndDelivered
  store := (exec EventStore.step .init sentAndDelivered).getD .init
  run := by
    have runs : (exec EventStore.step .init sentAndDelivered).isSome = true := by decide +kernel
    obtain ⟨s, run⟩ := Option.isSome_iff_exists.mp runs
    rw [run, Option.getD_some]
  along := by decide +kernel
  committed := by decide +kernel
  batches := [[sentOne], [Postgres.newestOne]]
  flushed := by decide +kernel

theorem events_sampleHistory : sampleHistory.events = sampleEvents := sampleHistory.flushed.symm

theorem first_pages_agree_delivered :
    SamePage .ascii .ascii (fun _ => .error "") sampleHistory Postgres.tenantA
      (latestOf .delivered) := by
  have castable : Postgres.Castable Postgres.tenantA (latestOf .delivered) :=
    ⟨by decide +kernel, fun present => absurd rfl present⟩
  have plain : PlainFilter .ascii (latestOf .delivered) :=
    ⟨by decide, fun _ member => (nomatch member), fun _ member => (nomatch member), by decide,
      by decide⟩
  have answerable : Answerable (latestOf .delivered) :=
    ⟨by decide, fun set => absurd rfl set, fun set => absurd rfl set,
      fun walk => absurd rfl (walkOf_message.mp walk)⟩
  have comparable : Comparable .ascii .ascii sampleHistory.events Postgres.tenantA
      (latestOf .delivered) := by
    have whole : ∀ e ∈ sampleEvents, Postgres.recorded e = e := by decide
    have apart : ∀ e ∈ ofTenant sampleEvents Postgres.tenantA,
        ∀ e' ∈ ofTenant sampleEvents Postgres.tenantA,
          (Postgres.recorded e).timestamp = (Postgres.recorded e').timestamp → e = e' := by decide
    obtain ⟨_, holds⟩ := sampleHistory.holds
    refine ⟨rfl, fun e member => ?_, events_sampleHistory ▸ apart⟩
    obtain ⟨written, tenant⟩ := mem_ofTenant.mp member
    exact accepts_agree plain answerable rfl (holds.keyable e written) tenant
      (whole e (events_sampleHistory ▸ written))
  have tops : ∀ e ∈ matchingEvents .ascii sampleEvents Postgres.tenantA (latestOf .delivered),
      e ∈ Keyset.tops EmailEvent.timestamp Postgres.partition
        (ofTenant sampleEvents Postgres.tenantA) := by decide +kernel
  refine (first_pages_agree_iff .ascii .ascii _ _ _ _ castable rfl rfl comparable).mpr
    ⟨?_, .inl (by decide)⟩
  rw [events_sampleHistory]
  exact fun e top _ => Keyset.mem_tops.mp (tops e top.1)

/-- The local store has no sent mail, as the message's latest event is its delivery; the shared
store lists the event that says it was sent. -/
theorem first_pages_differ_on_sent :
    (Pebble.list .ascii sampleHistory.store.db Postgres.tenantA (latestOf .sent)).1 = [] ∧
    Postgres.list .ascii (fun _ => .error "") sampleHistory.table Postgres.tenantA
      (latestOf .sent) = .ok ([sentOne], []) ∧
    ¬ SamePage .ascii .ascii (fun _ => .error "") sampleHistory Postgres.tenantA
      (latestOf .sent) := by
  have none_ : (Pebble.list .ascii sampleHistory.store.db Postgres.tenantA
      (latestOf .sent)).1 = [] := by decide +kernel
  have listed : Postgres.list .ascii (fun _ => .error "") sampleHistory.table Postgres.tenantA
      (latestOf .sent) = .ok ([sentOne], []) := by decide +kernel
  refine ⟨none_, listed, ?_⟩
  rintro ⟨page, next, found, same⟩
  have pages : Except.ok (page, next) = Except.ok ([sentOne], []) := found.symm.trans listed
  cases pages
  have missing := (same sentOne.id).mp (by simp)
  rw [none_] at missing
  cases missing

end Panmail.Events
