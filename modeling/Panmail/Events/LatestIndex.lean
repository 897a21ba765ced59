import Panmail.Events.Operations

/-!
# The index of latest events

For each recipient of a message the store keeps one entry in the order of time, under the timestamp
of the recipient's newest event, and a pointer to it. While a retention pass is under way an entry
may name an event that is already deleted, or be missing for events the pass is about to delete.
-/
namespace Panmail.Events

open ByteStrings KeyValue Runs Delivery List Contents

/-- The entry of a recipient is the one its pointer names, for the newest event it has. -/
structure LatestExact (db : DB) (p : Pair) : Prop where
  single : ∀ ts ts' v v', colon ∉ ts → colon ∉ ts' →
    db.get (Key.latestEvent p ts).bytes = some v →
    db.get (Key.latestEvent p ts').bytes = some v' → ts = ts'
  named : ∀ ts, colon ∉ ts → ((∃ v, db.get (Key.latestEvent p ts).bytes = some v) ↔
    db.get (Key.latestTs p).bytes = some (.text ts))
  newest : ∀ ts v, colon ∉ ts → db.get (Key.latestEvent p ts).bytes = some v →
    ∃ e ∈ stored db, v = .event e ∧ pairOf e = p ∧ ts = tsDesc e ∧
      ∀ e' ∈ stored db, pairOf e' = p → e'.timestamp ≤ e.timestamp
  present : (∃ ts v, colon ∉ ts ∧ db.get (Key.latestEvent p ts).bytes = some v) ↔
    ∃ e ∈ stored db, pairOf e = p

/-- An event that is written has an id of its own, and fits the keys. -/
def Proper (s : EventStore) : StoreAction → Prop
  | .write e => Keyable e ∧ ∀ e' ∈ s.written, e'.id ≠ e.id
  | _ => True

instance (s : EventStore) : (a : StoreAction) → Decidable (Proper s a)
  | .write e => inferInstanceAs (Decidable (Keyable e ∧ _))
  | .commit | .restart | .truncateBefore _ | .expireChunk .. | .expireLatest _ => isTrue trivial

/-- Where the writer drops a pointer for a pass, the recipient's events were all in the database
when the pass began. -/
def foreseen (s : EventStore) : StoreAction → Bool
  | .expireLatest i => s.passes[i]?.all fun x => x.handed.all fun q =>
      (latestTs s.db s.batchLatestTs q.pair).getD [] ≠ q.tsDesc ||
        (stored s.view).all fun e => pairOf e ≠ q.pair || rowOf e ∈ x.scanned
  | _ => true

/-! ### The invariant -/

def Doomed (passes : List Pass) (e : EmailEvent) : Prop :=
  ∃ x ∈ passes, expiredOf e ∈ x.remaining

/-- A pointer names an event of its recipient. -/
def Targeted (written : List EmailEvent) (c : Contents) : Prop :=
  ∀ p e, c.latest p = some e → e ∈ written ∧ pairOf e = p ∧ e.messageID ≠ ""

/-- The pointers are right, except for what the passes have yet to do. -/
structure LatestUpTo (passes : List Pass) (c : Contents) : Prop where
  live : ∀ p e, c.latest p = some e →
    e ∈ c.stored ∨ ∃ x ∈ passes, (⟨p, tsDesc e⟩ : LatestPointer) ∈ x.handed
  covered : ∀ e ∈ c.stored, e.messageID ≠ "" → Doomed passes e ∨
    ∃ e', c.latest (pairOf e) = some e' ∧ e.timestamp ≤ e'.timestamp

def Settled (s : EventStore) (e : EmailEvent) : Prop :=
  e ∈ s.written ∧ ∀ op ∈ s.batch, ∀ k v, (k, v) ∈ entries e → op.key ≠ k.bytes

/-- A pass has read rows of events, and those it has deleted do not come back. -/
structure Pass.Sound (s : EventStore) (c : Contents) (x : Pass) : Prop where
  rows : ∀ r ∈ x.scanned, ∃ e, Settled s e ∧ r = rowOf e
  deleted : ∃ gone, x.scanned.filterMap (expiredRow x.cutoff) = gone ++ x.remaining ∧
    (∀ e, expiredOf e ∈ gone → e ∉ c.stored) ∧
    ∀ q ∈ x.handed, ∃ e, expiredOf e ∈ gone ∧ e.messageID ≠ "" ∧ q = ⟨pairOf e, tsDesc e⟩

/-- The database stands for `cd`, and with the batch for `cv`. -/
structure Indexed (s : EventStore) (cd cv : Contents) : Prop where
  keyable : ∀ e ∈ s.written, Keyable e
  unique : ∀ e ∈ s.written, ∀ e' ∈ s.written, e.id = e'.id → e = e'
  db : Represents s.db cd
  view : Represents s.view cv
  points : Points s.db s.batchLatestTs cv
  committed : ∀ e ∈ cd.stored, Settled s e ∧ e ∈ cv.stored
  known : ∀ e ∈ cv.stored, e ∈ s.written
  passes : ∀ x ∈ s.passes, x.Sound s cv
  dbTargeted : Targeted s.written cd
  viewTargeted : Targeted s.written cv

/-- The pointers of both are right, except for what the passes have yet to do. -/
structure Current (s : EventStore) (cd cv : Contents) : Prop where
  db : LatestUpTo s.passes cd
  view : LatestUpTo s.passes cv

theorem indexed_init : Indexed .init .empty .empty where
  keyable := fun _ mem => nomatch mem
  unique := fun _ mem => nomatch mem
  db := represents_empty
  view := represents_empty
  points := fun _ plain => represents_empty.pointer plain
  committed := fun _ mem => nomatch mem
  known := fun _ mem => nomatch mem
  passes := fun _ mem => nomatch mem
  dbTargeted := fun _ _ latest => nomatch latest
  viewTargeted := fun _ _ latest => nomatch latest

theorem current_init : Current .init .empty .empty where
  db := ⟨fun _ _ latest => (nomatch latest), fun _ mem => nomatch mem⟩
  view := ⟨fun _ _ latest => (nomatch latest), fun _ mem => nomatch mem⟩

variable {e : EmailEvent} {i : Nat} {x : Pass}

section
variable {written es : List EmailEvent} {passes : List Pass} {c : Contents} {e' : EmailEvent}

section
variable (targeted : Targeted written c)
include targeted

theorem Targeted.keyable (keyable : ∀ e ∈ written, Keyable e) :
    ∀ p e, c.latest p = some e → Keyable e :=
  fun p e target => keyable e (targeted p e target).1

theorem Targeted.mono (new : EmailEvent) : Targeted (written ++ [new]) c :=
  fun p e target => ⟨mem_append_left _ (targeted p e target).1, (targeted p e target).2⟩

theorem Targeted.write (new : EmailEvent) : Targeted (written ++ [new]) (c.write new) := by
  intro p e target
  rw [latest_write] at target
  split at target
  next moved =>
    cases target
    exact ⟨mem_concat_self, moved.2.symm, moved.1.1⟩
  · exact targeted.mono new p e target

theorem Targeted.unpoint (expired : List LatestPointer) : Targeted written (c.unpoint expired) := by
  intro p e target
  rcases unpoint_latest (c := c) expired p with ⟨kept, _⟩ | ⟨dropped, _⟩
  · exact targeted p e (kept ▸ target)
  · rw [dropped] at target
    cases target

end

theorem tsDesc_le (keyable : Keyable e) (keyable' : Keyable e') :
    tsDesc e ≤ tsDesc e' ↔ e'.timestamp ≤ e.timestamp := by
  rw [tsDesc, tsDesc, descendingTimestamp_le keyable.timestamp keyable'.timestamp]
  exact Int.ofNat_le

theorem LatestUpTo.mono (latest : LatestUpTo passes c) (new : Pass) :
    LatestUpTo (passes ++ [new]) c where
  live p e target := by
    rcases latest.live p e target with here | ⟨x, mem, handed⟩
    · exact .inl here
    · exact .inr ⟨x, mem_append_left _ mem, handed⟩
  covered e mem present := by
    rcases latest.covered e mem present with ⟨x, inside, waiting⟩ | target
    · exact .inl ⟨x, mem_append_left _ inside, waiting⟩
    · exact .inr target

theorem LatestUpTo.write (latest : LatestUpTo passes c)
    (known : ∀ p e, c.latest p = some e → Keyable e) (new : Keyable e) :
    LatestUpTo passes (c.write e) := by
  constructor
  · intro p e' target
    rw [write_stored]
    rw [latest_write] at target
    split at target
    · cases target
      exact .inl (.inl rfl)
    · exact (latest.live p e' target).imp_left .inr
  · intro e' mem present
    rw [write_stored] at mem
    rw [latest_write]
    rcases mem with rfl | old
    · by_cases moves : c.Moves e'
      · exact .inr ⟨e', if_pos ⟨moves, rfl⟩, le_refl _⟩
      · -- the pointer stays where it is because it names a newer event
        rw [if_neg fun both => moves both.1]
        have kept : ¬ (c.pointer (pairOf e') = [] ∨ tsDesc e' ≤ c.pointer (pairOf e')) :=
          fun either => moves ⟨present, either⟩
        cases named : c.latest (pairOf e') with
        | none => exact absurd (.inl (pointer_none named)) kept
        | some target =>
          rw [pointer_some named, tsDesc_le new (known _ _ named)] at kept
          exact .inr ⟨target, rfl, le_of_not_ge fun le => kept (.inr le)⟩
    · rcases latest.covered e' old present with doomed | ⟨target, named, before⟩
      · exact .inl doomed
      · right
        split
        next moved =>
          -- the pointer named an event no newer than the one that is written
          rw [moved.2] at named
          have pointed := pointer_some named
          rcases moved.1.2 with empty | newer
          · exact absurd (pointed.symm.trans empty) (known _ _ named).tsDesc_ne_nil
          · rw [pointed, tsDesc_le new (known _ _ named)] at newer
            exact ⟨e, rfl, before.trans newer⟩
        · exact ⟨target, named, before⟩

theorem expiredOf_inj (same : expiredOf e = expiredOf e') : e = e' := by
  have value := congrArg ExpiredEvent.value same
  simpa [expiredOf] using value

theorem mem_map_expiredOf : expiredOf e ∈ es.map expiredOf ↔ e ∈ es := by
  constructor
  · intro mem
    obtain ⟨e', inside, same⟩ := mem_map.mp mem
    exact expiredOf_inj same ▸ inside
  · exact fun mem => mem_map.mpr ⟨e, mem, rfl⟩

theorem LatestUpTo.remove (latest : LatestUpTo passes c) (targeted : Targeted written c)
    (found : passes[i]? = some x) (idle : x.handed = []) {rest : List ExpiredEvent}
    (chunk : x.remaining = es.map expiredOf ++ rest) (held : List Bytes) :
    LatestUpTo (passes.set i { x with
      remaining := rest, handed := (expireChunk (es.map expiredOf) held).latest })
      (c.remove es) := by
  constructor
  · intro p e target
    rcases latest.live p e target with here | handed
    · by_cases expired : e ∈ es
      · right
        obtain ⟨_, of, present⟩ := targeted p e target
        refine ⟨_, mem_set_here _ found, ?_⟩
        exact mem_expireChunk_latest.mpr ⟨e, expired, present, by rw [of]⟩
      · exact .inl ⟨here, expired⟩
    · refine .inr (exists_mem_set found (fun named => ?_) handed)
      rw [idle] at named
      cases named
  · intro e mem present
    obtain ⟨live, kept⟩ := mem
    rcases latest.covered e live present with doomed | target
    · left
      refine exists_mem_set found (fun waiting => ?_) doomed
      rw [chunk] at waiting
      rcases mem_append.mp waiting with now | later
      · exact absurd (mem_map_expiredOf.mp now) kept
      · exact later
    · exact .inr target

/-- The writer drops the pointers handed over by a pass, where every event of the recipient is
one the pass will delete. -/
theorem LatestUpTo.unpoint (latest : LatestUpTo passes c)
    (known : ∀ p e, c.latest p = some e → Keyable e) (found : passes[i]? = some x)
    (doomed : ∀ q ∈ x.handed, c.pointer q.pair = q.tsDesc →
      ∀ e ∈ c.stored, pairOf e = q.pair → e.messageID ≠ "" → Doomed passes e) :
    LatestUpTo (passes.set i { x with handed := [] }) (c.unpoint x.handed) := by
  have still {e : EmailEvent} (was : Doomed passes e) :
      Doomed (passes.set i { x with handed := [] }) e :=
    exists_mem_set (P := fun y : Pass => expiredOf e ∈ y.remaining) found (fun waiting => waiting) was
  constructor
  · intro p e target
    rcases unpoint_latest (c := c) x.handed p with ⟨kept, free⟩ | ⟨dropped, _⟩
    · rw [kept] at target
      rcases latest.live p e target with here | ⟨y, mem, named⟩
      · left
        rw [unpoint_stored]
        exact here
      · right
        obtain ⟨j, entry⟩ := getElem?_of_mem mem
        by_cases here : i = j
        · -- this pass handed the pointer over, and then it would have been dropped
          subst here
          rw [found, Option.some.injEq] at entry
          subst entry
          have away := free ⟨p, tsDesc e⟩ named rfl (known p e target).tsDesc_ne_nil
          exact absurd (pointer_some target) away
        · exact ⟨y, mem_iff_getElem?.mpr ⟨j, by simp [here, entry]⟩, named⟩
    · rw [dropped] at target
      cases target
  · intro e mem present
    rw [unpoint_stored] at mem
    rcases latest.covered e mem present with was | ⟨target, named, before⟩
    · exact .inl (still was)
    · rcases unpoint_latest (c := c) x.handed (pairOf e) with ⟨kept, _⟩ | ⟨_, q, of⟩
      · exact .inr ⟨target, kept.trans named, before⟩
      · -- the pointer was dropped, so the pass will delete the event, too
        obtain ⟨handed, pair, pointer, _⟩ := of
        exact .inl (still (doomed q handed (pair ▸ pointer) e mem pair.symm present))

end

/-! ### Steps -/

section
variable {s t : EventStore} {cd cv c : Contents} {new : EmailEvent} {db : DB}

theorem Indexed.targets (inv : Indexed s cd cv) : ∀ p e, cv.latest p = some e → Keyable e :=
  inv.viewTargeted.keyable inv.keyable

theorem Pass.Sound.mem_expired (sound : x.Sound s cv) (keyable : ∀ e ∈ s.written, Keyable e)
    {r : ExpiredEvent} : r ∈ x.scanned.filterMap (expiredRow x.cutoff) ↔
      ∃ e, Settled s e ∧ rowOf e ∈ x.scanned ∧ x.cutoff < maxInt64 - e.timestamp ∧
        r = expiredOf e := by
  rw [mem_filterMap]
  constructor
  · rintro ⟨row, mem, expired⟩
    obtain ⟨e, settled, rfl⟩ := sound.rows row mem
    rw [expiredRow_rowOf (keyable e settled.1)] at expired
    split at expired
    · cases expired
    next old => exact ⟨e, settled, mem, by omega, (Option.some.inj expired).symm⟩
  · rintro ⟨e, settled, mem, old, rfl⟩
    refine ⟨rowOf e, mem, ?_⟩
    rw [expiredRow_rowOf (keyable e settled.1), if_neg (by omega)]

theorem Pass.Sound.expired (sound : x.Sound s cv) (keyable : ∀ e ∈ s.written, Keyable e)
    (mem : expiredOf e ∈ x.scanned.filterMap (expiredRow x.cutoff)) :
    Settled s e ∧ x.cutoff < maxInt64 - e.timestamp := by
  obtain ⟨e', settled, _, old, same⟩ := (sound.mem_expired keyable).mp mem
  exact expiredOf_inj same ▸ ⟨settled, old⟩

section
variable (inv : Indexed s cd cv) (proper : Proper s (.write new))
  (taken : s.step (.write new) = some t)
include inv proper taken

theorem Settled.written (settled : Settled s e) : Settled t e := by
  cases taken
  refine ⟨mem_append_left _ settled.1, ?_⟩
  intro op staged k v row
  rcases mem_append.mp staged with old | staged
  · exact settled.2 op old k v row
  · exact performWrite_away inv.points proper.1 inv.targets staged (inv.keyable e settled.1)
      (proper.2 e settled.1) row

theorem Pass.Sound.written (sound : x.Sound s cv) : x.Sound t (cv.write new) := by
  obtain ⟨gone, split_, absent, handed⟩ := sound.deleted
  constructor
  · intro r mem
    obtain ⟨e, settled, rfl⟩ := sound.rows r mem
    exact ⟨e, settled.written inv proper taken, rfl⟩
  · refine ⟨gone, split_, ?_, handed⟩
    intro e deleted live
    rw [write_stored] at live
    rcases live with rfl | old
    · -- a new event is none of those the pass has read
      have read := (sound.expired inv.keyable (split_ ▸ mem_append_left _ deleted)).1
      exact proper.2 e read.1 rfl
    · exact absent e deleted old

theorem indexed_write : Indexed t cd (cv.write new) := by
  have sound x (mem : x ∈ s.passes) := (inv.passes x mem).written inv proper taken
  have settled e (live : e ∈ cd.stored) := (inv.committed e live).1.written inv proper taken
  cases taken
  exact {
    keyable := forall_mem_concat inv.keyable proper.1
    unique := fun a first b second same => by
      rcases mem_append.mp first with old | new
      · rcases mem_append.mp second with old' | new'
        · exact inv.unique a old b old' same
        · rw [mem_singleton.mp new'] at same
          exact absurd same (proper.2 a old)
      · rcases mem_append.mp second with old' | new'
        · rw [mem_singleton.mp new] at same
          exact absurd same.symm (proper.2 b old')
        · rw [mem_singleton.mp new, mem_singleton.mp new']
    db := inv.db
    view := by
      have fresh : ∀ e ∈ cv.stored, e.id ≠ new.id := fun e mem => proper.2 e (inv.known e mem)
      unfold EventStore.view
      rw [commit_append]
      exact performWrite_represents inv.view inv.points proper.1 fresh inv.targets
    points := performWrite_points inv.points proper.1
    committed := fun e live => ⟨settled e live, write_stored .. ▸ .inr (inv.committed e live).2⟩
    known := fun e mem => by
      rw [write_stored] at mem
      rcases mem with rfl | old
      · exact mem_concat_self
      · exact mem_append_left _ (inv.known e old)
    passes := sound
    dbTargeted := inv.dbTargeted.mono new
    viewTargeted := inv.viewTargeted.write new }

end

theorem indexed_committed {passes : List Pass} (inv : Indexed s cd cv) (reads : Represents db c)
    (known : ∀ e ∈ c.stored, e ∈ s.written) (sound : ∀ x ∈ passes, x.Sound { s with
      db := db, batch := [], batchLatestTs := .empty, passes := passes } c)
    (targeted : Targeted s.written c) :
    Indexed { s with db := db, batch := [], batchLatestTs := .empty, passes := passes } c c where
  keyable := inv.keyable
  unique := inv.unique
  db := reads
  view := reads
  points := fun _ plain => reads.pointer plain
  committed e mem := ⟨⟨known e mem, fun _ staged => nomatch staged⟩, mem⟩
  known := known
  passes := sound
  dbTargeted := targeted
  viewTargeted := targeted

theorem Pass.Sound.committed (sound : x.Sound s cv) (db : DB) (passes : List Pass)
    (same : ∀ e ∈ c.stored, e ∈ cv.stored) :
    x.Sound { s with db := db, batch := [], batchLatestTs := .empty, passes := passes } c := by
  obtain ⟨gone, split_, absent, handed⟩ := sound.deleted
  constructor
  · intro r mem
    obtain ⟨e, settled, rfl⟩ := sound.rows r mem
    exact ⟨e, ⟨settled.1, fun _ staged => nomatch staged⟩, rfl⟩
  · exact ⟨gone, split_, fun e deleted live => absent e deleted (same e live), handed⟩

theorem indexed_commit (inv : Indexed s cd cv) : Indexed s.commitBatch cv cv :=
  indexed_committed inv inv.view inv.known
    (fun x mem => (inv.passes x mem).committed _ _ fun _ live => live) inv.viewTargeted

theorem indexed_truncate (inv : Indexed s cd cv) (cutoff : Int) :
    Indexed { s with passes := s.passes ++ [⟨cutoff, s.db.scan (utf8 "events:") (utf8 "events;"),
      (s.db.scan (utf8 "events:") (utf8 "events;")).filterMap (expiredRow cutoff), []⟩] } cd cv := by
  refine { inv with passes := forall_mem_concat (fun x old => ?_) ⟨fun r scanned => ?_, ?_⟩ }
  · exact ⟨(inv.passes x old).rows, (inv.passes x old).deleted⟩
  · obtain ⟨e, live, rfl⟩ := mem_scan_events inv.db scanned
    exact ⟨e, (inv.committed e live).1, rfl⟩
  · exact ⟨[], rfl, fun _ deleted => (nomatch deleted), fun _ handed => nomatch handed⟩

theorem exists_map_expiredOf {P : EmailEvent → Prop} (rs : List ExpiredEvent)
    (all : ∀ r ∈ rs, ∃ e, P e ∧ r = expiredOf e) :
    ∃ es : List EmailEvent, rs = es.map expiredOf ∧ ∀ e ∈ es, P e := by
  induction rs with
  | nil => exact ⟨[], rfl, nofun⟩
  | cons r _ ih =>
    obtain ⟨es, rfl, others⟩ := ih fun x mem => all x (mem_cons_of_mem _ mem)
    obtain ⟨e, holds, rfl⟩ := all r mem_cons_self
    refine ⟨e :: es, rfl, fun x mem => ?_⟩
    rcases mem_cons.mp mem with rfl | later
    · exact holds
    · exact others x later

theorem latestTs_without {db' : DB} {es : List EmailEvent} (keyable : ∀ e ∈ es, Keyable e)
    (gone : Without ((es.flatMap expiryKeys).map Key.bytes) db db') (cache : BatchLatestTs)
    {p : Pair} (plain : p.Plain) : latestTs db' cache p = latestTs db cache p := by
  have away : (Key.latestTs p).bytes ∉ (es.flatMap expiryKeys).map Key.bytes := by
    intro mem
    obtain ⟨k, inside, same⟩ := mem_map.mp mem
    obtain ⟨e, expired, key⟩ := mem_flatMap.mp inside
    obtain ⟨v, row⟩ := mem_expiryKeys.mp key
    have equal := Key.bytes_inj (l := .latestTs p) (plain_of_entry (keyable e expired) row) plain same
    have id := (id_of_entry row).1
    rw [equal] at id
    cases id
  unfold latestTs
  rw [(gone _).2 away]

theorem indexed_expireChunk (inv : Indexed s cd cv) (found : s.passes[i]? = some x)
    (idle : x.handed = []) (held : List Bytes) (n : Nat) : let t : EventStore := { s with
      db := s.db.commit (expireChunk (x.remaining.take n) held).deletes
      archived := s.archived ++ (expireChunk (x.remaining.take n) held).archived
      passes := s.passes.set i { x with
        remaining := x.remaining.drop n
        handed := (expireChunk (x.remaining.take n) held).latest } }
    ∃ cd' cv', Indexed t cd' cv' ∧ (Current s cd cv → Current t cd' cv') := by
  have sound := inv.passes x (mem_of_getElem? found)
  obtain ⟨gone, split_, absent, _⟩ := sound.deleted
  -- the chunk is made of rows of events
  obtain ⟨es, chunk, settled⟩ : ∃ es : List EmailEvent,
      x.remaining.take n = es.map expiredOf ∧ ∀ e ∈ es, Settled s e := by
    refine exists_map_expiredOf _ fun r mem => ?_
    obtain ⟨e, settled, _, _, same⟩ := (sound.mem_expired inv.keyable).mp
      (split_ ▸ mem_append_right _ (mem_of_mem_take mem))
    exact ⟨e, settled, same⟩
  have keyable : ∀ e ∈ es, Keyable e := fun e mem => inv.keyable e (settled e mem).1
  have keys (k : Key) : k ∈ es.flatMap expiryKeys ↔ ∃ e ∈ es, ∃ v, (k, v) ∈ entries e := by
    simp only [mem_flatMap, mem_expiryKeys]
  have deletes : (expireChunk (es.map expiredOf) held).deletes =
      ((es.flatMap expiryKeys).map Key.bytes).map Op.delete := by
    rw [expireChunk_deletes, map_map]
    rfl
  have without := without_commit (s := s.db) ((es.flatMap expiryKeys).map Key.bytes)
  have under : Without ((es.flatMap expiryKeys).map Key.bytes) s.view
      ((s.db.commit (((es.flatMap expiryKeys).map Key.bytes).map Op.delete)).commit s.batch) := by
    refine without_commit_under fun op staged mem => ?_
    obtain ⟨k, inside, same⟩ := mem_map.mp mem
    obtain ⟨e, expired, v, row⟩ := (keys k).mp inside
    exact (settled e expired).2 op staged k v row same.symm
  have rest : x.remaining = es.map expiredOf ++ x.remaining.drop n := by
    rw [← chunk, take_append_drop]
  rw [chunk, deletes]
  refine ⟨cd.remove es, cv.remove es, ?_, ?_⟩
  · exact { inv with
      db := inv.db.remove es keyable
        (fun e expired e' live => inv.unique e (settled e expired).1 e' (inv.committed e' live).1.1)
        keys without
      view := inv.view.remove es keyable
        (fun e expired e' live => inv.unique e (settled e expired).1 e' (inv.known e' live)) keys
        under
      points := fun p plain => by
        rw [latestTs_without keyable without s.batchLatestTs plain]
        exact inv.points p plain
      committed := fun e mem => ⟨(inv.committed e mem.1).1, (inv.committed e mem.1).2, mem.2⟩
      known := fun e mem => inv.known e mem.1
      passes := by
        refine forall_mem_set (fun y mem => ?_) ?_
        · obtain ⟨gone', split', absent', handed'⟩ := (inv.passes y mem).deleted
          exact ⟨(inv.passes y mem).rows, gone', split',
            fun e deleted live => absent' e deleted live.1, handed'⟩
        · refine ⟨sound.rows, gone ++ es.map expiredOf, ?_, ?_, ?_⟩
          · rw [split_, append_assoc, ← rest]
          · intro e deleted live
            rcases mem_append.mp deleted with before | now
            · exact absent e before live.1
            · exact live.2 (mem_map_expiredOf.mp now)
          · intro q handed
            obtain ⟨e, expired, present, named⟩ := mem_expireChunk_latest.mp handed
            exact ⟨e, mem_append_right _ (mem_map_expiredOf.mpr expired), present, named⟩ }
  · intro current
    exact ⟨current.db.remove inv.dbTargeted found idle rest held,
      current.view.remove inv.viewTargeted found idle rest held⟩

theorem indexed_expireLatest (inv : Indexed s cd cv) (found : s.passes[i]? = some x) :
    let t : EventStore := { s with
      db := s.db.commit (s.batch ++ (performLatestExpiry s.db x.handed s.batchLatestTs).1)
      batch := []
      batchLatestTs := .empty
      passes := s.passes.set i { x with handed := [] } }
    ∃ cd' cv', Indexed t cd' cv' ∧
      (foreseen s (.expireLatest i) = true → Current s cd cv → Current t cd' cv') := by
  have sound := inv.passes x (mem_of_getElem? found)
  obtain ⟨gone, split_, absent, handed⟩ := sound.deleted
  have expired {e : EmailEvent} (deleted : expiredOf e ∈ gone) :
      Settled s e ∧ x.cutoff < maxInt64 - e.timestamp :=
    sound.expired inv.keyable (split_ ▸ mem_append_left _ deleted)
  have plain : ∀ q ∈ x.handed, q.pair.Plain ∧ q.tsDesc ≠ [] := by
    intro q mem
    obtain ⟨e, deleted, _, rfl⟩ := handed q mem
    have keyable := inv.keyable e (expired deleted).1.1
    exact ⟨keyable.pair_plain, keyable.tsDesc_ne_nil⟩
  have reads := performLatestExpiry_represents x.handed plain inv.view inv.points inv.targets
  rw [commit_append]
  refine ⟨cv.unpoint x.handed, cv.unpoint x.handed, indexed_committed inv reads ?_ ?_ ?_, ?_⟩
  · intro e live
    exact inv.known e (unpoint_stored (c := cv) x.handed ▸ live)
  · have same : ∀ e ∈ (cv.unpoint x.handed).stored, e ∈ cv.stored := fun e live =>
      unpoint_stored (c := cv) x.handed ▸ live
    refine forall_mem_set (fun y mem => (inv.passes y mem).committed _ _ same) ?_
    obtain ⟨rows, gone', split', absent', _⟩ := sound.committed
      (s.view.commit (performLatestExpiry s.db x.handed s.batchLatestTs).1)
      (s.passes.set i { x with handed := [] }) same
    exact ⟨rows, gone', split', absent', fun _ named => nomatch named⟩
  · exact inv.viewTargeted.unpoint x.handed
  · intro all current
    -- what the pass saw of a recipient whose pointer is dropped, it will delete
    have doomed : ∀ q ∈ x.handed, cv.pointer q.pair = q.tsDesc → ∀ e ∈ cv.stored,
        pairOf e = q.pair → e.messageID ≠ "" → Doomed s.passes e := by
      intro q mem pointer e live pair present
      rcases current.view.covered e live present with was | ⟨target, named, before⟩
      · exact was
      · obtain ⟨e', deleted, _, rfl⟩ := handed q mem
        have keyable' := inv.keyable e' (expired deleted).1.1
        have scanned : rowOf e ∈ x.scanned := by
          simp only [foreseen, found, Option.all_some, all_eq_true] at all
          have here := all _ mem
          rw [inv.points _ keyable'.pair_plain, Bool.or_eq_true] at here
          rcases here with away | seen
          · simp [pointer] at away
          · have keyable : ∀ e ∈ cv.stored, Keyable e := fun e live =>
              inv.keyable e (inv.known e live)
            have each := all_eq_true.mp seen e
              ((inv.view.mem_stored keyable inv.targets).mpr live)
            simpa [pair] using each
        have time : target.timestamp = e'.timestamp := by
          rw [← pair] at pointer
          have same : tsDesc target = tsDesc e' := (pointer_some named).symm.trans pointer
          have instants := (descendingTimestamp_inj (inv.targets _ _ named).timestamp
            keyable'.timestamp).mp same
          exact Int.ofNat_inj.mp instants
        have old : x.cutoff < maxInt64 - e.timestamp := by
          have bound := (expired deleted).2
          have order : (e.timestamp : Int) ≤ e'.timestamp := Int.ofNat_le.mpr (time ▸ before)
          omega
        obtain ⟨e₀, settled, same⟩ := sound.rows _ scanned
        have own : e₀ = e := by
          have value := congrArg Prod.snd same
          simpa [rowOf] using value.symm
        have waiting : expiredOf e ∈ gone ++ x.remaining := by
          rw [← split_]
          exact (sound.mem_expired inv.keyable).mpr ⟨e, own ▸ settled, scanned, old, rfl⟩
        rcases mem_append.mp waiting with deleted | later
        · exact absurd live (absent e deleted)
        · exact ⟨x, mem_of_getElem? found, later⟩
    have after := current.view.unpoint inv.targets found doomed
    exact ⟨after, after⟩

/-- A step keeps the rows in order; it keeps the pointers right if no event is overlooked. -/
theorem Indexed.step {a : StoreAction} (inv : Indexed s cd cv) (proper : Proper s a)
    (taken : s.step a = some t) : ∃ cd' cv', Indexed t cd' cv' ∧
      (foreseen s a = true → Current s cd cv → Current t cd' cv') := by
  cases a with
  | write =>
    refine ⟨_, _, indexed_write inv proper taken, fun _ current => ?_⟩
    cases taken
    exact ⟨current.db, current.view.write inv.targets proper.1⟩
  | commit =>
    cases taken
    exact ⟨_, _, indexed_commit inv, fun _ current => ⟨current.view, current.view⟩⟩
  | restart =>
    simp only [EventStore.step, Option.ite_none_right_eq_some, Option.some.injEq] at taken
    obtain ⟨_, rfl⟩ := taken
    exact ⟨_, _, indexed_commit inv, fun _ current => ⟨current.view, current.view⟩⟩
  | truncateBefore =>
    simp only [EventStore.step, Option.ite_none_left_eq_some, Option.some.injEq] at taken
    obtain ⟨_, rfl⟩ := taken
    exact ⟨_, _, indexed_truncate inv _, fun _ current =>
      ⟨current.db.mono _, current.view.mono _⟩⟩
  | expireChunk _ held =>
    simp only [EventStore.step] at taken
    split at taken
    · cases taken
    next x found =>
      simp only [Option.ite_none_left_eq_some, not_or, not_not, Option.some.injEq] at taken
      obtain ⟨⟨idle, _⟩, rfl⟩ := taken
      obtain ⟨cd', cv', kept, current⟩ :=
        indexed_expireChunk inv found idle held truncateBatchSize
      exact ⟨cd', cv', kept, fun _ => current⟩
  | expireLatest =>
    simp only [EventStore.step] at taken
    split at taken
    · cases taken
    next x found =>
      simp only [Option.ite_none_left_eq_some, Option.some.injEq] at taken
      obtain ⟨_, rfl⟩ := taken
      exact indexed_expireLatest inv found

end

/-! ### The index -/

theorem Represents.latestExact {db : DB} {c : Contents} {written : List EmailEvent}
    {passes : List Pass} {p : Pair} (reads : Represents db c) (targeted : Targeted written c)
    (latest : LatestUpTo passes c) (keyable : ∀ e ∈ written, Keyable e)
    (known : ∀ e ∈ c.stored, e ∈ written) (done : ∀ x ∈ passes, x.completed = true)
    (plain : p.Plain) (present : p.messageID ≠ "") : LatestExact db p := by
  have live {e : EmailEvent} : e ∈ stored db ↔ e ∈ c.stored :=
    reads.mem_stored (fun e mem => keyable e (known e mem)) (targeted.keyable keyable)
  have entry {ts : Bytes} (free : colon ∉ ts) (v : Value) :
      db.get (Key.latestEvent p ts).bytes = some v ↔
        ∃ e, c.latest p = some e ∧ ts = tsDesc e ∧ v = .event e :=
    (reads.get_iff (.latestEvent p ts) ⟨plain, free⟩ v).trans holds_latestEvent
  -- no pass has anything left to hand over, so a pointer names a stored event
  have target {e : EmailEvent} (named : c.latest p = some e) : e ∈ c.stored ∧ pairOf e = p := by
    rcases latest.live p e named with here | ⟨x, mem, handed⟩
    · exact ⟨here, (targeted p e named).2.1⟩
    · rw [(Pass.completed_iff.mp (done x mem)).2] at handed
      cases handed
  -- nor has one anything left to delete, so every event is covered
  have covered {e : EmailEvent} (mem : e ∈ c.stored) (of : pairOf e = p) :
      ∃ e', c.latest p = some e' ∧ e.timestamp ≤ e'.timestamp := by
    have message : e.messageID ≠ "" := fun blank => present (of ▸ blank)
    rcases latest.covered e mem message with ⟨x, inside, waiting⟩ | pointed
    · rw [(Pass.completed_iff.mp (done x inside)).1] at waiting
      cases waiting
    · exact of ▸ pointed
  constructor
  · intro ts ts' v v' free free' first second
    obtain ⟨e, named, at_, _⟩ := (entry free v).mp first
    obtain ⟨e', named', at', _⟩ := (entry free' v').mp second
    rw [named, Option.some.injEq] at named'
    rw [at_, at', named']
  · intro ts free
    rw [reads.get_iff (.latestTs p) plain, holds_latestTs]
    constructor
    · rintro ⟨v, found⟩
      obtain ⟨e, named, at_, _⟩ := (entry free v).mp found
      exact ⟨e, named, by rw [at_]⟩
    · rintro ⟨e, named, same⟩
      exact ⟨.event e, (entry free _).mpr ⟨e, named, Value.text.inj same, rfl⟩⟩
  · intro ts v free found
    obtain ⟨e, named, at_, body⟩ := (entry free v).mp found
    obtain ⟨mem, of⟩ := target named
    refine ⟨e, live.mpr mem, body, of, at_, ?_⟩
    intro e' other of'
    obtain ⟨e'', named', before⟩ := covered (live.mp other) of'
    rw [named, Option.some.injEq] at named'
    exact named' ▸ before
  · constructor
    · rintro ⟨ts, v, free, found⟩
      obtain ⟨e, named, _, _⟩ := (entry free v).mp found
      obtain ⟨mem, of⟩ := target named
      exact ⟨e, live.mpr mem, of⟩
    · rintro ⟨e, mem, of⟩
      obtain ⟨e', named, _⟩ := covered (live.mp mem) of
      have free : colon ∉ tsDesc e' := (targeted.keyable keyable p e' named).tsDesc_plain
      exact ⟨tsDesc e', .event e', free, (entry free _).mpr ⟨e', named, rfl, rfl⟩⟩

/-- Where no pointer is dropped over an event the pass had not seen, the index of latest events is
exact whenever the passes are done, in the database as well as with the batch. -/
theorem latest_index_exact {as : List StoreAction} {s : EventStore}
    (run : exec EventStore.step .init as = some s)
    (along : AllSteps EventStore.step (fun s a => Proper s a ∧ foreseen s a = true) .init as)
    (done : s.passes.all Pass.completed = true) (p : Pair) (plain : p.Plain)
    (present : p.messageID ≠ "") : LatestExact s.db p ∧ LatestExact s.view p := by
  obtain ⟨cd, cv, inv, current⟩ := invariant_along EventStore.step
    (fun s a => Proper s a ∧ foreseen s a = true)
    (fun s => ∃ cd cv, Indexed s cd cv ∧ Current s cd cv)
    (fun s a t allowed before taken => by
      obtain ⟨cd, cv, inv, current⟩ := before
      obtain ⟨cd', cv', kept, still⟩ := inv.step allowed.1 taken
      exact ⟨cd', cv', kept, still allowed.2 current⟩)
    _ _ as ⟨_, _, indexed_init, current_init⟩ along run
  have finished := all_eq_true.mp done
  constructor
  · exact inv.db.latestExact inv.dbTargeted current.db inv.keyable
      (fun e member => (inv.committed e member).1.1) finished plain present
  · exact inv.view.latestExact inv.viewTargeted current.view inv.keyable inv.known finished plain
      present

/-! ### Runs -/

def opened : EmailEvent := ⟨"e1", "t1", "p1", "smtp", "m1", .opened, "a@x.org", "Hi", 5, ""⟩

def sentLate : EmailEvent := ⟨"e2", "t1", "p1", "smtp", "m1", .sent, "a@x.org", "Hi", 3, ""⟩

def clicked : EmailEvent := ⟨"e3", "t1", "p1", "smtp", "m1", .clicked, "a@x.org", "Hi", 9, ""⟩

def bounced : EmailEvent := ⟨"e4", "t1", "p1", "smtp", "m1", .bounced, "b@x.org", "Hi", 4, ""⟩

def recipientA : Pair := ⟨"t1", "m1", "a@x.org"⟩

/-- Events out of order, a restart, and a pass that expires one recipient's only event and another's
older ones. -/
def sweptTrace : List StoreAction :=
  [.write clicked, .write opened, .commit, .write bounced, .restart, .write sentLate, .commit,
    .truncateBefore 6, .expireChunk 0 [], .expireLatest 0, .restart]

theorem latest_index_exact_swept : ∃ s, exec EventStore.step .init sweptTrace = some s ∧
    stored s.db = [clicked] ∧ LatestExact s.db recipientA ∧ LatestExact s.view recipientA := by
  have runs : ∃ s ∈ exec EventStore.step .init sweptTrace,
      stored s.db = [clicked] ∧ s.passes.all Pass.completed = true := by decide +kernel
  have along : AllSteps EventStore.step (fun s a => Proper s a ∧ foreseen s a = true) .init
      sweptTrace := by decide +kernel
  obtain ⟨s, run, left, done⟩ := runs
  exact ⟨s, run, left, latest_index_exact run along done recipientA ⟨by decide, by decide⟩
    (by decide)⟩

/-- A recipient's newest event expires while an older one is in the batch, unseen by the pass and
left without an entry. -/
def overtakenTrace : List StoreAction :=
  [.write opened, .commit, .write sentLate, .truncateBefore 10, .expireChunk 0 [], .expireLatest 0]

theorem latest_entry_lost : ∃ s, exec EventStore.step .init overtakenTrace = some s ∧
    AllSteps EventStore.step Proper .init overtakenTrace ∧ s.passes.all Pass.completed = true ∧
    stored s.db = [sentLate] ∧ ¬ LatestExact s.db recipientA := by
  have runs : ∃ s ∈ exec EventStore.step .init overtakenTrace,
      stored s.db = [sentLate] ∧ s.passes.all Pass.completed = true ∧
        s.db.get (Key.latestTs recipientA).bytes = none := by decide +kernel
  have along : AllSteps EventStore.step Proper .init overtakenTrace := by decide +kernel
  obtain ⟨s, run, left, done, dropped⟩ := runs
  refine ⟨s, run, along, done, left, fun exact_ => ?_⟩
  obtain ⟨ts, v, free, found⟩ := exact_.present.mpr ⟨sentLate, by simp [left], rfl⟩
  have pointer := (exact_.named ts free).mp ⟨v, found⟩
  rw [dropped] at pointer
  cases pointer

end Panmail.Events
