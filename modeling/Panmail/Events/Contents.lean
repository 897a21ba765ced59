import Mathlib.Data.Set.Insert
import Mathlib.Logic.Function.Basic
import Panmail.Events.Pebble

/-!
# What the rows of the event store stand for

The rows of a database that the writer and the retention passes have made stand for a set of
events and, for each recipient of a message, the event its pointer names. Each operation of the
store on rows is an operation on that.
-/
namespace Panmail.Events

open ByteStrings KeyValue Delivery List

/-! ### The rows of an event and of a pointer -/

def entries (e : EmailEvent) : List (Key × Value) :=
  [(eventKey e, .event e), (idKey e, .text (utf8 e.tenantID ++ colon :: tsDesc e))] ++
    if e.messageID = "" then [] else [(msgEventKey e, .event e)]

def pointerEntries (p : Pair) (e : EmailEvent) : List (Key × Value) :=
  [(.latestTs p, .text (tsDesc e)), (.latestEvent p (tsDesc e), .event e)]

def Key.id? : Key → Option String
  | .event _ _ id => some id
  | .eventID id => some id
  | .msgEvent _ _ id => some id
  | .latestTs _ => none
  | .latestEvent .. => none

def Key.pair? : Key → Option Pair
  | .event .. => none
  | .eventID _ => none
  | .msgEvent .. => none
  | .latestTs p => some p
  | .latestEvent p _ => some p

section
variable {e : EmailEvent} {p : Pair} {k : Key} {v : Value}

theorem id_of_entry (mem : (k, v) ∈ entries e) : k.id? = some e.id ∧ k.pair? = none := by
  simp only [entries] at mem
  split at mem
  · simp only [append_nil, mem_cons, Prod.mk.injEq, not_mem_nil, or_false] at mem
    rcases mem with ⟨rfl, _⟩ | ⟨rfl, _⟩ <;> exact ⟨rfl, rfl⟩
  · simp only [mem_append, mem_cons, Prod.mk.injEq, not_mem_nil, or_false] at mem
    rcases mem with (⟨rfl, _⟩ | ⟨rfl, _⟩) | ⟨rfl, _⟩ <;> exact ⟨rfl, rfl⟩

theorem pair_of_entry (mem : (k, v) ∈ pointerEntries p e) : k.pair? = some p ∧ k.id? = none := by
  simp only [pointerEntries, mem_cons, Prod.mk.injEq, not_mem_nil, or_false] at mem
  rcases mem with ⟨rfl, _⟩ | ⟨rfl, _⟩ <;> exact ⟨rfl, rfl⟩

theorem plain_of_entry (keyable : Keyable e) (mem : (k, v) ∈ entries e) : k.Plain := by
  simp only [entries] at mem
  split at mem
  · simp only [append_nil, mem_cons, Prod.mk.injEq, not_mem_nil, or_false] at mem
    rcases mem with ⟨rfl, _⟩ | ⟨rfl, _⟩
    · exact keyable.eventKey_plain
    · trivial
  · simp only [mem_append, mem_cons, Prod.mk.injEq, not_mem_nil, or_false] at mem
    rcases mem with (⟨rfl, _⟩ | ⟨rfl, _⟩) | ⟨rfl, _⟩
    · exact keyable.eventKey_plain
    · trivial
    · exact keyable.msgEventKey_plain

theorem entries_nodup (e : EmailEvent) : ((entries e).map Prod.fst).Nodup := by
  simp only [entries]
  split <;> simp [eventKey, idKey, msgEventKey]

end

/-! ### Contents -/

structure Contents where
  stored : Set EmailEvent
  latest : Pair → Option EmailEvent

namespace Contents

def empty : Contents := ⟨∅, fun _ => none⟩

def Holds (c : Contents) (k : Key) (v : Value) : Prop :=
  (∃ e ∈ c.stored, (k, v) ∈ entries e) ∨ ∃ p e, c.latest p = some e ∧ (k, v) ∈ pointerEntries p e

def pointer (c : Contents) (p : Pair) : Bytes := ((c.latest p).map tsDesc).getD []

def add (c : Contents) (e : EmailEvent) : Contents := { c with stored := insert e c.stored }

def remove (c : Contents) (es : List EmailEvent) : Contents :=
  { c with stored := { e ∈ c.stored | e ∉ es } }

def point (c : Contents) (p : Pair) (e : Option EmailEvent) : Contents :=
  { c with latest := Function.update c.latest p e }

@[simp] theorem point_self (c : Contents) (p : Pair) (target : Option EmailEvent) :
    (c.point p target).latest p = target := Function.update_self ..

theorem point_of_ne (c : Contents) {p q : Pair} (target : Option EmailEvent) (other : q ≠ p) :
    (c.point p target).latest q = c.latest q := Function.update_of_ne other ..

variable {c : Contents} {k : Key} {v : Value} {e : EmailEvent} {p : Pair} {id : String}
  {ts : Bytes}

theorem holds_of_pair (of : k.pair? = some p) :
    c.Holds k v ↔ ∃ e, c.latest p = some e ∧ (k, v) ∈ pointerEntries p e := by
  constructor
  · rintro (⟨e, _, row⟩ | ⟨q, e, latest, row⟩)
    · rw [(id_of_entry row).2] at of
      cases of
    · have same : q = p := Option.some.inj ((pair_of_entry row).1.symm.trans of)
      exact same ▸ ⟨e, latest, row⟩
  · rintro ⟨e, latest, row⟩
    exact .inr ⟨p, e, latest, row⟩

theorem holds_of_id (of : k.id? = some id) :
    c.Holds k v ↔ ∃ e ∈ c.stored, (k, v) ∈ entries e := by
  constructor
  · rintro (row | ⟨p, e, _, row⟩)
    · exact row
    · rw [(pair_of_entry row).2] at of
      cases of
  · exact .inl

theorem holds_event {t : String} :
    c.Holds (.event t ts id) v ↔ ∃ e ∈ c.stored, .event t ts id = eventKey e ∧ v = .event e := by
  rw [holds_of_id rfl]
  refine exists_congr fun e => and_congr_right fun _ => ?_
  unfold entries
  split <;> simp [idKey, msgEventKey]

theorem holds_msgEvent : c.Holds (.msgEvent p ts id) v ↔
    ∃ e ∈ c.stored, e.messageID ≠ "" ∧ .msgEvent p ts id = msgEventKey e ∧ v = .event e := by
  rw [holds_of_id rfl]
  refine exists_congr fun e => and_congr_right fun _ => ?_
  unfold entries
  split
  next blank => simp [eventKey, idKey, blank]
  next present => simp [eventKey, idKey, present]

theorem mem_of_holds (row : c.Holds k (.event e)) : e ∈ c.stored ∨ ∃ p, c.latest p = some e := by
  rcases row with ⟨e', mem, row⟩ | ⟨p, e', latest, row⟩
  · left
    simp only [entries, mem_append, mem_cons, Prod.mk.injEq, Value.event.injEq,
      reduceCtorEq, and_false, not_mem_nil, or_false] at row
    rcases row with ⟨_, rfl⟩ | other
    · exact mem
    · split at other
      · cases other
      simp only [mem_singleton, Prod.mk.injEq, Value.event.injEq] at other
      exact other.2 ▸ mem
  · right
    simp only [pointerEntries, mem_cons, Prod.mk.injEq, Value.event.injEq, reduceCtorEq,
      and_false, false_or, not_mem_nil, or_false] at row
    exact ⟨p, row.2 ▸ latest⟩

theorem holds_latestTs : c.Holds (.latestTs p) v ↔ ∃ e, c.latest p = some e ∧ v = .text (tsDesc e) := by
  rw [holds_of_pair rfl]
  simp [pointerEntries]

theorem holds_latestEvent : c.Holds (.latestEvent p ts) v ↔
    ∃ e, c.latest p = some e ∧ ts = tsDesc e ∧ v = .event e := by
  rw [holds_of_pair rfl]
  simp [pointerEntries]

theorem pointer_some (latest : c.latest p = some e) : c.pointer p = tsDesc e := by
  rw [pointer, latest, Option.map_some, Option.getD_some]

theorem pointer_none (latest : c.latest p = none) : c.pointer p = [] := by
  rw [pointer, latest, Option.map_none, Option.getD_none]

theorem pointer_eq_nil (known : ∀ p e, c.latest p = some e → Keyable e) :
    c.pointer p = [] ↔ c.latest p = none := by
  constructor
  · intro empty
    cases latest : c.latest p with
    | none => rfl
    | some e =>
      rw [pointer_some latest] at empty
      exact absurd empty (known p e latest).tsDesc_ne_nil
  · exact pointer_none

end Contents

/-! ### Databases -/

/-- The rows of a database are those `holds` has, all under keys of the store. -/
structure Reads (db : DB) (holds : Key → Value → Prop) : Prop where
  get_iff : ∀ k : Key, k.Plain → ∀ v, db.get k.bytes = some v ↔ holds k v
  keyed : ∀ raw v, db.get raw = some v → ∃ k : Key, k.Plain ∧ raw = k.bytes

open Contents Key

def Represents (db : DB) (c : Contents) : Prop := Reads db c.Holds

section
variable {db db' : DB} {holds holds' : Key → Value → Prop}

theorem Reads.congr (reads : Reads db holds) (same : ∀ k v, holds k v ↔ holds' k v) :
    Reads db holds' :=
  ⟨fun k plain v => (reads.get_iff k plain v).trans (same k v), reads.keyed⟩

theorem Reads.sets (reads : Reads db holds) (rows : List (Key × Value))
    (plain : ∀ r ∈ rows, r.1.Plain) (nodup : (rows.map Prod.fst).Nodup) :
    Reads (db.commit (rows.map fun r => .set r.1.bytes r.2))
      fun k v => (k, v) ∈ rows ∨ (k ∉ rows.map Prod.fst ∧ holds k v) := by
  induction rows generalizing db holds with
  | nil => exact reads.congr fun k v => by simp
  | cons r rest ih =>
    obtain ⟨alone, others⟩ := nodup_cons.mp nodup
    have here : r.1.Plain := plain r mem_cons_self
    have first : Reads (db.set r.1.bytes r.2)
        fun k v => if k = r.1 then v = r.2 else holds k v := by
      constructor
      · intro k other v
        by_cases same : k = r.1
        · simp [Store.get_set, same, eq_comm]
        · have away := (bytes_eq_iff other here).not.mpr same
          rw [Store.get_set, if_neg away, if_neg same]
          exact reads.get_iff k other v
      · intro raw v found
        rw [Store.get_set] at found
        split at found
        next at_ => exact ⟨r.1, here, at_⟩
        next => exact reads.keyed raw v found
    refine (ih first (fun x mem => plain x (mem_cons_of_mem _ mem)) others).congr ?_
    intro k v
    by_cases same : k = r.1
    · subst same
      have missing : (r.1, v) ∉ rest := fun row => alone (mem_map.mpr ⟨_, row, rfl⟩)
      simp [missing, alone, Prod.ext_iff]
    · simp [same, Prod.ext_iff]

theorem Reads.deletes (reads : Reads db holds) (ks : List Key) (plain : ∀ k ∈ ks, k.Plain)
    (gone : Without (ks.map bytes) db db') : Reads db' fun k v => k ∉ ks ∧ holds k v := by
  constructor
  · intro k other v
    have named : k.bytes ∈ ks.map bytes ↔ k ∈ ks := by
      constructor
      · intro mem
        obtain ⟨l, inside, same⟩ := mem_map.mp mem
        exact bytes_inj (plain l inside) other same ▸ inside
      · intro mem
        exact mem_map.mpr ⟨k, mem, rfl⟩
    by_cases mem : k ∈ ks
    · rw [(gone k.bytes).1 (named.mpr mem)]
      simp [mem]
    · rw [(gone k.bytes).2 (fun inside => mem (named.mp inside)), reads.get_iff k other v]
      simp [mem]
  · intro raw v found
    by_cases mem : raw ∈ ks.map bytes
    · rw [(gone raw).1 mem] at found
      cases found
    · exact reads.keyed raw v ((gone raw).2 mem ▸ found)

theorem Reads.commit_deletes (reads : Reads db holds) (ks : List Key) (plain : ∀ k ∈ ks, k.Plain) :
    Reads (db.commit (ks.map fun k => .delete k.bytes)) fun k v => k ∉ ks ∧ holds k v := by
  have deletions : (ks.map fun k => (.delete k.bytes : Write)) = (ks.map bytes).map .delete := by
    rw [map_map]
    rfl
  rw [deletions]
  exact reads.deletes ks plain (without_commit _)

end

section
variable {db db' : DB} {c : Contents} {e : EmailEvent} {p : Pair}

theorem represents_empty : Represents .empty .empty := by
  constructor
  · intro k _ v
    simp [Contents.Holds, empty]
  · intro raw v found
    simp at found

section
variable (reads : Represents db c) (keyable : ∀ e ∈ c.stored, Keyable e)
  (known : ∀ p e, c.latest p = some e → Keyable e)
include reads keyable known

theorem Represents.keyable_of_row {raw : Bytes} (found : db.get raw = some (.event e)) :
    Keyable e := by
  obtain ⟨k, plain, rfl⟩ := reads.keyed _ _ found
  rcases mem_of_holds ((reads.get_iff k plain _).mp found) with mem | ⟨p, latest⟩
  · exact keyable e mem
  · exact known p e latest

theorem Represents.mem_stored : e ∈ stored db ↔ e ∈ c.stored := by
  rw [Events.mem_stored]
  constructor
  · intro found
    have plain := (reads.keyable_of_row keyable known found).eventKey_plain
    obtain ⟨e', mem, _, body⟩ := holds_event.mp ((reads.get_iff _ plain _).mp found)
    exact Value.event.inj body ▸ mem
  · intro mem
    exact (reads.get_iff _ (keyable e mem).eventKey_plain _).mpr
      (holds_event.mpr ⟨e, mem, rfl, rfl⟩)

end

theorem Represents.pointer (reads : Represents db c) (plain : p.Plain) :
    (latestTs db .empty p).getD [] = c.pointer p := by
  have row (v : Value) := (reads.get_iff (.latestTs p) plain v).trans holds_latestTs
  unfold latestTs Contents.pointer
  cases latest : c.latest p with
  | none =>
    have missing : db.get (Key.latestTs p).bytes = none := by
      cases found : db.get (Key.latestTs p).bytes with
      | none => rfl
      | some v =>
        obtain ⟨e, named, _⟩ := (row v).mp found
        rw [latest] at named
        cases named
    rw [missing]
    rfl
  | some e =>
    rw [(row (.text (tsDesc e))).mpr ⟨e, latest, rfl⟩]
    rfl

theorem Represents.add (reads : Represents db c) (keyable : Keyable e)
    (fresh : ∀ e' ∈ c.stored, e'.id ≠ e.id) :
    Represents (db.commit ((entries e).map fun r => .set r.1.bytes r.2)) (c.add e) := by
  refine (reads.sets (entries e) (fun r mem => plain_of_entry keyable mem)
    (entries_nodup e)).congr fun k v => ?_
  constructor
  · rintro (row | ⟨_, ⟨e', mem, row⟩ | pointed⟩)
    · exact .inl ⟨e, .inl rfl, row⟩
    · exact .inl ⟨e', .inr mem, row⟩
    · exact .inr pointed
  · rintro (⟨e', rfl | mem, row⟩ | ⟨q, e', latest, row⟩)
    · exact .inl row
    · right
      refine ⟨fun inside => ?_, .inl ⟨e', mem, row⟩⟩
      obtain ⟨⟨l, w⟩, own, rfl⟩ := mem_map.mp inside
      have same := (id_of_entry row).1.symm.trans (id_of_entry own).1
      exact fresh e' mem (Option.some.inj same)
    · right
      refine ⟨fun inside => ?_, .inr ⟨q, e', latest, row⟩⟩
      obtain ⟨⟨l, w⟩, own, rfl⟩ := mem_map.mp inside
      have none_ := (pair_of_entry row).2.symm.trans (id_of_entry own).1
      cases none_

theorem Represents.remove (reads : Represents db c) (es : List EmailEvent)
    (keyable : ∀ e ∈ es, Keyable e)
    (unique : ∀ e ∈ es, ∀ e' ∈ c.stored, e.id = e'.id → e = e') {ks : List Key}
    (keys : ∀ k, k ∈ ks ↔ ∃ e ∈ es, ∃ v, (k, v) ∈ entries e)
    (gone : Without (ks.map bytes) db db') : Represents db' (c.remove es) := by
  have plain : ∀ k ∈ ks, k.Plain := by
    intro k mem
    obtain ⟨e, inside, v, row⟩ := (keys k).mp mem
    exact plain_of_entry (keyable e inside) row
  refine (reads.deletes ks plain gone).congr fun k v => ?_
  constructor
  · rintro ⟨kept, ⟨e', mem, row⟩ | pointed⟩
    · refine .inl ⟨e', ⟨mem, fun inside => ?_⟩, row⟩
      exact kept ((keys k).mpr ⟨e', inside, v, row⟩)
    · exact .inr pointed
  · rintro (⟨e', ⟨mem, kept⟩, row⟩ | ⟨q, e', latest, row⟩)
    · refine ⟨fun inside => ?_, .inl ⟨e', mem, row⟩⟩
      obtain ⟨e, expired, w, own⟩ := (keys k).mp inside
      have same := (id_of_entry own).1.symm.trans (id_of_entry row).1
      exact kept (unique e expired e' mem (Option.some.inj same) ▸ expired)
    · refine ⟨fun inside => ?_, .inr ⟨q, e', latest, row⟩⟩
      obtain ⟨e, _, w, own⟩ := (keys k).mp inside
      have none_ := (pair_of_entry row).2.symm.trans (id_of_entry own).1
      cases none_

theorem Reads.point {holds : Key → Value → Prop} (reads : Reads db holds)
    (target : Option EmailEvent) (away : ∀ k v, k.pair? ≠ some p → (holds k v ↔ c.Holds k v))
    (here : ∀ k v, k.pair? = some p →
      (holds k v ↔ ∃ e, target = some e ∧ (k, v) ∈ pointerEntries p e)) :
    Represents db (c.point p target) := by
  refine reads.congr fun k v => ?_
  by_cases own : k.pair? = some p
  · rw [here k v own, holds_of_pair own, point_self]
  · rw [away k v own]
    cases other : k.pair? with
    | some q =>
      have different : q ≠ p := fun same => own (other.trans (congrArg some same))
      rw [holds_of_pair other, holds_of_pair other,
        point_of_ne c target different]
    | none =>
      -- a row of an event
      constructor <;>
        · rintro (stored | ⟨q, e, _, row⟩)
          · exact .inl stored
          · rw [(pair_of_entry row).1] at other
            cases other

theorem Represents.point (reads : Represents db c) (keyable : Keyable e) (plain : p.Plain)
    (known : ∀ p e, c.latest p = some e → Keyable e) :
    Represents ((db.commit (if c.pointer p = [] then []
      else [.delete (latestEvent p (c.pointer p)).bytes])).commit
        [.set (Key.latestTs p).bytes (.text (tsDesc e)),
          .set (latestEvent p (tsDesc e)).bytes (.event e)]) (c.point p (some e)) := by
  have old : ∀ e', c.latest p = some e' → c.pointer p = tsDesc e' := by
    intro e' latest
    exact pointer_some latest
  -- the ordered entry of the old target goes, if there was one
  have cleared : Reads (db.commit (if c.pointer p = [] then []
      else [.delete (latestEvent p (c.pointer p)).bytes]))
      fun k v => k ≠ .latestEvent p (c.pointer p) ∧ c.Holds k v := by
    split
    next empty =>
      refine reads.congr fun k v => ?_
      constructor
      · intro row
        refine ⟨?_, row⟩
        rintro rfl
        obtain ⟨e', latest, _⟩ := holds_latestEvent.mp row
        exact absurd latest (by simp [(pointer_eq_nil known).mp empty])
      · exact And.right
    next present =>
      cases latest : c.latest p with
      | none => exact absurd ((pointer_eq_nil known).mpr latest) present
      | some e' =>
        have colonFree : colon ∉ c.pointer p := old e' latest ▸ (known p e' latest).tsDesc_plain
        have gone := Reads.commit_deletes reads [.latestEvent p (c.pointer p)]
          (by
            intro k mem
            rw [mem_singleton.mp mem]
            exact ⟨plain, colonFree⟩)
        exact gone.congr fun k v => by simp
  refine (cleared.sets (pointerEntries p e) ?_ ?_).point (some e) ?_ ?_
  · intro r mem
    simp only [pointerEntries, mem_cons, not_mem_nil, or_false] at mem
    rcases mem with rfl | rfl
    · exact plain
    · exact ⟨plain, keyable.tsDesc_plain⟩
  · simp [pointerEntries]
  · intro k v other
    have outside : ∀ w, (k, w) ∉ pointerEntries p e := fun w row => other (pair_of_entry row).1
    have kept : k ∉ (pointerEntries p e).map Prod.fst := by
      intro inside
      obtain ⟨⟨l, w⟩, row, rfl⟩ := mem_map.mp inside
      exact outside w row
    have different : k ≠ .latestEvent p (c.pointer p) := by
      rintro rfl
      exact other rfl
    simp [outside v, kept, different]
  · intro k v own
    simp only [Option.some.injEq, exists_eq_left']
    constructor
    · rintro (row | ⟨kept, different, row⟩)
      · exact row
      · -- the old rows of the pointer are overwritten or deleted
        obtain ⟨e', latest, entry⟩ := (holds_of_pair own).mp row
        simp only [pointerEntries, mem_cons, Prod.mk.injEq, not_mem_nil,
          or_false] at entry
        rcases entry with ⟨rfl, _⟩ | ⟨rfl, _⟩
        · exact absurd (by simp [pointerEntries]) kept
        · exact absurd (by rw [old e' latest]) different
    · exact .inl

theorem Represents.unpoint (reads : Represents db c) (keyable : Keyable e) (plain : p.Plain)
    (latest : c.latest p = some e) :
    Represents (db.commit [.delete (latestEvent p (tsDesc e)).bytes,
      .delete (Key.latestTs p).bytes]) (c.point p none) := by
  have gone := Reads.commit_deletes reads [.latestEvent p (tsDesc e), .latestTs p] (by
    intro k mem
    simp only [mem_cons, not_mem_nil, or_false] at mem
    rcases mem with rfl | rfl
    · exact ⟨plain, keyable.tsDesc_plain⟩
    · exact plain)
  refine gone.point none ?_ ?_
  · intro k v other
    have outside : k ∉ [latestEvent p (tsDesc e), .latestTs p] := by
      simp only [mem_cons, not_mem_nil, or_false]
      rintro (rfl | rfl) <;> exact other rfl
    simp [outside]
  · intro k v own
    simp only [reduceCtorEq, false_and, exists_false, iff_false]
    rintro ⟨kept, row⟩
    obtain ⟨e', named, entry⟩ := (holds_of_pair own).mp row
    rw [latest, Option.some.injEq] at named
    subst named
    simp only [pointerEntries, mem_cons, Prod.mk.injEq, not_mem_nil, or_false] at entry
    rcases entry with ⟨rfl, _⟩ | ⟨rfl, _⟩ <;> exact kept (by simp)

end
end Panmail.Events
