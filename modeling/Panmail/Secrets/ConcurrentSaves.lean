import Panmail.Secrets.DataKey

/-!
# Saves while the data key changes

A save of a credential seals its values with the keyring of the moment and writes its row later. A
save that sealed before the switch may be written after its store was read: nobody rewrites it, and
at the end of the change its key is dropped. And a save may be written between the reading of its
row and the rewriting: the row then gets the value it had before the save.
-/
namespace Panmail.Secrets

open ByteStrings Text Tables Runs List Keyring

section
variable {C : Cipher}

/-! ### Saves -/

/-- The keyring reads in the values of a save what was saved. -/
def Save.Faithful (ring : Keyring C) (save : Save) : Prop :=
  List.Forall₂ (fun text v => ring.decrypt v = some text) save.texts save.values

/-- No value of the save is on another key than the primary. -/
def Save.Current (ring : Keyring C) (save : Save) : Prop := RowCurrent ring ⟨save.key, save.values⟩

instance (ring : Keyring C) (save : Save) : Decidable (save.Current ring) :=
  inferInstanceAs (Decidable (RowCurrent _ _))

theorem Keyring.sealAll_spec (ring : Keyring C) (nonces : Nat → Bytes) (texts : List String) :
    List.Forall₂ (fun text v => ring.decrypt v = some text) texts (ring.sealAll nonces texts) ∧
      ∀ v ∈ ring.sealAll nonces texts, ring.needsRotation v = false := by
  induction texts with
  | nil => exact ⟨.nil, fun v mem => nomatch mem⟩
  | cons text _ ih =>
    refine ⟨.cons (decrypt_encrypt ring _ text) ih.1, ?_⟩
    intro v mem
    rcases mem_cons.mp mem with rfl | later
    · exact needsRotation_encrypt ring _ text
    · exact ih.2 v later

theorem Save.Faithful.imp {ring ring' : Keyring C} {save : Save} (faithful : save.Faithful ring)
    (reads : ∀ v ∈ save.values, ∀ text, ring.decrypt v = some text → ring'.decrypt v = some text) :
    save.Faithful ring' := by
  have pointwise := List.forall₂_iff_get.mp faithful
  refine List.forall₂_iff_get.mpr ⟨pointwise.1, fun n bound bound' => ?_⟩
  exact reads _ (get_mem save.values ⟨n, bound'⟩) _ (pointwise.2 n bound bound')

/-- The store of a save has been read by the change under way. -/
def World.Listed (s : World C) (store : Nat) : Prop :=
  match s.change with
  | .listing _ i => store < i
  | .rewriting _ i _ => store ≤ i
  | .cleared _ => True
  | .idle | .begun _ | .saved _ => False

/-! ### The two races -/

/-- The store that a change is about to read. -/
def Change.reading : Change → Option Nat
  | .listing _ i => some i
  | _ => none

/-- The store that a change is rewriting, and the rows it has not come to. -/
def Change.toRewrite : Change → Option (Nat × List Row)
  | .rewriting _ i rows => some (i, rows)
  | _ => none

/-- A store is read when no save for it is under way with a seal of an old key, and a row that is
still to be rewritten is not saved meanwhile. -/
def World.Apart (s : World C) : Label → Prop
  | .list _ => ∀ i ∈ s.change.reading, ∀ ring ∈ s.keyring,
      ∀ save ∈ s.saves, save.store = i → save.Current ring
  | .write n _ => ∀ place ∈ s.change.toRewrite, ∀ ring ∈ s.keyring, ∀ save ∈ s.saves[n]?,
      save.store = place.1 → ∀ r ∈ place.2, r.key = save.key → RowCurrent ring r
  | _ => True

instance (s : World C) : ∀ l, Decidable (s.Apart l)
  | .list _ | .write .. => by
    dsimp only [World.Apart]
    infer_instance
  | .begin_ _ | .saveNew _ | .replace | .row .. | .next | .saveFinal _ | .finish | .seal_ .. | .crash =>
    isTrue trivial

def World.lastSave (s : World C) (store : Nat) (key : String × String) : Option Save :=
  s.completed.find? fun save => save.store = store ∧ save.key = key

/-- The row of a save has its values, and no others. -/
structure World.Holds (s : World C) (save : Save) : Prop where
  reads : ∀ n text, save.texts[n]? = some text →
    s.reads s.keyring ⟨save.store, save.key, n⟩ = some text
  present : ∀ n, (s.credential ⟨save.store, save.key, n⟩).isSome = (save.texts[n]?).isSome

/-! ### What a step of a change does to the saves -/

variable {env : List String} {start s t : World C} {cfg : Config} {ring ring' : Keyring C}
  {l : Label} {j : Nat}

/-- A change completes no save and gives none up, and the keyring moves in two of its steps. -/
theorem frame_step (quiet : l.saves = false) (taken : s.step env l = some t) :
    t.completed = s.completed ∧ t.stores.length = s.stores.length ∧ (t.saves = [] ∨
        t.saves = s.saves ∧ (t.keyring = s.keyring ∨ l = .replace ∨ l = .finish)) := by
  cases l with
  | seal_ | write => cases quiet
  | crash =>
    cases taken
    exact ⟨rfl, rfl, .inl rfl⟩
  | replace | finish =>
    simp only [World.step] at taken
    split at taken
    · split at taken <;> cases taken <;> simp
    · cases taken
  | begin_ | saveNew | list | row | next | saveFinal =>
    simp only [World.step] at taken
    repeat' split at taken
    all_goals
      cases taken
      try simp

/-- A store counts as read from its listing on, until the change ends. -/
theorem listed_step (quiet : l.saves = false) (taken : s.step env l = some t)
    (range : j < s.stores.length) (listed : t.Listed j) :
    t.keyring = s.keyring ∧ (s.Listed j ∨ (∃ ok, l = .list ok) ∧ ∃ cfg, s.change = .listing cfg j) := by
  cases l with
  | seal_ | write => cases quiet
  | crash =>
    cases taken
    exact listed.elim
  | replace | finish | begin_ | saveNew | list | row | next | saveFinal =>
    simp only [World.step] at taken
    repeat' split at taken
    all_goals
      cases taken
      try simp_all [World.Listed]
      try omega

/-- The saves under way: the running keyring reads them, and where their store has been read they
are on its primary key. -/
structure World.UnderWay (s : World C) (ring : Keyring C) : Prop where
  range : ∀ save ∈ s.saves, save.store < s.stores.length
  faithful : ∀ save ∈ s.saves, save.Faithful ring
  told : ∀ save ∈ s.saves, ∀ v ∈ save.values, v.Told C
  listed : ∀ save ∈ s.saves, s.Listed save.store → save.Current ring

theorem cleared_of_finish (taken : s.step env .finish = some t) (j : Nat) : s.Listed j := by
  simp only [World.step] at taken
  split at taken
  next cleared => simp [World.Listed, cleared]
  · cases taken

theorem World.UnderWay.step {cfg' : Config} (under : s.UnderWay ring)
    (sound : s.Sound env cfg ring) (after : t.Sound env cfg' ring') (apart : s.Apart l)
    (quiet : l.saves = false) (taken : s.step env l = some t) : t.UnderWay ring' := by
  obtain ⟨_, length, gone | ⟨saves, moved⟩⟩ := frame_step quiet taken
  · constructor <;> simp [gone]
  · refine ⟨by rw [saves, length]; exact under.range, ?_, saves ▸ under.told, ?_⟩
    · intro save mem
      rw [saves] at mem
      rcases moved with same | rfl | rfl
      · rw [sound.keyring, after.keyring] at same
        cases same
        exact under.faithful save mem
      · obtain ⟨ring'', after', _, kept, distinct⟩ := replace_step sound taken
        cases after'.keyring.symm.trans after.keyring
        exact (under.faithful save mem).imp fun v stored text opened =>
          decrypt_mono (under.told save mem v stored) kept distinct opened
      · -- every store has been read, so the saves are on the key that is kept
        obtain ⟨ring'', after', _, primary, _⟩ := finish_step sound taken
        cases after'.keyring.symm.trans after.keyring
        have current := under.listed save mem (cleared_of_finish taken save.store)
        exact (under.faithful save mem).imp fun v stored text opened =>
          decrypt_current primary (current v stored) opened
    · intro save mem listed
      rw [saves] at mem
      obtain ⟨same, before | ⟨⟨ok, rfl⟩, cfg', here⟩⟩ :=
        listed_step quiet taken (under.range save mem) listed
      · rw [sound.keyring, after.keyring] at same
        cases same
        exact under.listed save mem before
      · rw [sound.keyring, after.keyring] at same
        cases same
        -- the store is being listed, and no save on an old key is under way to it
        exact apart save.store (by rw [here]; rfl) ring sound.keyring save mem rfl

/-! ### What a save does -/

variable {store n : Nat} {key : String × String} {texts : List String} {nonces : Nat → Bytes}
  {ok : Bool} {st : Store} {labels : List Label}

theorem seal_step (sound : s.Sound env cfg ring)
    (taken : s.step env (.seal_ store key texts nonces) = some t) : store < s.stores.length ∧
      t = { s with saves := s.saves ++ [⟨store, key, texts, ring.sealAll nonces texts⟩] } := by
  simp only [World.step] at taken
  split at taken
  next ring' st running here =>
    cases sound.keyring.symm.trans running
    cases taken
    exact ⟨(List.getElem?_eq_some_iff.mp here).choose, rfl⟩
  · cases taken

theorem write_step (taken : s.step env (.write n ok) = some t) :
    ∃ save, s.saves[n]? = some save ∧ (t = { s with saves := s.saves.eraseIdx n } ∨
        t = { s with
          saves := s.saves.eraseIdx n
          stores := s.stores.modify save.store fun st => st.save save.key save.values
          completed := save :: s.completed }) := by
  simp only [World.step] at taken
  split at taken
  · cases taken
  next save here =>
    refine ⟨save, here, ?_⟩
    cases ok with
    | true =>
      cases taken
      exact .inr rfl
    | false =>
      cases taken
      exact .inl rfl

theorem StoreCurrent.save {save : Save} (current : StoreCurrent ring st) (new : save.Current ring) :
    StoreCurrent ring (st.save save.key save.values) := by
  intro key row found
  rw [Store.lookup_save] at found
  split at found
  · cases found
    exact new
  · exact current key row found

theorem Pending.save {rows : List Row} {save : Save} (pending : Pending ring st rows)
    (new : save.Current ring) (apart : ∀ r ∈ rows, r.key = save.key → RowCurrent ring r) :
    Pending ring (st.save save.key save.values) rows where
  covered key row found := by
    rw [Store.lookup_save] at found
    split at found
    · cases found
      exact .inl new
    · exact pending.covered key row found
  present r mem stale := by
    rw [Store.lookup_save, if_neg fun same => stale (apart r mem same)]
    exact pending.present r mem stale
  apart := pending.apart

theorem getElem?_modify_cases {α : Type} {xs : List α} {i : Nat} {f : α → α} {y : α}
    (entry : (xs.modify i f)[j]? = some y) :
    (j = i ∧ ∃ x, xs[i]? = some x ∧ y = f x) ∨ xs[j]? = some y := by
  rw [getElem?_modify] at entry
  by_cases here : i = j
  · subst here
    obtain ⟨x, old, rfl⟩ := Option.map_eq_some_iff.mp entry
    exact .inl ⟨rfl, x, old, by simp⟩
  · exact .inr (by simpa [here] using entry)

theorem World.Holds.keeps {save : Save} (holds : s.Holds save) (keeps : s.Keeps t) :
    t.Holds save where
  reads n text value := keeps.reads _ text (holds.reads n text value)
  present n := (keeps.present _).trans (holds.present n)

section
variable {n : Nat} {save : Save} (here : s.saves[n]? = some save) (under : s.UnderWay ring)
  (stores : t.stores = s.stores.modify save.store fun st => st.save save.key save.values)
include here under stores

theorem credential_write (c : Cell) : t.credential c =
    if c.store = save.store ∧ c.key = save.key then save.values[c.field]? else s.credential c := by
  obtain ⟨st, entry⟩ : ∃ st, s.stores[save.store]? = some st :=
    ⟨_, getElem?_eq_getElem (under.range save (mem_of_getElem? here))⟩
  simp only [World.credential, stores, getElem?_modify]
  by_cases place : save.store = c.store
  · rw [← place, entry]
    by_cases named : c.key = save.key
    · simp [Store.lookup_save, named]
    · simp [Store.lookup_save, named]
  · have other : ¬ c.store = save.store := fun same => place same.symm
    simp [place, other]

theorem holds_write (keyring : t.keyring = some ring) : t.Holds save := by
  have cells := credential_write here under stores
  have pointwise := List.forall₂_iff_get.mp (under.faithful save (mem_of_getElem? here))
  constructor
  · intro m text value
    obtain ⟨bound, rfl⟩ := List.getElem?_eq_some_iff.mp value
    have bound' : m < save.values.length := pointwise.1 ▸ bound
    rw [keyring]
    refine World.reads_some.mpr ⟨save.values[m], ?_, pointwise.2 m bound bound'⟩
    rw [cells, if_pos ⟨rfl, rfl⟩, getElem?_eq_getElem bound']
  · intro m
    rw [cells, if_pos ⟨rfl, rfl⟩, Bool.eq_iff_iff, isSome_getElem?, isSome_getElem?, pointwise.1]

end

/-- A save that is written leaves the change where it is. -/
theorem World.Sound.write {save : Save} (sound : s.Sound env cfg ring) (under : s.UnderWay ring)
    (apart : s.Apart (.write n ok)) (here : s.saves[n]? = some save)
    (config : t.config = s.config) (keyring : t.keyring = s.keyring)
    (change : t.change = s.change)
    (stores : t.stores = s.stores.modify save.store fun st => st.save save.key save.values) :
    t.Sound env cfg ring := by
  refine ⟨config.trans sound.config, sound.valid, keyring.trans sound.keyring, ?_, ?_⟩
  · intro c v stored
    rw [credential_write here under stores] at stored
    split at stored
    · exact under.told save (mem_of_getElem? here) v (mem_of_getElem? stored)
    · exact sound.told c v stored
  have place := sound.place
  have current := under.listed save (mem_of_getElem? here)
  -- a store that is on the primary key stays so
  have kept (j : Nat) (listed : save.store = j → s.Listed j)
      (all : ∀ st, s.stores[j]? = some st → StoreCurrent ring st) (st : Store)
      (at_ : t.stores[j]? = some st) : StoreCurrent ring st := by
    rw [stores] at at_
    rcases getElem?_modify_cases at_ with ⟨rfl, old, entry, rfl⟩ | same
    · exact (all old entry).save (current (listed rfl))
    · exact all st same
  rw [World.Place, change]
  rw [World.Place] at place
  cases at_ : s.change with
  | idle | begun | saved =>
    rw [at_] at place
    exact place
  | listing =>
    rw [at_] at place
    obtain ⟨same, built, done⟩ := place
    refine ⟨same, built, fun j less => kept j (fun _ => ?_) (done j less)⟩
    rw [World.Listed, at_]
    exact less
  | rewriting _ i =>
    rw [at_] at place
    obtain ⟨same, built, done, st, entry, pending⟩ := place
    refine ⟨same, built, fun j less => kept j (fun _ => ?_) (done j less), ?_⟩
    · rw [World.Listed, at_]
      exact Nat.le_of_lt less
    · by_cases inside : save.store = i
      · subst inside
        refine ⟨st.save save.key save.values, by simp [stores, entry], pending.save (current ?_) ?_⟩
        · rw [World.Listed, at_]
        · exact apart _ (by rw [at_]; rfl) ring sound.keyring save here rfl
      · exact ⟨st, by simp [stores, inside, entry], pending⟩
  | cleared =>
    rw [at_] at place
    obtain ⟨same, primary, done⟩ := place
    refine ⟨same, primary, fun j => kept j (fun _ => ?_) (done j)⟩
    rw [World.Listed, at_]
    trivial

/-- Everything a run keeps: the place of the change, the saves under way, and what is stored. -/
structure World.Tracked (env : List String) (start s : World C) (cfg : Config) (ring : Keyring C) :
    Prop where
  sound : s.Sound env cfg ring
  under : s.UnderWay ring
  saved : ∀ store key save, s.lastSave store key = some save → s.Holds save
  untouched : ∀ c, s.lastSave c.store c.key = none → ∀ text,
    start.reads start.keyring c = some text → s.reads s.keyring c = some text

theorem lastSave_named {save : Save}
    (last : s.lastSave store key = some save) : save.store = store ∧ save.key = key := by
  simpa using find?_some last

theorem World.Holds.congr {save : Save} (holds : s.Holds save) (keyring : t.keyring = s.keyring)
    (same : ∀ n, t.credential ⟨save.store, save.key, n⟩ = s.credential ⟨save.store, save.key, n⟩) :
    t.Holds save where
  reads n text value := by
    rw [World.reads, keyring, same]
    exact holds.reads n text value
  present n := by rw [same, holds.present n]

section
variable (tracked : World.Tracked env start s cfg ring)
include tracked

theorem World.Tracked.quiet (careful : s.Careful env l) (apart : s.Apart l)
    (quiet : l.saves = false) (taken : s.step env l = some t) :
    ∃ cfg' ring', World.Tracked env start t cfg' ring' := by
  obtain ⟨⟨cfg', ring', after⟩, keeps⟩ := tracked.sound.step careful quiet taken
  obtain ⟨completed, _, _⟩ := frame_step quiet taken
  have last (store : Nat) (key : String × String) : t.lastSave store key = s.lastSave store key := by
    rw [World.lastSave, completed, World.lastSave]
  refine ⟨cfg', ring', after, tracked.under.step tracked.sound after apart quiet taken, ?_, ?_⟩
  · intro store key save found
    rw [last] at found
    exact (tracked.saved store key save found).keeps keeps
  · intro c none_ text read
    rw [last] at none_
    exact keeps.reads c text (tracked.untouched c none_ text read)

theorem World.Tracked.seal_ (taken : s.step env (.seal_ store key texts nonces) = some t) :
    World.Tracked env start t cfg ring := by
  obtain ⟨range, rfl⟩ := seal_step tracked.sound taken
  obtain ⟨faithful, current⟩ := ring.sealAll_spec nonces texts
  refine ⟨{ tracked.sound with }, ⟨?_, ?_, ?_, ?_⟩, ?_, ?_⟩
  · exact forall_mem_concat tracked.under.range range
  · exact forall_mem_concat tracked.under.faithful faithful
  · exact forall_mem_concat tracked.under.told fun v mem => told_of_current (current v mem)
  · exact forall_mem_concat tracked.under.listed fun _ => current
  · intro store' key' save found
    exact (tracked.saved store' key' save found).congr rfl fun _ => rfl
  · exact tracked.untouched

theorem World.Tracked.write (apart : s.Apart (.write n ok))
    (taken : s.step env (.write n ok) = some t) : World.Tracked env start t cfg ring := by
  obtain ⟨save, here, rfl | rfl⟩ := write_step taken
  · -- the save failed
    refine ⟨{ tracked.sound with }, ⟨?_, ?_, ?_, ?_⟩, ?_, ?_⟩
    · exact fun save mem => tracked.under.range save (mem_of_mem_eraseIdx mem)
    · exact fun save mem => tracked.under.faithful save (mem_of_mem_eraseIdx mem)
    · exact fun save mem => tracked.under.told save (mem_of_mem_eraseIdx mem)
    · exact fun save mem => tracked.under.listed save (mem_of_mem_eraseIdx mem)
    · intro store key last found
      exact (tracked.saved store key last found).congr rfl fun _ => rfl
    · exact tracked.untouched
  · have sound := tracked.sound
    have cells := credential_write here tracked.under (t := { s with
      saves := s.saves.eraseIdx n
      stores := s.stores.modify save.store fun st => st.save save.key save.values
      completed := save :: s.completed }) rfl
    refine ⟨sound.write tracked.under apart here rfl rfl rfl rfl, ⟨?_, ?_, ?_, ?_⟩, ?_, ?_⟩
    · intro other mem
      rw [length_modify]
      exact tracked.under.range other (mem_of_mem_eraseIdx mem)
    · exact fun other mem => tracked.under.faithful other (mem_of_mem_eraseIdx mem)
    · exact fun other mem => tracked.under.told other (mem_of_mem_eraseIdx mem)
    · exact fun other mem => tracked.under.listed other (mem_of_mem_eraseIdx mem)
    · intro store key last found
      rw [World.lastSave, find?_cons] at found
      split at found
      · cases found
        exact holds_write here tracked.under rfl sound.keyring
      next other =>
        -- the row is another one than the save's
        obtain ⟨rfl, rfl⟩ := lastSave_named found
        refine (tracked.saved _ _ last found).congr rfl fun m => ?_
        rw [cells, if_neg]
        rintro ⟨store, key⟩
        exact of_decide_eq_false other ⟨store.symm, key.symm⟩
    · intro c none_ text read
      rw [World.lastSave, find?_cons] at none_
      split at none_
      · cases none_
      next other =>
        rw [World.reads, cells, if_neg]
        · exact tracked.untouched c none_ text read
        · rintro ⟨store, key⟩
          exact of_decide_eq_false other ⟨store.symm, key.symm⟩

end

/-! ### Whole runs -/

def World.Orderly (env : List String) (s : World C) (l : Label) : Prop := s.Careful env l ∧ s.Apart l

instance (s : World C) (l : Label) : Decidable (s.Orderly env l) :=
  inferInstanceAs (Decidable (_ ∧ _))

theorem World.Tracked.step (tracked : World.Tracked env start s cfg ring)
    (orderly : s.Orderly env l) (taken : s.step env l = some t) :
    ∃ cfg' ring', World.Tracked env start t cfg' ring' := by
  cases l with
  | seal_ => exact ⟨cfg, ring, tracked.seal_ taken⟩
  | write => exact ⟨cfg, ring, tracked.write orderly.2 taken⟩
  | begin_ | saveNew | replace | list | row | next | saveFinal | finish | crash =>
    exact tracked.quiet orderly.1 orderly.2 rfl taken

theorem tracked_run (running : start.Running env ring) (told : start.Told) (saves : start.saves = [])
    (completed : start.completed = []) (apart : ∀ cfg ∈ start.config, Distinct (keysOf C env cfg))
    (orderly : AllSteps (World.step env) (World.Orderly env) start labels)
    (run : exec (World.step env) start labels = some t) :
    ∃ cfg' ring', World.Tracked env start t cfg' ring' := by
  refine invariant_along (World.step env) (World.Orderly env)
    (fun s => ∃ cfg' ring', World.Tracked env start s cfg' ring') ?_ start t labels ?_ orderly run
  · rintro s l u holds ⟨cfg', ring', tracked⟩ taken
    exact tracked.step holds taken
  · obtain ⟨cfg', sound⟩ := running.sound told apart
    refine ⟨cfg', ring, sound, ?_, ?_, fun _ _ _ read => read⟩
    · constructor <;> simp [saves]
    · intro store key save found
      simp [World.lastSave, completed] at found

/-- Nothing that is stored or about to be is on another key than the primary. -/
structure World.OnPrimary (s : World C) (ring : Keyring C) : Prop where
  keyring : s.keyring = some ring
  stored : ∀ (j : Nat) st, s.stores[j]? = some st → StoreCurrent ring st
  saves : ∀ save ∈ s.saves, save.Current ring

theorem RowCurrent.congr {row : Row} (primary : ring'.primary = ring.primary)
    (current : RowCurrent ring row) : RowCurrent ring' row :=
  fun v mem => (needsRotation_congr primary v).trans (current v mem)

theorem onPrimary_finish (tracked : World.Tracked env start s cfg ring)
    (taken : s.step env .finish = some t) : ∃ ring', t.OnPrimary ring' := by
  obtain ⟨ring', after, stores, primary, current⟩ := finish_step tracked.sound taken
  obtain ⟨_, _, gone | ⟨saves, _⟩⟩ := frame_step rfl taken
  · refine ⟨ring', after.keyring, ?_, by simp [gone]⟩
    exact fun j st at_ key row found => (current j st (stores ▸ at_) key row found).congr primary
  · refine ⟨ring', after.keyring, ?_, ?_⟩
    · exact fun j st at_ key row found => (current j st (stores ▸ at_) key row found).congr primary
    · intro save mem
      have listed := cleared_of_finish taken save.store
      exact (tracked.under.listed save (saves ▸ mem) listed).congr primary

theorem World.OnPrimary.step (primary : s.OnPrimary ring) (saving : l.saves = true)
    (taken : s.step env l = some t) : t.OnPrimary ring := by
  cases l with
  | seal_ _ _ texts nonces =>
    simp only [World.step] at taken
    split at taken
    next ring' st running _ =>
      cases primary.keyring.symm.trans running
      cases taken
      exact ⟨primary.keyring, primary.stored,
        forall_mem_concat primary.saves (ring.sealAll_spec nonces texts).2⟩
    · cases taken
  | write =>
    obtain ⟨save, here, rfl | rfl⟩ := write_step taken
    · exact ⟨primary.keyring, primary.stored,
        fun save mem => primary.saves save (mem_of_mem_eraseIdx mem)⟩
    · refine ⟨primary.keyring, ?_, fun save mem =>
        primary.saves save (mem_of_mem_eraseIdx mem)⟩
      intro j st at_
      rcases getElem?_modify_cases at_ with ⟨rfl, old, entry, rfl⟩ | same
      · exact (primary.stored _ old entry).save (primary.saves save (mem_of_getElem? here))
      · exact primary.stored j st same
  | begin_ | saveNew | replace | list | row | next | saveFinal | finish | crash => cases saving

theorem World.OnPrimary.run (primary : s.OnPrimary ring) (saving : ∀ l ∈ labels, l.saves = true)
    (run : exec (World.step env) s labels = some t) : t.OnPrimary ring := by
  induction labels generalizing s with
  | nil =>
    cases run
    exact primary
  | cons l rest ih =>
    obtain ⟨u, first, later⟩ := (exec_cons _ s t l rest).mp run
    exact ih (primary.step (saving l mem_cons_self) first)
      (fun l' mem => saving l' (mem_cons_of_mem _ mem)) later

/-- From the success of a change until the next one, every row holds what the last completed save of
it saved, or what it held at the start, and every value is on the key in force. No store may be read
while a save for it is under way with a seal of the old key, and no row saved between the reading of
its store and its rewriting. -/
theorem completed_saves_read (running : start.Running env ring) (told : start.Told) (saves : start.saves = [])
    (completed : start.completed = []) (apart : ∀ cfg ∈ start.config, Distinct (keysOf C env cfg))
    {before after : List Label}
    (orderly : AllSteps (World.step env) (World.Orderly env) start (before ++ .finish :: after))
    (saving : ∀ l ∈ after, l.saves = true)
    (run : exec (World.step env) start (before ++ .finish :: after) = some t) :
    (∀ store key save, t.lastSave store key = some save → t.Holds save) ∧
      (∀ c, t.lastSave c.store c.key = none → ∀ text,
        start.reads start.keyring c = some text → t.reads t.keyring c = some text) ∧
      ∀ ring' ∈ t.keyring, ∀ (j : Nat) st, t.stores[j]? = some st → StoreCurrent ring' st := by
  obtain ⟨_, _, tracked⟩ := tracked_run running told saves completed apart orderly run
  refine ⟨tracked.saved, tracked.untouched, ?_⟩
  obtain ⟨s, first, rest⟩ := (exec_append _ start t before _).mp run
  obtain ⟨u, finished, later⟩ := (exec_cons _ s t .finish after).mp rest
  have orderly₁ := (allSteps_append _ _ start s before _ first orderly).1
  obtain ⟨_, _, tracked₁⟩ := tracked_run running told saves completed apart orderly₁ first
  obtain ⟨ring', primary⟩ := onPrimary_finish tracked₁ finished
  have kept := primary.run saving later
  intro ring'' running'' j st at_
  cases kept.keyring.symm.trans running''
  exact kept.stored j st at_

end

namespace Sample

def savedAround : List Label :=
  [.seal_ 0 ("t1", "") ["first"] noNonces, .write 0 true, .begin_ keyB, .saveNew .ok, .replace,
    .list true, .row true noNonces, .seal_ 0 ("t1", "") ["second"] noNonces, .write 0 true, .next,
    .saveFinal .ok]

/-- The save seals before the switch and writes after its store is read. -/
def staleSeal : List Label :=
  [.seal_ 0 ("t1", "") ["second"] noNonces, .begin_ keyB, .saveNew .ok, .replace, .list true,
    .row true noNonces, .write 0 true, .next, .saveFinal .ok, .finish]

/-- The save is made between the reading of its row and the rewriting. -/
def overwritten : List Label :=
  [.begin_ keyB, .saveNew .ok, .replace, .list true, .seal_ 0 ("t1", "") ["second"] noNonces,
    .write 0 true, .row true noNonces, .next, .saveFinal .ok, .finish]

end Sample

open Sample in
theorem completed_saves_read_around : (exec (World.step []) start
      (savedAround ++ .finish :: [.seal_ 0 ("t1", "") ["third"] noNonces, .write 0 true])).isSome ∧
    ∀ t, exec (World.step []) start
        (savedAround ++ .finish :: [.seal_ 0 ("t1", "") ["third"] noNonces, .write 0 true]) = some t →
      t.Holds ⟨0, ("t1", ""), ["third"], [.sealed "630dcd29" (1 :: encode "third".toList)]⟩ := by
  refine ⟨by decide +kernel, fun t run => ?_⟩
  have last : (exec (World.step []) start
      (savedAround ++ .finish :: [.seal_ 0 ("t1", "") ["third"] noNonces, .write 0 true])).map
      (fun t => t.lastSave 0 ("t1", "")) =
      some (some ⟨0, ("t1", ""), ["third"], [.sealed "630dcd29" (1 :: encode "third".toList)]⟩) := by
    decide +kernel
  rw [run] at last
  exact (completed_saves_read ⟨rfl, rfl, by decide⟩ told_start rfl rfl (by decide)
    (by decide +kernel) (by decide) run).1 0 ("t1", "") _ (Option.some.inj last)

open Sample in
/-- Both changes succeed. After the first the credential that was saved last cannot be read, after
the second it is the one from before the save. -/
theorem saves_lost : (exec (World.step []) start staleSeal).map (fun t =>
        (t.change, (t.lastSave 0 ("t1", "")).map Save.texts, t.reads t.keyring cell)) =
        some (.idle, some ["second"], none) ∧ (exec (World.step []) start overwritten).map (fun t =>
        (t.change, (t.lastSave 0 ("t1", "")).map Save.texts, t.reads t.keyring cell)) =
        some (.idle, some ["second"], some "hunter2") := by decide +kernel

end Panmail.Secrets
