import Panmail.Lib.Run
import Panmail.Lib.Table
import Panmail.Secrets.Keyring

/-!
# Changing the data key

`Change` saves the config with the new key and the old ones as retired, hands all of them to the
running keyring, rewrites every store row by row, and at last drops the retired keys from config and
keyring. Each of these is a step, any of them may be the last one before a crash, and a write may
fail.

The invariant says, for each place a change can be at, which keys the config and the running keyring
have and how far the stores are rewritten.
-/
namespace Panmail.Secrets

open ByteStrings Text Tables Runs List Option Table

/-! ### The stores -/

/-- A row with its sealed values, of which a provider has two and the other stores one. -/
structure Row where
  key : String × String
  values : List Stored
  deriving DecidableEq

abbrev Store := Table fun r : Row => r.key

def Store.rewrite (st : Store) (key : String × String) (values : List Stored) : Store :=
  st.updateWhere (fun r => r.key = key) (fun r => { r with values }) fun _ => rfl

def Store.save (st : Store) (key : String × String) (values : List Stored) : Store :=
  (st.insert? ⟨key, values⟩).getD (st.rewrite key values)

open Store

theorem Store.lookup_rewrite (st : Store) (key k : String × String) (values : List Stored) :
    (st.rewrite key values).lookup k =
      if k = key then (st.lookup k).map fun r => { r with values } else st.lookup k := by
  rw [rewrite, lookup_updateWhere]
  cases found : st.lookup k with
  | none => simp
  | some r =>
    have named : r.key = k := key_of_lookup found
    by_cases same : k = key
    · simp [named, same]
    · simp [named, same]

theorem Store.lookup_save (st : Store) (key k : String × String) (values : List Stored) :
    (st.save key values).lookup k = if k = key then some ⟨key, values⟩ else st.lookup k := by
  unfold save
  cases inserted : st.insert? ⟨key, values⟩ with
  | some =>
    rw [getD_some, lookup_insert? inserted]
    simp only [eq_comm]
  | none =>
    rw [getD_none, lookup_rewrite]
    split
    next same =>
      subst same
      -- the insertion was refused, so there is a row
      have taken : ∃ r ∈ st.rows, r.key = k := by
        unfold insert? at inserted
        split at inserted
        · cases inserted
        next present => simpa using present
      obtain ⟨r, mem, named⟩ := taken
      have found : st.lookup k = some r := lookup_iff.mpr ⟨mem, named⟩
      rw [found, map_some]
      cases r
      cases named
      rfl
    · rfl

/-- One sealed value: the store it is in, its row and its column. -/
structure Cell where
  store : Nat
  key : String × String
  field : Nat

/-! ### Rewriting a row -/

section
variable {C : Cipher}

def Keyring.resealAll (r : Keyring C) (nonces : Nat → Bytes) : List Stored → Option (List Stored)
  | [] => some []
  | v :: rest =>
    match r.decrypt v with
    | none => none
    | some text => (r.resealAll nonces rest).map (r.encrypt (nonces rest.length) text :: ·)

/-- No value of the row is on another key than the primary. -/
def RowCurrent (r : Keyring C) (row : Row) : Prop := ∀ v ∈ row.values, r.needsRotation v = false

instance (r : Keyring C) (row : Row) : Decidable (RowCurrent r row) :=
  inferInstanceAs (Decidable (∀ v ∈ row.values, _))

def StoreCurrent (r : Keyring C) (st : Store) : Prop :=
  ∀ key row, st.lookup key = some row → RowCurrent r row

section
variable {r : Keyring C} {nonces : Nat → Bytes} {values values' : List Stored}
  (resealed : r.resealAll nonces values = some values')
include resealed

theorem Keyring.resealAll_some :
    List.Forall₂ (fun v v' => r.decrypt v' = r.decrypt v ∧ r.needsRotation v' = false)
      values values' := by
  induction values generalizing values' with
  | nil =>
    cases resealed
    exact .nil
  | cons _ _ ih =>
    rw [Keyring.resealAll] at resealed
    split at resealed
    · cases resealed
    next text read =>
      obtain ⟨rest', later, rfl⟩ := map_eq_some_iff.mp resealed
      exact .cons ⟨by rw [Keyring.decrypt_encrypt, read], Keyring.needsRotation_encrypt r _ _⟩
        (ih later)

theorem rowCurrent_resealed (key : String × String) : RowCurrent r ⟨key, values'⟩ := by
  intro v mem
  obtain ⟨n, bound, at_⟩ := mem_iff_getElem.mp mem
  have pointwise := List.forall₂_iff_get.mp (Keyring.resealAll_some resealed)
  have current := (pointwise.2 n (pointwise.1 ▸ bound) bound).2
  rw [get_eq_getElem, at_] at current
  exact current

theorem resealed_reads (n : Nat) : (values'[n]?).bind r.decrypt = (values[n]?).bind r.decrypt := by
  have pointwise := List.forall₂_iff_get.mp (Keyring.resealAll_some resealed)
  by_cases bound : n < values.length
  · have bound' : n < values'.length := pointwise.1 ▸ bound
    rw [getElem?_eq_getElem bound, getElem?_eq_getElem bound']
    exact (pointwise.2 n bound bound').1
  · have bound' : ¬ n < values'.length := pointwise.1 ▸ bound
    rw [getElem?_eq_none (Nat.le_of_not_lt bound),
      getElem?_eq_none (Nat.le_of_not_lt bound')]

end

end

/-! ### A change, step by step -/

/-- The `secrets` section of the config file. -/
structure Config where
  dataKey : String
  retired : List String
  deriving DecidableEq

/-- Where a change is. It holds the config it has saved or is about to save. -/
inductive Change where
  | idle
  | begun (cfg : Config)
  | saved (cfg : Config)
  | listing (cfg : Config) (i : Nat)
  /-- The rows read from a store and not looked at yet. -/
  | rewriting (cfg : Config) (i : Nat) (rows : List Row)
  | cleared (cfg : Config)
  deriving DecidableEq

/-- A save of a credential whose values are sealed. -/
structure Save where
  store : Nat
  key : String × String
  texts : List String
  values : List Stored
  deriving DecidableEq

structure World (C : Cipher) where
  /-- The config file, unless a write of it was cut off. -/
  config : Option Config
  /-- The running keyring, unless the instance cannot start. -/
  keyring : Option (Keyring C)
  stores : List Store
  change : Change
  /-- The saves that have sealed their values and not written them. -/
  saves : List Save
  /-- History: the saves that were written, the latest first. -/
  completed : List Save

/-- How a write of the config file ends. The file is truncated before it is written, so a write
that fails may have left nothing of it. -/
inductive Written where
  | ok | failed | torn
  deriving DecidableEq

inductive Label where
  /-- `Change` up to its first write, with a key that was given or generated. -/
  | begin_ (newKey : String)
  | saveNew (w : Written)
  | replace
  | list (ok : Bool)
  /-- The next row of the list, with the nonces it is sealed with. -/
  | row (ok : Bool) (nonces : Nat → Bytes)
  | next
  | saveFinal (w : Written)
  | finish
  | crash
  | seal_ (store : Nat) (key : String × String) (texts : List String) (nonces : Nat → Bytes)
  | write (i : Nat) (ok : Bool)

def Label.saves : Label → Bool
  | .seal_ _ _ _ _ | .write _ _ => true
  | _ => false

section
variable (C : Cipher) (env : List String)

/-- The keyring of a config, with the retired keys of the environment. -/
def ringOf (cfg : Config) : Option (Keyring C) :=
  newKeyring C cfg.dataKey (env ++ cfg.retired)

/-- The keyring an instance starts with. -/
def World.rebuilt {C : Cipher} (s : World C) : Option (Keyring C) :=
  s.config.bind fun cfg => if cfg.dataKey = "" then none else ringOf C env cfg

/-- The values of a save, sealed with the keyring of the moment. -/
def Keyring.sealAll {C : Cipher} (r : Keyring C) (nonces : Nat → Bytes) : List String → List Stored
  | [] => []
  | text :: rest => r.encrypt (nonces rest.length) text :: r.sealAll nonces rest

def World.step {C : Cipher} (s : World C) : Label → Option (World C)
  | .begin_ newKey =>
    match s.change, s.keyring with
    | .idle, some ring =>
      match s.config with
      | none => some s
      | some cfg =>
        if cfg.dataKey = "" then some s
        else
          match newKeyring C newKey [] with
          | none => some s
          | some next =>
            -- `ErrDataKeyUnchanged`
            if C.keyID next.primary = C.keyID ring.primary then some s
            else some { s with change := .begun ⟨newKey, cfg.dataKey :: cfg.retired⟩ }
    | _, _ => none
  | .saveNew w =>
    match s.change with
    | .begun cfg =>
      match w with
      | .ok => some { s with config := some cfg, change := .saved cfg }
      | .failed => some { s with change := .idle }
      | .torn => some { s with config := none, change := .idle }
    | _ => none
  | .replace =>
    match s.change with
    | .saved cfg =>
      match ringOf C env cfg with
      | none => some { s with change := .idle }
      | some ring => some { s with keyring := some ring, change := .listing cfg 0 }
    | _ => none
  | .list ok =>
    match s.change with
    | .listing cfg i =>
      match s.stores[i]? with
      | none => none
      | some st =>
        if ok then some { s with change := .rewriting cfg i st.rows }
        else some { s with change := .idle }
    | _ => none
  | .row ok nonces =>
    match s.change, s.keyring with
    | .rewriting cfg i (r :: rest), some ring =>
      if RowCurrent ring r then some { s with change := .rewriting cfg i rest }
      else
        match ring.resealAll nonces r.values with
        | none => some { s with change := .idle }
        | some values =>
          if ok then some { s with
            stores := s.stores.modify i fun st => st.rewrite r.key values
            change := .rewriting cfg i rest }
          else some { s with change := .idle }
    | _, _ => none
  | .next =>
    match s.change with
    | .rewriting cfg i [] => some { s with change := .listing cfg (i + 1) }
    | _ => none
  | .saveFinal w =>
    match s.change with
    | .listing cfg i =>
      if i < s.stores.length then none
      else
        match w with
        | .ok => some { s with config := some ⟨cfg.dataKey, []⟩, change := .cleared ⟨cfg.dataKey, []⟩ }
        | .failed => some { s with change := .idle }
        | .torn => some { s with config := none, change := .idle }
    | _ => none
  | .finish =>
    match s.change with
    | .cleared cfg =>
      match ringOf C env cfg with
      | none => some { s with change := .idle }
      | some ring => some { s with keyring := some ring, change := .idle }
    | _ => none
  | .crash => some { s with keyring := s.rebuilt env, change := .idle, saves := [] }
  | .seal_ store key texts nonces =>
    match s.keyring, s.stores[store]? with
    | some ring, some _ =>
      some { s with saves := s.saves ++ [⟨store, key, texts, ring.sealAll nonces texts⟩] }
    | _, _ => none
  | .write i ok =>
    match s.saves[i]? with
    | none => none
    | some save =>
      let done := { s with saves := s.saves.eraseIdx i }
      if ok then some { done with
        stores := s.stores.modify save.store fun st => st.save save.key save.values
        completed := save :: s.completed }
      else some done

end

def World.credential {C : Cipher} (s : World C) (c : Cell) : Option Stored :=
  (s.stores[c.store]?).bind fun st => (st.lookup c.key).bind fun r => r.values[c.field]?

def World.reads {C : Cipher} (s : World C) (ring : Option (Keyring C)) (c : Cell) : Option String :=
  ring.bind fun r => (s.credential c).bind r.decrypt

/-! ### The keys in use -/

section
variable (C : Cipher) (env : List String)

def keysOf (cfg : Config) : List C.Key :=
  (C.parse cfg.dataKey).toList ++ (parseKeys C (env ++ cfg.retired)).getD []

/-- The keys of a config are all well formed, and told apart by their fingerprints. -/
structure Config.Valid (cfg : Config) : Prop where
  primary : (C.parse cfg.dataKey).isSome
  retired : (parseKeys C (env ++ cfg.retired)).isSome
  distinct : Distinct (keysOf C env cfg)

end

section
variable {C : Cipher} {env : List String} {cfg : Config} {ring : Keyring C} {k : C.Key}

theorem parse_ne_empty {h : String} (parsed : C.parse h = some k) :
    h ≠ "" ∧ trimSpace h ≠ "" := by
  have blank : trimSpace h ≠ "" := by
    intro blank
    rw [C.parse_blank h blank] at parsed
    cases parsed
  refine ⟨?_, blank⟩
  rintro rfl
  exact blank (by decide)

theorem Config.Valid.built (valid : cfg.Valid C env) :
    ∃ ring, ringOf C env cfg = some ring ∧ C.parse cfg.dataKey = some ring.primary ∧
      ∀ k, k ∈ ring.keys ↔ k ∈ keysOf C env cfg := by
  obtain ⟨primary, parsed⟩ := isSome_iff_exists.mp valid.primary
  obtain ⟨retired, listed⟩ := isSome_iff_exists.mp valid.retired
  have keys : keysOf C env cfg = primary :: retired := by simp [keysOf, parsed, listed]
  have built : ringOf C env cfg =
      some ⟨primary, retired.filter fun k => C.keyID k ≠ C.keyID primary⟩ := by
    simp [ringOf, newKeyring, parsed, listed]
  refine ⟨_, built, parsed, fun k => ?_⟩
  rw [keys]
  exact mem_keys_of_built (keys ▸ valid.distinct) rfl rfl

theorem Config.Valid.distinct_ring (valid : cfg.Valid C env) (built : ringOf C env cfg = some ring) :
    Distinct ring.keys := by
  obtain ⟨other, same, _, keys⟩ := valid.built
  cases built.symm.trans same
  exact valid.distinct.mono fun k mem => (keys k).mp mem

theorem Config.Valid.extend (valid : cfg.Valid C env) {newKey : String}
    (parsed : C.parse newKey = some k)
    (fresh : ∀ l ∈ keysOf C env cfg, C.keyID l = C.keyID k → l = k) :
    (⟨newKey, cfg.dataKey :: cfg.retired⟩ : Config).Valid C env ∧
      keysOf C env cfg ⊆ keysOf C env ⟨newKey, cfg.dataKey :: cfg.retired⟩ := by
  obtain ⟨primary, current⟩ := isSome_iff_exists.mp valid.primary
  obtain ⟨retired, listed⟩ := isSome_iff_exists.mp valid.retired
  obtain ⟨left, right, outer, inner, rfl⟩ := parseKeys_append.mp listed
  have extended : parseKeys C (env ++ cfg.dataKey :: cfg.retired) =
      some (left ++ primary :: right) := by
    refine parseKeys_append.mpr ⟨left, primary :: right, outer, ?_, rfl⟩
    simp [parseKeys, (parse_ne_empty current).2, current, inner]
  have old : keysOf C env cfg = primary :: (left ++ right) := by simp [keysOf, current, listed]
  have new : keysOf C env ⟨newKey, cfg.dataKey :: cfg.retired⟩ = k :: (left ++ primary :: right) := by
    simp [keysOf, parsed, extended]
  -- the new key apart, the keys are the same
  have among : ∀ l, l ∈ left ++ primary :: right ↔ l ∈ keysOf C env cfg := by
    intro l
    rw [old]
    simp only [mem_append, mem_cons]
    tauto
  refine ⟨⟨by simp [parsed], by simp [extended], ?_⟩, ?_⟩
  · rw [new]
    intro a first b second same
    rcases mem_cons.mp first with isNew | older
    · rcases mem_cons.mp second with other | older
      · rw [isNew, other]
      · rw [isNew] at same ⊢
        exact (fresh b ((among b).mp older) same.symm).symm
    · rcases mem_cons.mp second with other | old
      · rw [other] at same ⊢
        exact fresh a ((among a).mp older) same
      · exact valid.distinct a ((among a).mp older) b ((among b).mp old) same
  · intro l mem
    rw [new]
    exact mem_cons_of_mem _ ((among l).mpr mem)

theorem Config.Valid.clear (valid : cfg.Valid C env) :
    (⟨cfg.dataKey, []⟩ : Config).Valid C env := by
  obtain ⟨retired, listed⟩ := isSome_iff_exists.mp valid.retired
  obtain ⟨left, right, outer, inner, rfl⟩ := parseKeys_append.mp listed
  refine ⟨valid.primary, by simp [outer], valid.distinct.mono ?_⟩
  intro k mem
  simp only [keysOf, append_nil, outer, listed, getD_some, mem_append] at mem ⊢
  tauto

end

/-! ### The invariant -/

open World

/-- The rows of a store that were read and not looked at: every row that is not on the primary key
is among them, as it is. -/
structure Pending {C : Cipher} (ring : Keyring C) (st : Store) (rows : List Row) : Prop where
  covered : ∀ key row, st.lookup key = some row → RowCurrent ring row ∨ row ∈ rows
  present : ∀ r ∈ rows, ¬ RowCurrent ring r → st.lookup r.key = some r
  apart : (rows.map Row.key).Nodup

section
variable {C : Cipher} (env : List String) {c : Cell} {text : String}

/-- What holds of the config and the running keyring at each place of a change. -/
def World.Place (s : World C) (cfg : Config) (ring : Keyring C) : Prop :=
  match s.change with
  | .idle => ringOf C env cfg = some ring
  | .begun cfg' => ringOf C env cfg = some ring ∧ cfg'.Valid C env ∧
      ring.keys ⊆ keysOf C env cfg'
  | .saved cfg' => cfg' = cfg ∧ ring.keys ⊆ keysOf C env cfg
  | .listing cfg' i => cfg' = cfg ∧ ringOf C env cfg = some ring ∧
      ∀ j < i, ∀ st, s.stores[j]? = some st → StoreCurrent ring st
  | .rewriting cfg' i rows => cfg' = cfg ∧ ringOf C env cfg = some ring ∧
      (∀ j < i, ∀ st, s.stores[j]? = some st → StoreCurrent ring st) ∧
      ∃ st, s.stores[i]? = some st ∧ Pending ring st rows
  | .cleared cfg' => cfg' = cfg ∧ C.parse cfg.dataKey = some ring.primary ∧
      ∀ (j : Nat) st, s.stores[j]? = some st → StoreCurrent ring st

/-- No stored value that names no key is opened by two. -/
def World.Told (s : World C) : Prop := ∀ c v, s.credential c = some v → v.Told C

/-- The config is there, and with it a keyring. -/
structure World.Sound (s : World C) (cfg : Config) (ring : Keyring C) : Prop where
  config : s.config = some cfg
  valid : cfg.Valid C env
  keyring : s.keyring = some ring
  told : s.Told
  place : s.Place env cfg ring

theorem World.credential_eq {s : World C} {v : Stored} :
    s.credential c = some v ↔ ∃ st row, s.stores[c.store]? = some st ∧
      st.lookup c.key = some row ∧ row.values[c.field]? = some v := by
  simp only [credential, bind_eq_some_iff]
  constructor
  · rintro ⟨st, at_, row, found, value⟩
    exact ⟨st, row, at_, found, value⟩
  · rintro ⟨st, row, at_, found, value⟩
    exact ⟨st, at_, row, found, value⟩

theorem World.reads_some {s : World C} {ring : Keyring C} :
    s.reads (some ring) c = some text ↔
      ∃ v, s.credential c = some v ∧ ring.decrypt v = some text := by
  simp only [reads, bind_some, bind_eq_some_iff]

theorem World.Sound.rebuilt_reads {s : World C} {cfg : Config} {ring : Keyring C}
    (sound : s.Sound env cfg ring) (read : s.reads s.keyring c = some text) :
    s.reads (s.rebuilt env) c = some text := by
  obtain ⟨ring', built, primary, keys⟩ := sound.valid.built
  have started : s.rebuilt env = some ring' := by
    simp [rebuilt, sound.config, (parse_ne_empty primary).1, built]
  rw [sound.keyring] at read
  obtain ⟨v, here, opened⟩ := reads_some.mp read
  rw [started]
  refine reads_some.mpr ⟨v, here, ?_⟩
  have place := sound.place
  unfold World.Place at place
  split at place
  · cases built.symm.trans place
    exact opened
  · cases built.symm.trans place.1
    exact opened
  · exact Keyring.decrypt_mono (sound.told c v here) (fun k mem => (keys k).mpr (place.2 mem))
      (sound.valid.distinct_ring built) opened
  · cases built.symm.trans place.2.1
    exact opened
  · cases built.symm.trans place.2.1
    exact opened
  · -- every stored value is on the primary key, which both keyrings have
    obtain ⟨st, row, at_, found, value⟩ := credential_eq.mp here
    have current := place.2.2 c.store st at_ c.key row found v (mem_of_getElem? value)
    exact Keyring.decrypt_current (some.inj (primary.symm.trans place.2.1)) current opened

/-- No two keys in use get the same fingerprint, and a config that cannot be saved is left as it
was. -/
def World.Careful (s : World C) : Label → Prop
  | .begin_ newKey => ∀ cfg ∈ s.config, ∀ k ∈ C.parse newKey,
      ∀ l ∈ keysOf C env cfg, C.keyID l = C.keyID k → l = k
  | .saveNew w | .saveFinal w => w ≠ .torn
  | _ => True

instance (s : World C) (l : Label) : Decidable (s.Careful env l) := by
  cases l <;> dsimp only [World.Careful] <;> infer_instance

variable {env} {s t : World C} {cfg : Config} {ring : Keyring C} {r : Row} {rest : List Row}
  {st : Store} {nonces : Nat → Bytes} {values : List Stored}

theorem World.credential_congr (stores : t.stores = s.stores) (c : Cell) :
    t.credential c = s.credential c := by rw [credential, stores, credential]

/-- What a step does to the stored credentials: there are as many as before, and what the running
keyring read it still reads. -/
structure World.Keeps (s t : World C) : Prop where
  reads : ∀ c text, s.reads s.keyring c = some text → t.reads t.keyring c = some text
  present : ∀ c, (t.credential c).isSome = (s.credential c).isSome

theorem World.Keeps.of_eq (keyring : t.keyring = s.keyring) (stores : t.stores = s.stores) :
    s.Keeps t where
  reads c text read := by
    rw [World.reads, keyring, World.credential_congr stores]
    exact read
  present c := by rw [credential_congr stores]

theorem World.Keeps.of_ring {ring' : Keyring C} (keyring : s.keyring = some ring)
    (keyring' : t.keyring = some ring') (stores : t.stores = s.stores)
    (reads : ∀ c v text, s.credential c = some v → ring.decrypt v = some text →
      ring'.decrypt v = some text) : s.Keeps t where
  reads c text read := by
    rw [keyring] at read
    obtain ⟨v, here, opened⟩ := reads_some.mp read
    rw [keyring']
    refine reads_some.mpr ⟨v, ?_, reads c v text here opened⟩
    rw [credential_congr stores, here]
  present c := by rw [credential_congr stores]

theorem World.Keeps.trans {u : World C} (first : s.Keeps t) (second : t.Keeps u) : s.Keeps u where
  reads c text read := second.reads c text (first.reads c text read)
  present c := (second.present c).trans (first.present c)

section
variable (sound : s.Sound env cfg ring)
include sound

theorem World.Sound.abandon (built : ringOf C env cfg = some ring) :
    ({ s with change := .idle } : World C).Sound env cfg ring :=
  ⟨sound.config, sound.valid, sound.keyring, sound.told, built⟩

theorem begin_step {newKey : String} (careful : s.Careful env (.begin_ newKey))
    (taken : s.step env (.begin_ newKey) = some t) :
    t.Sound env cfg ring ∧ t.keyring = s.keyring ∧ t.stores = s.stores := by
  have same : s.Sound env cfg ring ∧ s.keyring = s.keyring ∧ s.stores = s.stores :=
    ⟨sound, rfl, rfl⟩
  simp only [step, sound.keyring, sound.config] at taken
  split at taken
  next ring' idle running =>
    cases running
    have built : ringOf C env cfg = some ring := by
      have place := sound.place
      rw [World.Place, idle] at place
      exact place
    split at taken
    · cases taken
      exact same
    · split at taken
      · cases taken
        exact same
      next next_ parsed =>
        split at taken
        · cases taken
          exact same
        · cases taken
          obtain ⟨_, key, _⟩ := newKeyring_some parsed
          obtain ⟨valid, kept⟩ := sound.valid.extend key (careful cfg sound.config _ key)
          obtain ⟨other, same, _, keys⟩ := sound.valid.built
          cases built.symm.trans same
          refine ⟨⟨rfl, sound.valid, rfl, sound.told, built, valid, ?_⟩, sound.keyring.symm, rfl⟩
          exact fun k mem => kept ((keys k).mp mem)
  · cases taken

theorem saveNew_step {w : Written} (careful : s.Careful env (.saveNew w))
    (taken : s.step env (.saveNew w) = some t) :
    (∃ cfg', t.Sound env cfg' ring) ∧ t.keyring = s.keyring ∧ t.stores = s.stores := by
  simp only [step] at taken
  split at taken
  next cfg' begun =>
    have place := sound.place
    rw [World.Place, begun] at place
    obtain ⟨built, valid, kept⟩ := place
    cases w with
    | ok =>
      cases taken
      exact ⟨⟨cfg', rfl, valid, sound.keyring, sound.told, rfl, kept⟩, rfl, rfl⟩
    | failed =>
      cases taken
      exact ⟨⟨cfg, sound.abandon built⟩, rfl, rfl⟩
    | torn => exact absurd rfl careful
  · cases taken

theorem replace_step (taken : s.step env .replace = some t) :
    ∃ ring', t.Sound env cfg ring' ∧ t.stores = s.stores ∧ ring.keys ⊆ ring'.keys ∧
      Distinct ring'.keys := by
  simp only [step] at taken
  split at taken
  next cfg' saved =>
    have place := sound.place
    rw [World.Place, saved] at place
    obtain ⟨rfl, kept⟩ := place
    obtain ⟨ring', built, _, keys⟩ := sound.valid.built
    rw [built] at taken
    cases taken
    refine ⟨ring', ⟨sound.config, sound.valid, rfl, sound.told, rfl, built, ?_⟩, rfl,
      fun k mem => (keys k).mpr (kept mem), sound.valid.distinct_ring built⟩
    intro j less
    exact absurd less (Nat.not_lt_zero j)
  · cases taken

end

theorem Pending.start (ring : Keyring C) (st : Store) : Pending ring st st.rows where
  covered _ _ found := .inr (mem_of_lookup found)
  present _ mem _ := lookup_iff.mpr ⟨mem, rfl⟩
  apart := st.unique

theorem list_step {ok : Bool} (sound : s.Sound env cfg ring)
    (taken : s.step env (.list ok) = some t) :
    t.Sound env cfg ring ∧ t.keyring = s.keyring ∧ t.stores = s.stores := by
  simp only [step] at taken
  split at taken
  next cfg' i listing =>
    have place := sound.place
    rw [World.Place, listing] at place
    obtain ⟨rfl, built, done⟩ := place
    split at taken
    · cases taken
    next st here =>
      cases ok with
      | true =>
        cases taken
        exact ⟨⟨sound.config, sound.valid, sound.keyring, sound.told, rfl, built, done, st, here,
          Pending.start ring st⟩, rfl, rfl⟩
      | false =>
        cases taken
        exact ⟨sound.abandon built, rfl, rfl⟩
  · cases taken

theorem Pending.skip (pending : Pending ring st (r :: rest)) (current : RowCurrent ring r) :
    Pending ring st rest where
  covered key row found := by
    rcases pending.covered key row found with done | mem
    · exact .inl done
    · rcases mem_cons.mp mem with rfl | later
      · exact .inl current
      · exact .inr later
  present r' mem := pending.present r' (mem_cons_of_mem _ mem)
  apart := (nodup_cons.mp pending.apart).2

theorem Pending.rewrite (pending : Pending ring st (r :: rest))
    (resealed : ring.resealAll nonces r.values = some values) :
    Pending ring (st.rewrite r.key values) rest where
  covered key row found := by
    rw [lookup_rewrite] at found
    split at found
    · obtain ⟨old, _, rfl⟩ := map_eq_some_iff.mp found
      exact .inl (rowCurrent_resealed resealed old.key)
    next other =>
      rcases pending.covered key row found with done | mem
      · exact .inl done
      · rcases mem_cons.mp mem with rfl | later
        · exact absurd (key_of_lookup found).symm other
        · exact .inr later
  present r' mem stale := by
    have other : r'.key ≠ r.key := by
      intro same
      exact (nodup_cons.mp pending.apart).1 (same ▸ mem_map_of_mem mem)
    rw [lookup_rewrite, if_neg other]
    exact pending.present r' (mem_cons_of_mem _ mem) stale
  apart := (nodup_cons.mp pending.apart).2

theorem World.credential_rewrite {i : Nat} (here : s.stores[i]? = some st)
    (found : st.lookup r.key = some r)
    (stores : t.stores = s.stores.modify i fun st => st.rewrite r.key values) (c : Cell) :
    t.credential c = s.credential c ∨
      t.credential c = values[c.field]? ∧ s.credential c = r.values[c.field]? := by
  simp only [credential, stores, getElem?_modify]
  by_cases place : i = c.store
  · subst place
    rw [here]
    by_cases named : c.key = r.key
    · exact .inr (by simp [lookup_rewrite, named, found])
    · exact .inl (by simp [lookup_rewrite, named])
  · exact .inl (by simp [place])

theorem World.Told.rewrite {i : Nat} (told : s.Told) (here : s.stores[i]? = some st)
    (found : st.lookup r.key = some r) (resealed : ring.resealAll nonces r.values = some values)
    (stores : t.stores = s.stores.modify i fun st => st.rewrite r.key values) : t.Told := by
  intro c v stored
  rcases credential_rewrite here found stores c with same | ⟨after, _⟩
  · exact told c v (same.symm.trans stored)
  · exact Keyring.told_of_current (rowCurrent_resealed resealed r.key v
      (mem_of_getElem? (after.symm.trans stored)))

theorem World.keeps_rewrite {i : Nat} (here : s.stores[i]? = some st)
    (found : st.lookup r.key = some r) (resealed : ring.resealAll nonces r.values = some values)
    (keyring : s.keyring = some ring) (keyring' : t.keyring = some ring)
    (stores : t.stores = s.stores.modify i fun st => st.rewrite r.key values) : s.Keeps t := by
  have cells := credential_rewrite here found stores
  constructor
  · intro c text read
    rw [keyring] at read
    rw [keyring', reads, bind_some]
    rcases cells c with same | ⟨after, before⟩
    · rw [same]
      exact read
    · rw [after, resealed_reads resealed, ← before]
      exact read
  · intro c
    rcases cells c with same | ⟨after, before⟩
    · rw [same]
    · have long := (List.forall₂_iff_get.mp (Keyring.resealAll_some resealed)).1
      rw [after, before, Bool.eq_iff_iff, isSome_getElem?, isSome_getElem?, long]

section
variable (sound : s.Sound env cfg ring)
include sound

theorem row_step {ok : Bool} (taken : s.step env (.row ok nonces) = some t) :
    t.Sound env cfg ring ∧ s.Keeps t := by
  simp only [step, sound.keyring] at taken
  split at taken
  next cfg' i r rest ring' rewriting running =>
    cases running
    have place := sound.place
    rw [World.Place, rewriting] at place
    obtain ⟨rfl, built, done, st, here, pending⟩ := place
    split at taken
    next current =>
      cases taken
      exact ⟨⟨sound.config, sound.valid, rfl, sound.told, rfl, built, done, st, here,
        pending.skip current⟩, .of_eq sound.keyring.symm rfl⟩
    next stale =>
      split at taken
      · cases taken
        exact ⟨⟨sound.config, sound.valid, rfl, sound.told, built⟩, .of_eq sound.keyring.symm rfl⟩
      next values resealed =>
        cases ok with
        | true =>
          cases taken
          have found := pending.present r mem_cons_self stale
          refine ⟨⟨sound.config, sound.valid, rfl, sound.told.rewrite here found resealed rfl, rfl,
            built, ?_, _, ?_, pending.rewrite resealed⟩,
            keeps_rewrite here found resealed sound.keyring rfl rfl⟩
          · intro j below st' at_
            refine done j below st' ?_
            simpa [getElem?_modify, Nat.ne_of_gt below] using at_
          · simp [here]
        | false =>
          cases taken
          exact ⟨⟨sound.config, sound.valid, rfl, sound.told, built⟩, .of_eq sound.keyring.symm rfl⟩
  · cases taken

theorem next_step (taken : s.step env .next = some t) :
    t.Sound env cfg ring ∧ t.keyring = s.keyring ∧ t.stores = s.stores := by
  simp only [step] at taken
  split at taken
  next cfg' i rewriting =>
    have place := sound.place
    rw [World.Place, rewriting] at place
    obtain ⟨rfl, built, done, st, here, pending⟩ := place
    cases taken
    refine ⟨⟨sound.config, sound.valid, sound.keyring, sound.told, rfl, built, ?_⟩, rfl, rfl⟩
    intro j below st' at_
    rcases Nat.lt_succ_iff_lt_or_eq.mp below with less | rfl
    · exact done j less st' at_
    · -- nothing is left to look at in this store
      cases here.symm.trans at_
      intro key row found
      rcases pending.covered key row found with current | mem
      · exact current
      · cases mem
  · cases taken

theorem saveFinal_step {w : Written} (careful : s.Careful env (.saveFinal w))
    (taken : s.step env (.saveFinal w) = some t) :
    (∃ cfg', t.Sound env cfg' ring) ∧ t.keyring = s.keyring ∧ t.stores = s.stores := by
  simp only [step] at taken
  split at taken
  next cfg' i listing =>
    have place := sound.place
    rw [World.Place, listing] at place
    obtain ⟨rfl, built, done⟩ := place
    obtain ⟨all, taken⟩ := ite_none_left_eq_some.mp taken
    cases w with
    | ok =>
      cases taken
      obtain ⟨other, same, primary, _⟩ := sound.valid.built
      cases built.symm.trans same
      refine ⟨⟨⟨cfg'.dataKey, []⟩, rfl, sound.valid.clear, sound.keyring, sound.told, rfl, primary,
        ?_⟩, rfl, rfl⟩
      intro j st at_
      have bound : j < s.stores.length := (List.getElem?_eq_some_iff.mp at_).choose
      exact done j (Nat.lt_of_lt_of_le bound (Nat.le_of_not_lt all)) st at_
    | failed =>
      cases taken
      exact ⟨⟨_, sound.abandon built⟩, rfl, rfl⟩
    | torn => exact absurd rfl careful
  · cases taken

theorem finish_step (taken : s.step env .finish = some t) :
    ∃ ring', t.Sound env cfg ring' ∧ t.stores = s.stores ∧ ring'.primary = ring.primary ∧
      ∀ (j : Nat) st, s.stores[j]? = some st → StoreCurrent ring st := by
  simp only [step] at taken
  split at taken
  next cfg' cleared =>
    have place := sound.place
    rw [World.Place, cleared] at place
    obtain ⟨rfl, primary, current⟩ := place
    obtain ⟨ring', built, first, _⟩ := sound.valid.built
    rw [built] at taken
    cases taken
    exact ⟨ring', ⟨sound.config, sound.valid, rfl, sound.told, built⟩, rfl,
      some.inj (first.symm.trans primary), current⟩
  · cases taken

theorem crash_step (taken : s.step env .crash = some t) :
    (∃ ring', t.Sound env cfg ring') ∧ t.keyring = s.rebuilt env ∧ t.stores = s.stores := by
  cases taken
  obtain ⟨ring', built, primary, _⟩ := sound.valid.built
  have started : s.rebuilt env = some ring' := by
    simp [rebuilt, sound.config, (parse_ne_empty primary).1, built]
  exact ⟨⟨ring', sound.config, sound.valid, started, sound.told, built⟩, rfl, rfl⟩

theorem World.Sound.step {l : Label} (careful : s.Careful env l) (quiet : l.saves = false)
    (taken : s.step env l = some t) : (∃ cfg' ring', t.Sound env cfg' ring') ∧ s.Keeps t := by
  cases l with
  | begin_ =>
    obtain ⟨after, keyring, stores⟩ := begin_step sound careful taken
    exact ⟨⟨_, _, after⟩, .of_eq keyring stores⟩
  | saveNew =>
    obtain ⟨⟨cfg', after⟩, keyring, stores⟩ := saveNew_step sound careful taken
    exact ⟨⟨_, _, after⟩, .of_eq keyring stores⟩
  | replace =>
    obtain ⟨ring', after, stores, kept, distinct⟩ := replace_step sound taken
    exact ⟨⟨_, _, after⟩, .of_ring sound.keyring after.keyring stores
      fun c v _ stored opened => Keyring.decrypt_mono (sound.told c v stored) kept distinct opened⟩
  | list =>
    obtain ⟨after, keyring, stores⟩ := list_step sound taken
    exact ⟨⟨_, _, after⟩, .of_eq keyring stores⟩
  | row =>
    obtain ⟨after, keeps⟩ := row_step sound taken
    exact ⟨⟨_, _, after⟩, keeps⟩
  | next =>
    obtain ⟨after, keyring, stores⟩ := next_step sound taken
    exact ⟨⟨_, _, after⟩, .of_eq keyring stores⟩
  | saveFinal =>
    obtain ⟨⟨cfg', after⟩, keyring, stores⟩ := saveFinal_step sound careful taken
    exact ⟨⟨_, _, after⟩, .of_eq keyring stores⟩
  | finish =>
    obtain ⟨ring', after, stores, primary, current⟩ := finish_step sound taken
    refine ⟨⟨_, _, after⟩, .of_ring sound.keyring after.keyring stores ?_⟩
    intro c v text here opened
    obtain ⟨st, row, at_, found, value⟩ := credential_eq.mp here
    -- dropping the retired keys loses nothing: every value is on the primary key
    have onPrimary := current c.store st at_ c.key row found v (mem_of_getElem? value)
    exact Keyring.decrypt_current primary onPrimary opened
  | crash =>
    obtain ⟨⟨ring', after⟩, keyring, stores⟩ := crash_step sound taken
    refine ⟨⟨_, _, after⟩, fun c text read => ?_, fun c => by rw [credential_congr stores]⟩
    -- the keyring is built again from the configuration, with at least the keys it had
    have again := sound.rebuilt_reads env read
    rw [← keyring] at again
    simpa only [reads, credential, stores] using again
  | seal_ | write => cases quiet

end

variable (env) in
/-- An instance that has started and is not changing its key. -/
structure World.Running (s : World C) (ring : Keyring C) : Prop where
  idle : s.change = .idle
  keyring : s.keyring = some ring
  started : s.rebuilt env = some ring

theorem World.Running.sound (running : s.Running env ring) (told : s.Told)
    (apart : ∀ cfg ∈ s.config, Distinct (keysOf C env cfg)) : ∃ cfg, s.Sound env cfg ring := by
  obtain ⟨cfg, config, started⟩ := bind_eq_some_iff.mp running.started
  split at started
  · cases started
  obtain ⟨retired, primary, listed, _⟩ := newKeyring_some started
  refine ⟨cfg, config, ⟨by simp [primary], by simp [listed], apart cfg config⟩, running.keyring,
    told, ?_⟩
  rw [World.Place, running.idle]
  exact started

theorem World.Sound.run {labels : List Label} (sound : s.Sound env cfg ring)
    (quiet : ∀ l ∈ labels, l.saves = false)
    (careful : AllSteps (World.step env) (World.Careful env) s labels)
    (run : exec (World.step env) s labels = some t) :
    (∃ cfg' ring', t.Sound env cfg' ring') ∧ s.Keeps t := by
  induction labels generalizing s cfg ring with
  | nil =>
    cases run
    exact ⟨⟨cfg, ring, sound⟩, .of_eq rfl rfl⟩
  | cons l rest ih =>
    obtain ⟨u, first, later⟩ := (exec_cons _ s t l rest).mp run
    obtain ⟨⟨cfg', ring', after⟩, kept⟩ :=
      sound.step careful.1 (quiet l mem_cons_self) first
    obtain ⟨still, keeps⟩ := ih after (fun l' mem => quiet l' (mem_cons_of_mem _ mem))
      (careful.2 u first) later
    exact ⟨still, kept.trans keeps⟩

/-- Changes of the data key, cut off anywhere, leave every credential that was readable at some
point readable, to the same text, from then on: with the running keyring, and with one built from
the config. The keys in use must have fingerprints of their own, no other key may open what is
stored, and a config that cannot be saved must be left as it was. -/
theorem stays_readable {start : World C} (running : start.Running env ring) (told : start.Told)
    (apart : ∀ cfg ∈ start.config, Distinct (keysOf C env cfg)) {before after : List Label}
    (quiet : ∀ l ∈ before ++ after, l.saves = false)
    (careful : AllSteps (World.step env) (World.Careful env) start (before ++ after))
    (first : exec (World.step env) start before = some s)
    (later : exec (World.step env) s after = some t) {c : Cell} {text : String}
    (read : s.reads s.keyring c = some text) :
    t.reads t.keyring c = some text ∧ t.reads (t.rebuilt env) c = some text := by
  obtain ⟨cfg, sound⟩ := running.sound told apart
  obtain ⟨careful₁, careful₂⟩ := allSteps_append _ _ start s before after first careful
  obtain ⟨⟨cfg₁, ring₁, sound₁⟩, _⟩ :=
    sound.run (fun l member => quiet l (mem_append_left _ member)) careful₁ first
  obtain ⟨⟨cfg₂, ring₂, sound₂⟩, keeps⟩ :=
    sound₁.run (fun l member => quiet l (mem_append_right _ member)) careful₂ later
  exact ⟨keeps.reads c text read, sound₂.rebuilt_reads env (keeps.reads c text read)⟩

end

/-! ### Three keys

Two of them have the same fingerprint. -/

namespace Sample

def keyA : String := "2d244bdd3d2237040fecfffef263336e9589ee90cd9888f0c23a6421d825c6a6"
def keyB : String := "000102030405060708090a0b0c0d0e0f101112131415161718191a1b1c1d1e1f"
def keyC : String := "5297f8681be51773fe1c4fb2028b03e7e46a5787dead5f0f0bd17ed2da1f5e8e"

def encode (text : List Char) : Bytes :=
  text.flatMap fun c =>
    [Fin.ofNat 256 (c.toNat / 65536), Fin.ofNat 256 (c.toNat / 256), Fin.ofNat 256 c.toNat]

def decode : Bytes → List Char
  | a :: b :: c :: rest => Char.ofNat (a.val * 65536 + b.val * 256 + c.val) :: decode rest
  | _ => []

theorem decode_encode (text : List Char) : decode (encode text) = text := by
  induction text with
  | nil => rfl
  | cons c rest ih =>
    have bound : c.toNat < 1114112 := by
      have valid := c.valid
      have code : c.val.toNat = c.toNat := rfl
      omega
    have code : c.toNat / 65536 % 256 * 65536 + c.toNat / 256 % 256 * 256 + c.toNat % 256 = c.toNat := by
      omega
    have split_ : encode (c :: rest) = Fin.ofNat 256 (c.toNat / 65536) ::
        Fin.ofNat 256 (c.toNat / 256) :: Fin.ofNat 256 c.toNat :: encode rest := rfl
    rw [split_, decode, ih]
    simp [code]

/-- A cipher that marks what it seals with the number of the key. -/
def cipher : Cipher where
  Key := Fin 3
  keyEq := inferInstance
  parse h :=
    if trimSpace h = keyA then some 0
    else if trimSpace h = keyB then some 1
    else if trimSpace h = keyC then some 2
    else none
  parse_blank h blank := by
    rw [blank]
    decide
  -- the first four bytes of the SHA-256 of each
  keyID k := if k = 1 then "630dcd29" else "e84a7ec0"
  named k := by
    revert k
    decide
  seal_ k _ text := k.castLE (by decide) :: encode text.toList
  open_ k payload :=
    match payload with
    | [] => none
    | mark :: rest => if mark = k.castLE (by decide) then some (String.ofList (decode rest)) else none
  correct k nonce text := by simp [decode_encode]

def cell : Cell := ⟨0, ("t1", ""), 0⟩

def noNonces : Nat → Bytes := fun _ => []

def start : World cipher where
  config := some ⟨keyA, []⟩
  keyring := some ⟨(0 : Fin 3), []⟩
  stores := [⟨[⟨("t1", ""), [.sealed "e84a7ec0" (0 :: encode "hunter2".toList)]⟩], by decide⟩]
  change := .idle
  saves := []
  completed := []

theorem told_start : start.Told := by
  have current : ∀ st ∈ start.stores, ∀ row ∈ st.rows,
      RowCurrent (⟨(0 : Fin 3), []⟩ : Keyring cipher) row := by decide
  intro c v stored
  obtain ⟨st, row, at_, found, value⟩ := World.credential_eq.mp stored
  exact Keyring.told_of_current (current st (mem_of_getElem? at_) row (mem_of_lookup found) v
    (mem_of_getElem? value))

def stopped : List Label :=
  [.begin_ keyB, .saveNew .ok, .replace, .list true, .row false noNonces]

def changed (key : String) : List Label :=
  [.begin_ key, .saveNew .ok, .replace, .list true, .row true noNonces, .next, .saveFinal .ok, .finish]

end Sample

open Sample in
/-- A change whose config could not be saved is made again, and the instance restarted. -/
theorem stays_readable_resealed :
    (exec (World.step []) start ([.begin_ keyB, .saveNew .failed] ++ (changed keyB ++ [.crash]))).isSome ∧
      ∀ s t, exec (World.step []) start [.begin_ keyB, .saveNew .failed] = some s →
        exec (World.step []) s (changed keyB ++ [.crash]) = some t →
        t.reads t.keyring cell = some "hunter2" ∧ t.reads (t.rebuilt []) cell = some "hunter2" := by
  refine ⟨by decide +kernel, fun s t first later => ?_⟩
  have before : (exec (World.step []) start [.begin_ keyB, .saveNew .failed]).map
      (fun s => s.reads s.keyring cell) = some (some "hunter2") := by decide +kernel
  rw [first] at before
  exact stays_readable ⟨rfl, rfl, by decide⟩ told_start (by decide) (by decide)
    (by decide +kernel) first later (Option.some.inj before)

open Sample in
/-- A key with the fingerprint of one that is still needed takes its place, and a config that is cut
off leaves no key at all. -/
theorem collision_unreadable :
    (exec (World.step []) start stopped).map (fun s => s.reads s.keyring cell) =
        some (some "hunter2") ∧ (exec (World.step []) start (stopped ++ changed keyC)).map (fun t =>
        (t.change, t.config, t.reads t.keyring cell, t.reads (t.rebuilt []) cell)) =
        some (.idle, some ⟨keyC, []⟩, none, none) ∧
      (exec (World.step []) start [.begin_ keyB, .saveNew .torn]).map (fun t =>
        (t.reads t.keyring cell, t.reads (t.rebuilt []) cell)) = some (some "hunter2", none) := by
  decide +kernel

end Panmail.Secrets
