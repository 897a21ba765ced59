import Mathlib.Logic.Relation
import Panmail.Secrets.DataKey

/-!
# Changing the data key once more

A change that stopped is to be finished by calling `Change` with the same key again. But a call is
refused when the running keyring is on the new key already, and the keyring moves before the stores
are rewritten. A call that finds the running keyring on another key, as after a change whose config
could not be saved, does finish.
-/
namespace Panmail.Secrets

open ByteStrings Runs List Option

/-- A step of a call in which nothing fails. -/
def Label.Works (nonces : Nat → Bytes) : Label → Prop
  | .saveNew w | .saveFinal w => w = .ok
  | .list ok => ok = true
  | .row ok drawn => ok = true ∧ drawn = nonces
  | .replace | .next | .finish => True
  | .begin_ _ | .crash | .seal_ _ _ _ _ | .write _ _ => False

section
variable {C : Cipher}

/-- Every stored value can be read by the running keyring. -/
def World.Readable (s : World C) : Prop :=
  ∀ c, (s.credential c).isSome → (s.reads s.keyring c).isSome

/-- Every stored value is sealed with the key, and no other key is kept. -/
def World.Moved (s : World C) (newKey : String) : Prop :=
  s.change = .idle ∧ s.config = some ⟨newKey, []⟩ ∧ ∃ ring, s.keyring = some ring ∧
    C.parse newKey = some ring.primary ∧
    ∀ c v, s.credential c = some v → ring.needsRotation v = false

variable (env : List String) (nonces : Nat → Bytes)

/-- The call goes on from `s` to `t`. -/
abbrev World.Goes : World C → World C → Prop :=
  Relation.ReflTransGen fun s t => ∃ l, s.step env l = some t ∧ Label.Works nonces l

variable {env nonces} {s t : World C} {cfg : Config} {ring : Keyring C} {i : Nat}

theorem World.Keeps.readable (keeps : s.Keeps t) (readable : s.Readable) : t.Readable := by
  intro c stored
  rw [keeps.present] at stored
  obtain ⟨text, read⟩ := isSome_iff_exists.mp (readable c stored)
  rw [keeps.reads c text read, isSome_some]

theorem Keyring.resealAll_isSome (nonces : Nat → Bytes) {r : Keyring C} {values : List Stored}
    (opens : ∀ v ∈ values, (r.decrypt v).isSome) : (r.resealAll nonces values).isSome := by
  induction values with
  | nil => rfl
  | cons v rest ih =>
    obtain ⟨text, read⟩ := isSome_iff_exists.mp (opens v mem_cons_self)
    rw [Keyring.resealAll, read, isSome_map]
    exact ih fun w mem => opens w (mem_cons_of_mem _ mem)

theorem World.Sound.row_taken (sound : s.Sound env cfg ring) (readable : s.Readable) {r : Row}
    {rest : List Row} (place : s.change = .rewriting cfg i (r :: rest)) :
    ∃ t, s.step env (.row true nonces) = some t ∧ t.change = .rewriting cfg i rest ∧
      t.stores.length = s.stores.length := by
  simp only [World.step, place, sound.keyring]
  by_cases current : RowCurrent ring r
  · exact ⟨_, if_pos current, rfl, rfl⟩
  · rw [if_neg current]
    have here := sound.place
    rw [World.Place, place] at here
    obtain ⟨_, _, _, st, at_, pending⟩ := here
    have found := pending.present r mem_cons_self current
    have opens : ∀ v ∈ r.values, (ring.decrypt v).isSome := by
      intro v mem
      obtain ⟨n, value⟩ := mem_iff_getElem?.mp mem
      have stored : s.credential ⟨i, r.key, n⟩ = some v :=
        World.credential_eq.mpr ⟨st, r, at_, found, value⟩
      have read := readable ⟨i, r.key, n⟩ (by rw [stored, isSome_some])
      rwa [World.reads, sound.keyring, stored] at read
    obtain ⟨values, resealed⟩ := isSome_iff_exists.mp
      (Keyring.resealAll_isSome nonces opens)
    rw [resealed]
    exact ⟨_, rfl, rfl, by simp⟩

theorem World.Sound.rows_done (sound : s.Sound env cfg ring) (readable : s.Readable)
    {rows : List Row} (place : s.change = .rewriting cfg i rows) :
    ∃ t, s.Goes env nonces t ∧ t.Sound env cfg ring ∧ t.Readable ∧
      t.change = .listing cfg (i + 1) ∧ t.stores.length = s.stores.length := by
  induction rows generalizing s with
  | nil =>
    have taken : s.step env .next = some { s with change := .listing cfg (i + 1) } := by
      rw [World.step, place]
    obtain ⟨after, keyring, stores⟩ := next_step sound taken
    exact ⟨_, .single ⟨_, taken, trivial⟩, after, (Keeps.of_eq keyring stores).readable readable,
      rfl, rfl⟩
  | cons r rest ih =>
    obtain ⟨u, taken, next, length⟩ := sound.row_taken readable place
    obtain ⟨after, keeps⟩ := row_step sound taken
    obtain ⟨t, goes, still, reads, listing, same⟩ := ih after (keeps.readable readable) next
    exact ⟨t, .head ⟨_, taken, rfl, rfl⟩ goes, still, reads, listing, same.trans length⟩

theorem World.Sound.stores_done (n : Nat) (sound : s.Sound env cfg ring) (readable : s.Readable)
    (place : s.change = .listing cfg i) (left : i + n = s.stores.length) :
    ∃ t, s.Goes env nonces t ∧ t.Sound env cfg ring ∧ t.change = .listing cfg t.stores.length := by
  induction n generalizing s i with
  | zero => exact ⟨s, .refl, sound, by rw [place, ← left, Nat.add_zero]⟩
  | succ n ih =>
    have bound : i < s.stores.length := by omega
    have taken : s.step env (.list true) =
        some { s with change := .rewriting cfg i (s.stores.get ⟨i, bound⟩).rows } := by
      simp [World.step, place, bound]
    obtain ⟨after, keyring, stores⟩ := list_step sound taken
    obtain ⟨u, goes, still, reads, listing, length⟩ :=
      after.rows_done ((Keeps.of_eq keyring stores).readable readable) rfl
    have left' : i + 1 + n = s.stores.length := by omega
    obtain ⟨t, later, rest⟩ := ih still reads listing (left'.trans length.symm)
    exact ⟨t, .head ⟨_, taken, rfl⟩ (goes.trans later), rest⟩

theorem World.Sound.switched (sound : s.Sound env cfg ring) (readable : s.Readable)
    {next : Config} (begun : s.change = .begun next) :
    ∃ t ring', s.Goes env nonces t ∧ t.Sound env next ring' ∧ t.Readable ∧
      t.change = .listing next 0 := by
  have saved : s.step env (.saveNew .ok) =
      some { s with config := some next, change := .saved next } := by rw [World.step, begun]
  have untorn : s.Careful env (.saveNew .ok) := by simp [World.Careful]
  obtain ⟨⟨cfg', after⟩, keyring, stores⟩ := saveNew_step sound untorn saved
  have reads := (Keeps.of_eq keyring stores).readable readable
  have same : next = cfg' := some.inj after.config
  subst same
  obtain ⟨ring', built, _, _⟩ := after.valid.built
  have replaced : World.step env { s with config := some next, change := .saved next } .replace =
      some { s with config := some next, keyring := some ring', change := .listing next 0 } := by
    simp only [World.step, built]
  obtain ⟨⟨cfg'', ring'', sound'⟩, keeps⟩ := after.step (l := .replace) trivial rfl replaced
  have config : next = cfg'' := some.inj sound'.config
  subst config
  exact ⟨_, ring'', .head ⟨_, saved, rfl⟩ (.single ⟨_, replaced, trivial⟩), sound',
    keeps.readable reads, rfl⟩

theorem World.Sound.dropped (sound : s.Sound env cfg ring)
    (place : s.change = .listing cfg s.stores.length) :
    ∃ t, s.Goes env nonces t ∧ t.Moved cfg.dataKey := by
  have saved : s.step env (.saveFinal .ok) = some { s with
      config := some ⟨cfg.dataKey, []⟩, change := .cleared ⟨cfg.dataKey, []⟩ } := by
    simp [World.step, place]
  have untorn : s.Careful env (.saveFinal .ok) := by simp [World.Careful]
  obtain ⟨⟨cfg', after⟩, _⟩ := saveFinal_step sound untorn saved
  have same : ⟨cfg.dataKey, []⟩ = cfg' := some.inj after.config
  subst same
  obtain ⟨ring', built, parsed, _⟩ := after.valid.built
  have finished : World.step env { s with
      config := some ⟨cfg.dataKey, []⟩, change := .cleared ⟨cfg.dataKey, []⟩ } .finish =
      some { s with config := some ⟨cfg.dataKey, []⟩, keyring := some ring', change := .idle } := by
    simp only [World.step, built]
  obtain ⟨ring'', sound', _, primary, current⟩ := finish_step after finished
  have final : ring' = ring'' := some.inj sound'.keyring
  subst final
  refine ⟨_, .head ⟨_, saved, rfl⟩ (.single ⟨_, finished, trivial⟩), rfl, rfl, ring', rfl, parsed, ?_⟩
  intro c v stored
  obtain ⟨st, row, at_, found, value⟩ := World.credential_eq.mp stored
  rw [Keyring.needsRotation_congr primary]
  exact current c.store st at_ c.key row found v (mem_of_getElem? value)

/-- While the running keyring is on a key, calls with that key do nothing, however many. -/
theorem repeated_leaves {newKey : String} {k : C.Key} (idle : s.change = .idle)
    (running : s.keyring = some ring) (parsed : C.parse newKey = some k)
    (same : C.keyID k = C.keyID ring.primary) (n : Nat) :
    exec (World.step env) s (replicate n (.begin_ newKey)) = some s := by
  have refused : s.step env (.begin_ newKey) = some s := by
    simp only [World.step, idle, running]
    split <;> simp_all [newKeyring, parseKeys]
  induction n with
  | zero => rfl
  | succ n ih => exact (exec_cons _ _ _ _ _).mpr ⟨_, refused, ih⟩

/-- Whatever failed before, a call that finds the running keyring on another key than the new one,
and in which nothing fails, ends with every stored value on the new key and no retired key in the
config. -/
theorem finishes_from_other_key (nonces : Nat → Bytes) {start : World C}
    (running : start.Running env ring) (told : start.Told)
    (apart : ∀ cfg ∈ start.config, Distinct (keysOf C env cfg)) (readable : start.Readable)
    {before : List Label} {newKey : String} {k : C.Key}
    (quiet : ∀ l ∈ before, l.saves = false)
    (careful : AllSteps (World.step env) (World.Careful env) start (before ++ [.begin_ newKey]))
    (reached : exec (World.step env) start before = some s) (idle : s.change = .idle)
    (parsed : C.parse newKey = some k) (other : ∀ r ∈ s.keyring, C.keyID k ≠ C.keyID r.primary) :
    ∃ u t, s.step env (.begin_ newKey) = some u ∧ u.Goes env nonces t ∧ t.Moved newKey := by
  obtain ⟨cfg, sound⟩ := running.sound told apart
  obtain ⟨careful₁, ⟨fresh, _⟩⟩ := allSteps_append _ _ start s before _ reached careful
  obtain ⟨⟨cfg₁, ring₁, sound₁⟩, keeps⟩ := sound.run quiet careful₁ reached
  obtain ⟨primary, current⟩ := Option.isSome_iff_exists.mp sound₁.valid.primary
  have begun : s.step env (.begin_ newKey) =
      some { s with change := .begun ⟨newKey, cfg₁.dataKey :: cfg₁.retired⟩ } := by
    simp [World.step, idle, sound₁.keyring, sound₁.config, (parse_ne_empty current).1, newKeyring,
      parsed, parseKeys, other ring₁ sound₁.keyring]
  obtain ⟨sound₂, keyring, stores⟩ := begin_step sound₁ fresh begun
  have readable₂ := (World.Keeps.of_eq keyring stores).readable (keeps.readable readable)
  obtain ⟨s₃, ring₃, goes₃, sound₃, readable₃, listing⟩ := sound₂.switched readable₂ rfl
  obtain ⟨s₄, goes₄, sound₄, rewritten⟩ :=
    sound₃.stores_done _ readable₃ listing (Nat.zero_add _)
  obtain ⟨t, goes, moved⟩ := sound₄.dropped rewritten
  exact ⟨_, t, begun, goes₃.trans (goes₄.trans goes), moved⟩

end

open Sample in
/-- A change that stopped at a store: every further call with its key leaves everything as it is. -/
theorem repeat_refused : ∃ s, exec (World.step []) start stopped = some s ∧
    (∀ n, exec (World.step []) s (List.replicate n (.begin_ keyB)) = some s) ∧
    s.config = some ⟨keyB, [keyA]⟩ ∧
    (s.keyring.bind fun r => (s.credential cell).map r.needsRotation) = some true :=
  ⟨_, rfl, repeated_leaves rfl rfl rfl rfl, rfl, by decide⟩

open Sample in
/-- After a change whose config could not be saved, the next call finishes. -/
theorem finishes_after_failed_save :
    ∃ s, exec (World.step []) start [.begin_ keyB, .saveNew .failed] = some s ∧
      ∃ u t, s.step [] (.begin_ keyB) = some u ∧ u.Goes [] noNonces t ∧ t.Moved keyB := by
  have opens : ∀ st ∈ start.stores, ∀ row ∈ st.rows, ∀ v ∈ row.values,
      (start.keyring.bind fun r => r.decrypt v).isSome := by decide
  have running : start.Running [] _ := ⟨rfl, rfl, by decide⟩
  have failed : exec (World.step []) start [.begin_ keyB, .saveNew .failed] = some start := rfl
  refine ⟨start, failed, finishes_from_other_key noNonces running told_start (by decide) ?_
    (by decide) (by decide) failed rfl rfl (by decide)⟩
  intro c stored
  obtain ⟨v, here⟩ := Option.isSome_iff_exists.mp stored
  obtain ⟨st, row, at_, found, value⟩ := World.credential_eq.mp here
  rw [World.reads, here]
  exact opens st (mem_of_getElem? at_) row (Tables.Table.mem_of_lookup found) v
    (mem_of_getElem? value)

end Panmail.Secrets
