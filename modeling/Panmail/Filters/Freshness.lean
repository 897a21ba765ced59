import Panmail.Filters.RuleStore

/-!
# A rule change takes effect at once

An `Enabled` that starts after a write of its tenant's rules returned answers with what the
table held at some moment since, whatever was in flight: a fill that read the table before
the write finds the generation moved on.
-/
namespace Panmail.Filters

open Tables Caches Runs List Nat RuleStore
open Outbox (Direction)

theorem enabledKey_inj {tenantID other : String} {direction towards : Direction}
    (same : enabledKey tenantID direction = enabledKey other towards) :
    tenantID = other ∧ direction = towards := by
  have lists := congrArg String.toList same
  simp only [enabledKey, String.toList_append] at lists
  cases direction <;> cases towards
  · exact ⟨String.toList_inj.mp (append_cancel_right (append_cancel_right lists)), rfl⟩
  · -- the last eight characters differ: the bar of the one is a letter of the other
    rw [append_assoc] at lists
    have tails := (append_inj' lists (by decide)).2
    exact absurd tails (by decide)
  · rw [append_assoc other.toList] at lists
    have tails := (append_inj' lists (by decide)).2
    exact absurd tails (by decide)
  · exact ⟨String.toList_inj.mp (append_cancel_right (append_cancel_right lists)), rfl⟩

theorem compileRules_ok {compile : Compile} {rules compiled : List Rule}
    (ok : compileRules compile rules = .ok compiled) : compiled = rules := by
  induction rules generalizing compiled with
  | nil =>
    cases ok
    rfl
  | cons _ rest ih =>
    simp only [compileRules] at ok
    split at ok
    · cases ok
    cases tail : compileRules compile rest with
    | error =>
      rw [tail] at ok
      cases ok
    | ok =>
      rw [tail] at ok
      cases ok
      rw [ih tail]

/-- A version that has every write of the tenant among `writes`. -/
def After (writes : List (String × Nat)) (tenantID : String) (version : Nat) : Prop :=
  ∀ n, (tenantID, n) ∈ writes → n ≤ version

/-- The rules are those of the table in a version that has the tenant's `writes`. -/
def Reflects (s : RuleStore) (writes : List (String × Nat)) (tenantID : String)
    (direction : Direction) (rules : List Rule) : Prop :=
  Since s.versions (fun t => some (enabledRules t tenantID direction)) (After writes tenantID) rules

/-! ### The invariant -/

def EnabledCall.Sound (s : RuleStore) (c : EnabledCall) : Prop :=
  match c.phase with
  | .waiting | .missed => True
  | .stamped generation => generation ≤ s.generation
  | .read generation rules version => generation ≤ s.generation ∧
      (∃ t, s.versions[version]? = some t ∧ enabledRules t c.tenantID c.direction = rules) ∧
      After c.before c.tenantID version ∧
      (generation = s.generation → After s.returned c.tenantID version)
  | .answered (.ok rules) => Reflects s c.before c.tenantID c.direction rules
  | .answered (.error _) => True

structure Fresh (s : RuleStore) : Prop where
  current : ∃ past, s.versions = past ++ [s.rules]
  written : ∀ w ∈ s.writes, w.version < s.versions.length
  returned : ∀ x ∈ s.returned, x.2 < s.versions.length
  /-- Every cached list has the writes that have returned. -/
  cached : s.enabled.Coherent 0 fun key rules => ∀ tenantID direction,
    key = enabledKey tenantID direction → Reflects s s.returned tenantID direction rules
  started : ∀ c ∈ s.calls, ∀ x ∈ c.before, x ∈ s.returned
  sound : ∀ c ∈ s.calls, c.Sound s

theorem fresh_init : Fresh RuleStore.init where
  current := ⟨[], rfl⟩
  written := nofun
  returned := nofun
  cached := coherent_empty
  started := nofun
  sound := nofun

section
variable {s t : RuleStore} {more : List RuleTable} {c : EnabledCall}

theorem Reflects.grow {writes : List (String × Nat)} {tenantID : String} {direction : Direction}
    {rules : List Rule} (reflects : Reflects s writes tenantID direction rules)
    (versions : t.versions = s.versions ++ more) :
    Reflects t writes tenantID direction rules := by
  rw [Reflects, versions]
  exact Since.grow reflects more

/-- A call stays sound when the table changes, and when a write returns: the generation has moved,
so what was read will not be cached. -/
theorem EnabledCall.Sound.later (sound : c.Sound s) (versions : t.versions = s.versions ++ more)
    (moved : t.generation = s.generation ∧ t.returned = s.returned ∨
      s.generation < t.generation) : c.Sound t := by
  have older {generation : Nat} (le : generation ≤ s.generation) : generation ≤ t.generation := by
    rcases moved with ⟨same, _⟩ | lt
    · exact same ▸ le
    · exact le_of_lt (lt_of_le_of_lt le lt)
  unfold EnabledCall.Sound at sound ⊢
  split
  · trivial
  · trivial
  next generation phase =>
    rw [phase] at sound
    exact older sound
  next generation rules version phase =>
    rw [phase] at sound
    obtain ⟨le, ⟨table, read, answer⟩, after, current⟩ := sound
    refine ⟨older le, ⟨table, versions ▸ getElem?_append_of read, answer⟩, after, fun same => ?_⟩
    rcases moved with ⟨generations, returned⟩ | lt
    · rw [returned]
      exact current (same.trans generations)
    · rw [same] at le
      exact absurd lt (not_lt.mpr le)
  next rules phase =>
    rw [phase] at sound
    exact sound.grow versions
  · trivial

theorem Fresh.commit (inv : Fresh s) (w : RuleWrite) : Fresh (s.commit w) := by
  have versions : (s.commit w).versions = s.versions ++ [w.run s.rules] := rfl
  have longer : s.versions.length ≤ (s.commit w).versions.length := by
    rw [versions, length_append]
    exact le_add_right _ _
  refine ⟨⟨s.versions, rfl⟩, ?_, ?_, ?_, inv.started, ?_⟩
  · exact fun x mem => lt_of_lt_of_le (inv.written x mem) longer
  · exact fun x mem => lt_of_lt_of_le (inv.returned x mem) longer
  · exact inv.cached.change fun key rules _ holds tenantID direction named =>
      (holds tenantID direction named).grow versions
  · exact fun c mem => (inv.sound c mem).later versions (.inl ⟨rfl, rfl⟩)

theorem Fresh.move (inv : Fresh s) {j : Nat} (found : s.calls[j]? = some c) {phase : EnabledPhase}
    (sound : EnabledCall.Sound s { c with phase := phase }) : Fresh (s.move j c phase) := by
  have started := inv.started c (mem_of_getElem? found)
  refine { inv with started := forall_mem_set inv.started started, sound := ?_ }
  intro d mem
  rcases mem_set_other mem with rfl | ⟨k, _, entry⟩
  · exact sound
  · exact inv.sound d (mem_of_getElem? entry)

theorem Fresh.cache (inv : Fresh s) {enabled : Cache String (List Rule)}
    (cached : enabled.Coherent 0 fun key rules => ∀ tenantID direction,
      key = enabledKey tenantID direction → Reflects s s.returned tenantID direction rules) :
    Fresh { s with enabled := enabled } :=
  { inv with cached := cached }

theorem Fresh.versions_pos (inv : Fresh s) : 0 < s.versions.length := by
  obtain ⟨past, versions⟩ := inv.current
  rw [versions, length_append]
  exact succ_pos _

theorem Fresh.last (inv : Fresh s) (tenantID : String) :
    s.versions[s.versions.length - 1]? = some s.rules ∧
      After s.returned tenantID (s.versions.length - 1) := by
  constructor
  · obtain ⟨past, versions⟩ := inv.current
    simp [versions]
  · exact fun n mem => le_sub_one_of_lt (inv.returned _ mem)

end

section
variable {compile : Compile} {s t : RuleStore}

section
variable (inv : Fresh s) {j now : Nat}
include inv

theorem fresh_exec {w : RuleWrite} {ran : Bool} (h : s.step compile (.exec w ran) = some t) :
    Fresh t := by
  obtain ⟨_, taken⟩ := Option.ite_none_right_eq_some.mp h
  have after : Fresh (if ran then s.commit w else s) := by
    split
    · exact inv.commit w
    · exact inv
  have writes : (if ran then s.commit w else s).writes = s.writes := by split <;> rfl
  cases taken
  refine { after with written := ?_ }
  refine forall_mem_concat (fun x old => after.written x (writes ▸ old)) ?_
  exact sub_lt after.versions_pos one_pos

theorem fresh_invalidate {i : Nat} (h : s.step compile (.invalidate i) = some t) : Fresh t := by
  simp only [step] at h
  split at h
  next w found =>
    split at h
    · cases h
    cases h
    have version := inv.written w (mem_of_getElem? found)
    refine ⟨inv.current, ?_, ?_, ?_, ?_, ?_⟩
    · exact forall_mem_set inv.written version
    · exact forall_mem_concat inv.returned version
    · -- what is left is of another tenant, whose writes are the same as before
      have evicted : (s.enabled.without (enabledKey w.tenantID .inbound)).Coherent 0
          fun key rules => key ≠ enabledKey w.tenantID .inbound ∧
            ∀ tenantID direction, key = enabledKey tenantID direction →
              Reflects s s.returned tenantID direction rules :=
        inv.cached.without fun key rules away holds => ⟨away, holds⟩
      refine evicted.without ?_
      intro key rules outbound ⟨inbound, holds⟩ tenantID direction named
      have stranger : tenantID ≠ w.tenantID := by
        rintro rfl
        cases direction
        · exact inbound named
        · exact outbound named
      refine Since.mono (holds tenantID direction named) fun n after m mem => ?_
      rcases mem_append.mp mem with old | new
      · exact after m old
      · exact absurd (Prod.mk.inj (mem_singleton.mp new)).1 stranger
    · exact fun c mem x listed => mem_append_left _ (inv.started c mem x listed)
    · intro c mem
      exact (inv.sound c mem).later (append_nil _).symm (.inr (lt_succ_self _))
  · cases h

theorem fresh_cacheGet (h : s.step compile (.cacheGet j now) = some t) : Fresh t := by
  simp only [step] at h
  split at h
  next c found =>
    split at h <;> cases h
    next waiting =>
      have live := inv.cached.later (zero_le now)
      refine (inv.move found ?_).cache ?_
      · -- a hit has all the writes that have returned, so those before the call
        cases hit : (s.enabled.get now (enabledKey c.tenantID c.direction)).1 with
        | none => trivial
        | some =>
          refine Since.mono (live.hit hit c.tenantID c.direction rfl) fun n after m mem => ?_
          exact after m (inv.started c (mem_of_getElem? found) _ mem)
      · exact inv.cached.get
  · cases h

theorem fresh_query {failed : Option String}
    (h : s.step compile (.query j failed) = some t) : Fresh t := by
  simp only [step] at h
  split at h
  next c found =>
    split at h <;> cases h
    next generation stamped =>
      refine inv.move found ?_
      split
      · trivial
      · split
        · trivial
        next rules compiled =>
          have sound := inv.sound c (mem_of_getElem? found)
          rw [EnabledCall.Sound, stamped] at sound
          obtain ⟨last, after⟩ := inv.last c.tenantID
          refine ⟨sound, ⟨s.rules, last, (compileRules_ok compiled).symm⟩, ?_, fun _ => after⟩
          exact fun n mem => after n (inv.started c (mem_of_getElem? found) _ mem)
  · cases h

theorem fresh_fill (h : s.step compile (.fill j now) = some t) : Fresh t := by
  simp only [step] at h
  split at h
  next c found =>
    split at h <;> cases h
    next generation rules version read =>
      have sound := inv.sound c (mem_of_getElem? found)
      rw [EnabledCall.Sound, read] at sound
      obtain ⟨_, ⟨table, stored, answer⟩, after, current⟩ := sound
      refine (inv.move found ?_).cache ?_
      · exact ⟨version, table, after, stored, congrArg some answer⟩
      · split
        next same =>
          -- no write has returned since the call read the generation
          refine inv.cached.put fun tenantID direction named => ?_
          obtain ⟨rfl, rfl⟩ := enabledKey_inj named
          exact ⟨version, table, current same.symm, stored, congrArg some answer⟩
        · exact inv.cached
  · cases h

theorem Fresh.step {a : StoreAction} (h : s.step compile a = some t) : Fresh t := by
  cases a with
  | exec => exact fresh_exec inv h
  | invalidate => exact fresh_invalidate inv h
  | elsewhere w =>
    cases h
    exact inv.commit w
  | call =>
    cases h
    exact { inv with
      started := forall_mem_concat inv.started fun x listed => listed
      sound := forall_mem_concat inv.sound trivial }
  | cacheGet => exact fresh_cacheGet inv h
  | readGeneration =>
    simp only [RuleStore.step] at h
    split at h
    next c found =>
      split at h
      · cases h
        exact inv.move found (le_refl _)
      · cases h
    · cases h
  | query => exact fresh_query inv h
  | fill => exact fresh_fill inv h

end

/-- In every interleaving of writes, here and elsewhere, with calls of `Enabled`, a call that
answers with rules answers with those of one version of the table, which has every write of the
tenant that had returned when the call started. -/
theorem enabled_reflects_writes (compile : Compile) (as : List StoreAction) (s : RuleStore)
    (run : exec (RuleStore.step compile) RuleStore.init as = some s) (c : EnabledCall)
    (member : c ∈ s.calls) (rules : List Rule) (answered : c.phase = .answered (.ok rules)) :
    ∃ version table, s.versions[version]? = some table ∧
      rules = enabledRules table c.tenantID c.direction ∧
      ∀ n, (c.tenantID, n) ∈ c.before → n ≤ version := by
  have inv := invariant (RuleStore.step compile) Fresh (fun _ _ _ inv h => inv.step h)
    RuleStore.init s as fresh_init run
  have sound := inv.sound c member
  rw [EnabledCall.Sound, answered] at sound
  obtain ⟨version, table, after, read, answer⟩ := sound
  exact ⟨version, table, read, (Option.some.inj answer).symm, after⟩

end

def invoiceRule : Rule where
  id := "r"
  tenantID := "t"
  name := "invoices"
  direction := .outbound
  action := .hold
  priority := 0
  enabled := true
  conditions := [⟨.subject, .contains, ["invoice"], "", 0⟩]
  exceptions := []
  tag := ""

/-- A call reads the table, a `Create` returns, the call fills, and another call starts. -/
def staleFillTrace : List StoreAction :=
  [.call "t" .outbound, .cacheGet 0 1, .readGeneration 0, .query 0 none,
    .exec (.create invoiceRule) true, .invalidate 0, .fill 0 2,
    .call "t" .outbound, .cacheGet 1 3, .readGeneration 1, .query 1 none, .fill 1 4]

/-- The fill comes to nothing, and the second call has the rule. -/
theorem enabled_reflects_writes_staleFill : ∃ s c rules,
    exec (RuleStore.step fun _ => none) RuleStore.init staleFillTrace = some s ∧ c ∈ s.calls ∧
      c.before = [("t", 1)] ∧ c.phase = .answered (.ok rules) ∧ rules = [invoiceRule] ∧
      ∃ version table, s.versions[version]? = some table ∧
        rules = enabledRules table c.tenantID c.direction ∧
        ∀ n, (c.tenantID, n) ∈ c.before → n ≤ version := by
  have runs : ∃ s ∈ exec (RuleStore.step fun _ => none) RuleStore.init staleFillTrace,
      ∃ c ∈ s.calls[1]?, c.before = [("t", 1)] ∧ (match c.phase with
        | .answered (.ok rules) => decide (rules = [invoiceRule])
        | _ => false) = true := by decide
  obtain ⟨s, run, c, found, before, answer⟩ := runs
  have member := mem_of_getElem? found
  split at answer
  next rules answered =>
    exact ⟨s, c, rules, run, member, before, answered, of_decide_eq_true answer,
      enabled_reflects_writes _ _ s run c member rules answered⟩
  · cases answer

end Panmail.Filters
