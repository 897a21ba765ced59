import Panmail.Auth.ApiKeys

/-!
# A revoked key is refused at once

A verification that starts after an edit of its key returned answers from a version of the
table that has the edit, as long as no fill of the cache is overtaken: a verification that
read the key before the edit and fills after the eviction puts the old key back.
-/
namespace Panmail.Auth

open Tables Caches Runs List KeyService

/-- A version that has every edit of the key among `edits`. -/
def After (edits : List Returned) (k : ApiKey) (version : Nat) : Prop :=
  ∀ x ∈ edits, x.id = k.id → x.tenantID = k.tenantID → x.version ≤ version

instance (edits : List Returned) (k : ApiKey) (version : Nat) :
    Decidable (After edits k version) :=
  inferInstanceAs (Decidable (∀ x ∈ edits, _))

/-- The key is a row of the table in a version that has its `edits`. -/
def Held (s : KeyService) (edits : List Returned) (k : ApiKey) : Prop :=
  Since s.versions (fun t => t.lookup k.id) (After edits k) k

/-- The edits of the key that have evicted were in the table when a fill's verification read it, and
an edit that could not read the hash has nothing to evict. -/
def notOvertaken (s : KeyService) : KeyAction → Bool
  | .fill j _ => s.calls[j]?.all fun c => match c.phase with
    | .read key version => After s.returned key version
    | _ => true
  | .forget i => s.edits[i]?.all fun e => match e.phase with
    | .evicting hash _ => hash ≠ "" || s.verified.entries.all fun x => !e.edit.names x.2.value
    | _ => true
  | _ => true

/-! ### The invariant -/

/-- The hash an edit will evict is the one its key was minted with, if it has one. -/
def Evictable (s : KeyService) (e : Edit) (hash : String) : Prop :=
  hash = "" ∨ ⟨e.id, e.tenantID, hash⟩ ∈ s.issued

def EditCall.Known (s : KeyService) (e : EditCall) : Prop :=
  match e.phase with
  | .looked hash => Evictable s e.edit hash
  | .ran version => version < s.versions.length
  | .evicting hash version => Evictable s e.edit hash ∧ version < s.versions.length
  | .waiting | .returned | .failed => True

def VerifyCall.Sound (s : KeyService) (c : VerifyCall) : Prop :=
  match c.phase with
  | .read key version => key.keyHash = c.keyHash ∧ key.isEnabled = true ∧
      After c.before key version ∧ ∃ t, s.versions[version]? = some t ∧ key ∈ t.rows
  | .accepted key => key.keyHash = c.keyHash ∧ key.isEnabled = true ∧ Held s c.before key
  | .waiting | .lapsed | .missed | .refused _ => True

structure Tracked (s : KeyService) : Prop where
  current : ∃ past, s.versions = past ++ [s.keys]
  unique : (s.issued.map Minted.id).Nodup
  minted : ∀ t ∈ s.versions, ∀ k ∈ t.rows, k.minted ∈ s.issued
  returned : ∀ x ∈ s.returned, x.version < s.versions.length
  edits : ∀ e ∈ s.edits, e.Known s
  /-- Every cached key was in the table, enabled, after the edits of it that have returned. -/
  cached : s.verified.Coherent 0 fun keyHash k =>
    k.keyHash = keyHash ∧ k.isEnabled = true ∧ Held s s.returned k
  started : ∀ c ∈ s.calls, ∀ x ∈ c.before, x ∈ s.returned
  sound : ∀ c ∈ s.calls, c.Sound s

theorem tracked_init : Tracked KeyService.init where
  current := ⟨[], rfl⟩
  unique := nodup_nil
  minted := by
    intro t mem k row
    rw [mem_singleton.mp mem] at row
    cases row
  returned := nofun
  edits := nofun
  cached := coherent_empty
  started := nofun
  sound := nofun

/-! ### What stays known -/

/-- The table went through more versions and more keys were minted. -/
structure Grows (s t : KeyService) : Prop where
  versions : ∃ more, t.versions = s.versions ++ more
  issued : ∀ x ∈ s.issued, x ∈ t.issued

variable {hash : String} {j i : Nat}

section
variable {s t : KeyService} {k : ApiKey} {e : EditCall} {c : VerifyCall} {table : KeyTable}

theorem Grows.length (grows : Grows s t) : s.versions.length ≤ t.versions.length := by
  obtain ⟨more, versions⟩ := grows.versions
  rw [versions, length_append]
  exact Nat.le_add_right _ _

theorem Held.grow {edits : List Returned} (held : Held s edits k) (grows : Grows s t) :
    Held t edits k := by
  obtain ⟨more, versions⟩ := grows.versions
  rw [Held, versions]
  exact Since.grow held more

theorem Evictable.grow {e : Edit} (evictable : Evictable s e hash)
    (grows : Grows s t) : Evictable t e hash :=
  evictable.imp_right (grows.issued _)

theorem EditCall.Known.grow (known : e.Known s) (grows : Grows s t) : e.Known t := by
  unfold EditCall.Known at known ⊢
  split <;> rename_i phase <;> simp only [phase] at known ⊢
  · exact known.grow grows
  · exact Nat.lt_of_lt_of_le known grows.length
  · exact ⟨known.1.grow grows, Nat.lt_of_lt_of_le known.2 grows.length⟩

theorem VerifyCall.Sound.grow (sound : c.Sound s) (grows : Grows s t) : c.Sound t := by
  unfold VerifyCall.Sound at sound ⊢
  split <;> rename_i phase <;> simp only [phase] at sound ⊢
  · obtain ⟨hash, enabled, after, table, read, row⟩ := sound
    obtain ⟨more, versions⟩ := grows.versions
    exact ⟨hash, enabled, after, table, versions ▸ getElem?_append_of read, row⟩
  · exact ⟨sound.1, sound.2.1, sound.2.2.grow grows⟩

theorem Tracked.commit (inv : Tracked s) {issued : List Minted}
    (unique : (issued.map Minted.id).Nodup) (more : ∀ x ∈ s.issued, x ∈ issued)
    (rows : ∀ k ∈ table.rows, k.minted ∈ issued) :
    Tracked { s.commit table with issued := issued } := by
  have grows : Grows s { s.commit table with issued := issued } := ⟨⟨[table], rfl⟩, more⟩
  refine ⟨⟨s.versions, rfl⟩, unique, ?_, ?_, ?_, ?_, inv.started, ?_⟩
  · exact forall_mem_concat (fun t old k row => more _ (inv.minted t old k row)) rows
  · exact fun x mem => Nat.lt_of_lt_of_le (inv.returned x mem) grows.length
  · exact fun e mem => (inv.edits e mem).grow grows
  · exact inv.cached.change fun keyHash k _ facts => ⟨facts.1, facts.2.1, facts.2.2.grow grows⟩
  · exact fun c mem => (inv.sound c mem).grow grows

theorem Tracked.rows (inv : Tracked s) (row : k ∈ s.keys.rows) : k.minted ∈ s.issued := by
  obtain ⟨past, versions⟩ := inv.current
  exact inv.minted s.keys (by simp [versions]) k row

theorem minted_run {e : Edit} (row : k ∈ (e.run table).rows) :
    ∃ old ∈ table.rows, old.minted = k.minted := by
  unfold Edit.run at row
  split at row
  case h_4 => exact ⟨k, (Table.mem_deleteWhere.mp row).1, rfl⟩
  all_goals
    obtain ⟨old, mem, rfl⟩ := mem_map.mp row
    refine ⟨old, mem, ?_⟩
    split <;> rfl

theorem Tracked.edited (inv : Tracked s) (e : Edit) : Tracked (s.commit (e.run s.keys)) := by
  refine inv.commit inv.unique (fun x mem => mem) fun k row => ?_
  obtain ⟨old, mem, same⟩ := minted_run row
  exact same ▸ inv.rows mem

theorem Tracked.move (inv : Tracked s) (found : s.calls[j]? = some c) {phase : VerifyPhase}
    (sound : VerifyCall.Sound s { c with phase := phase }) : Tracked (s.move j c phase) :=
  { inv with
    started := forall_mem_set inv.started (inv.started c (mem_of_getElem? found))
    sound := forall_mem_set inv.sound sound }

theorem Tracked.advance (inv : Tracked s) {phase : EditPhase}
    (known : EditCall.Known s { e with phase := phase }) : Tracked (s.advance i e phase) :=
  { inv with edits := forall_mem_set inv.edits known }

theorem Tracked.cache (inv : Tracked s) {verified : Cache String ApiKey}
    (cached : verified.Coherent 0 fun keyHash k =>
      k.keyHash = keyHash ∧ k.isEnabled = true ∧ Held s s.returned k) :
    Tracked { s with verified := verified } :=
  { inv with cached := cached }

theorem Tracked.evictable (inv : Tracked s) (e : Edit) (failed : Bool) :
    Evictable s e (s.hashOf e failed) := by
  unfold hashOf
  split
  · exact .inl rfl
  · split
    next key found =>
      obtain ⟨row, tenant⟩ := Option.filter_eq_some_iff.mp found
      have minted := inv.rows (Table.mem_of_lookup row)
      rw [ApiKey.minted, Table.key_of_lookup row, of_decide_eq_true tenant] at minted
      exact .inr minted
    · exact .inl rfl

end

/-! ### Steps -/

theorem checkKey_ok {now : Nat} {found : Option ApiKey} {key : ApiKey}
    (passed : checkKey now found = .ok key) : found = some key ∧ key.isEnabled = true := by
  unfold checkKey at passed
  split at passed
  · cases passed
  split at passed
  · cases passed
  next enabled =>
    split at passed
    · cases passed
    cases passed
    exact ⟨rfl, by simpa using enabled⟩

section
variable {s t : KeyService}

section
variable (inv : Tracked s) {failed : Bool} {clock now : Nat}
include inv

theorem tracked_create {minted : Minted} {name : String} {scopes : List Scope}
    {expiresAt : Option Nat} (h : s.step (.create minted name scopes expiresAt) = some t) :
    Tracked t := by
  simp only [step] at h
  split at h
  · cases h
  next fresh =>
    obtain ⟨table, inserted, rfl⟩ := Option.map_eq_some_iff.mp h
    obtain ⟨rows, _⟩ := Table.insert?_rows inserted
    refine inv.commit ?_ (fun x mem => mem_append_left _ mem) ?_
    · exact nodup_push inv.unique fun x mem same => fresh (same ▸ mem_map_of_mem mem)
    · rw [rows]
      exact forall_mem_concat (fun k old => mem_append_left _ (inv.rows old))
        (mem_append_right _ mem_cons_self)

theorem tracked_lookup (h : s.step (.lookup i failed) = some t) : Tracked t := by
  simp only [step] at h
  split at h
  next e found =>
    obtain ⟨phase, next_, rfl⟩ := Option.map_eq_some_iff.mp h
    have known := inv.edits e (mem_of_getElem? found)
    have evictable := inv.evictable e.edit failed
    refine inv.advance ?_
    unfold KeyService.lookup at next_
    split at next_
    · cases next_
      split
      · trivial
      · exact evictable
    · cases next_
      exact evictable
    next version ran _ =>
      cases next_
      rw [EditCall.Known, ran] at known
      exact ⟨evictable, known⟩
    next version ran _ =>
      cases next_
      rw [EditCall.Known, ran] at known
      exact ⟨evictable, known⟩
    · cases next_
  · cases h

theorem tracked_exec {ran : Bool} (h : s.step (.exec i failed ran) = some t) :
    Tracked t := by
  simp only [step] at h
  split at h
  next e found =>
    obtain ⟨phase, next_, rfl⟩ := Option.map_eq_some_iff.mp h
    cases failed with
    | true =>
      refine Tracked.advance ?_ trivial
      split
      · exact inv.edited e.edit
      · exact inv
    | false =>
      simp only [Bool.not_false, Bool.or_true, if_true, Bool.false_eq_true, if_false]
      refine (inv.edited e.edit).advance ?_
      have known := inv.edits e (mem_of_getElem? found)
      have grows : Grows s (s.commit (e.edit.run s.keys)) :=
        ⟨⟨[e.edit.run s.keys], rfl⟩, fun x mem => mem⟩
      have inside : s.versions.length < (s.commit (e.edit.run s.keys)).versions.length := by
        simp [commit]
      unfold executed at next_
      split at next_
      next hash looked _ =>
        cases next_
        rw [EditCall.Known, looked] at known
        split
        · exact ⟨Evictable.grow known grows, inside⟩
        · trivial
      next hash looked _ =>
        cases next_
        rw [EditCall.Known, looked] at known
        exact ⟨Evictable.grow known grows, inside⟩
      · cases next_
        exact inside
      · cases next_
        exact inside
      · cases next_
  · cases h

/-- After an eviction no cached key is one the edit was about. -/
theorem edit_gone {e : Edit} (evictable : Evictable s e hash)
    (blind : hash = "" → ∀ x ∈ s.verified.entries, e.names x.2.value = false) :
    (if hash = "" then s.verified else s.verified.without hash).Coherent 0 fun keyHash k =>
      (k.keyHash = keyHash ∧ k.isEnabled = true ∧ Held s s.returned k) ∧ e.names k = false := by
  split
  next empty => exact fun x mem live => ⟨inv.cached x mem live, blind empty x mem⟩
  next known =>
    have minted := evictable.resolve_left known
    refine inv.cached.without fun keyHash k away facts => ⟨facts, ?_⟩
    -- the key was minted with the hash it is cached under, so the edit is about another
    obtain ⟨version, table, _, stored, row⟩ := facts.2.2
    have own := inv.minted table (mem_of_getElem? stored) k (Table.mem_of_lookup row)
    simp only [Edit.names, Bool.and_eq_false_iff, decide_eq_false_iff_not]
    by_contra! both
    have same : k.minted = ⟨e.id, e.tenantID, hash⟩ :=
      inj_on_of_nodup_map inv.unique own minted both.1
    exact away (facts.1.symm.trans (congrArg Minted.keyHash same))

theorem tracked_forget (calm : notOvertaken s (.forget i) = true)
    (h : s.step (.forget i) = some t) : Tracked t := by
  simp only [step] at h
  split at h
  next e found =>
    split at h <;> cases h
    next hash version evicting =>
      have known := inv.edits e (mem_of_getElem? found)
      rw [EditCall.Known, evicting] at known
      have blind : hash = "" → ∀ x ∈ s.verified.entries, e.edit.names x.2.value = false := by
        simpa [notOvertaken, found, evicting, or_iff_not_imp_left] using calm
      refine ⟨inv.current, inv.unique, inv.minted, ?_, ?_, ?_, ?_, inv.sound⟩
      · exact forall_mem_concat inv.returned known.2
      · exact forall_mem_set inv.edits trivial
      · refine (edit_gone inv known.1 blind).change fun keyHash k _ facts => ?_
        obtain ⟨⟨hashed, enabled, held⟩, other⟩ := facts
        refine ⟨hashed, enabled, held.mono fun n after x mem id tenant => ?_⟩
        rcases mem_append.mp mem with old | new
        · exact after x old id tenant
        · rw [mem_singleton.mp new] at id tenant
          simp [Edit.names, ← id, ← tenant] at other
      · exact fun c mem x listed => mem_append_left _ (inv.started c mem x listed)
  · cases h

theorem tracked_cacheGet (h : s.step (.cacheGet j clock now) = some t) : Tracked t := by
  simp only [step] at h
  split at h
  next c found =>
    split at h
    · cases h
      have live := inv.cached.later (Nat.zero_le clock)
      refine (inv.move found ?_).cache inv.cached.get
      split
      next key hit =>
        obtain ⟨hashed, enabled, held⟩ := live.hit hit
        split
        · trivial
        · refine ⟨hashed, enabled, held.mono fun n after x mem => ?_⟩
          exact after x (inv.started c (mem_of_getElem? found) x mem)
      · trivial
    · cases h
  · cases h

theorem tracked_getByHash {failed : Option String}
    (h : s.step (.getByHash j failed now) = some t) : Tracked t := by
  simp only [step] at h
  split at h
  next c found =>
    split at h
    · cases h
      refine inv.move found ?_
      split
      · trivial
      · split
        · trivial
        next key passed =>
          obtain ⟨row, enabled⟩ := checkKey_ok passed
          obtain ⟨past, versions⟩ := inv.current
          refine ⟨by simpa using find?_some row, enabled, ?_, s.keys, ?_, ?_⟩
          · intro x mem _ _
            have old := inv.started c (mem_of_getElem? found) x mem
            exact Nat.le_sub_one_of_lt (inv.returned x old)
          · simp [versions]
          · exact mem_of_find?_eq_some row
    · cases h
  · cases h

theorem tracked_fill (calm : notOvertaken s (.fill j clock) = true)
    (h : s.step (.fill j clock) = some t) : Tracked t := by
  simp only [step] at h
  split at h
  next c found =>
    split at h <;> cases h
    next key version read =>
      have sound := inv.sound c (mem_of_getElem? found)
      rw [VerifyCall.Sound, read] at sound
      obtain ⟨hashed, enabled, after, table, stored, row⟩ := sound
      have lookup : table.lookup key.id = some key := Table.lookup_iff.mpr ⟨row, rfl⟩
      have recent : After s.returned key version := by simpa [notOvertaken, found, read] using calm
      refine (inv.move found ?_).cache ?_
      · exact ⟨hashed, enabled, version, table, after, stored, lookup⟩
      · exact inv.cached.put ⟨hashed, enabled, version, table, recent, stored, lookup⟩
  · cases h

end

theorem Tracked.step {a : KeyAction} (calm : notOvertaken s a = true) (inv : Tracked s)
    (h : s.step a = some t) : Tracked t := by
  cases a with
  | create => exact tracked_create inv h
  | elsewhere e =>
    cases h
    exact inv.edited e
  | edit =>
    cases h
    exact { inv with edits := forall_mem_concat inv.edits trivial }
  | lookup => exact tracked_lookup inv h
  | exec => exact tracked_exec inv h
  | forget => exact tracked_forget inv calm h
  | verify =>
    cases h
    exact { inv with
      started := forall_mem_concat inv.started fun x listed => listed
      sound := forall_mem_concat inv.sound trivial }
  | cacheGet => exact tracked_cacheGet inv h
  | cacheDelete j =>
    simp only [KeyService.step] at h
    split at h
    next c found =>
      split at h
      · cases h
        have moved : Tracked (s.move j c .missed) := inv.move found trivial
        exact moved.cache (inv.cached.without fun keyHash k _ facts => facts)
      · cases h
    · cases h
  | getByHash => exact tracked_getByHash inv h
  | fill => exact tracked_fill inv calm h

end

/-- In every interleaving of verifications and edits in which no fill is overtaken, an accepted key
is a row the table held, enabled, in a version with every edit of the key that had returned when the
verification started. -/
theorem verified_after_edits (as : List KeyAction) (s : KeyService)
    (run : exec KeyService.step KeyService.init as = some s)
    (along : AllSteps KeyService.step (fun s a => notOvertaken s a = true) KeyService.init as)
    (c : VerifyCall) (member : c ∈ s.calls) (key : ApiKey) (accepted : c.phase = .accepted key) :
    key.keyHash = c.keyHash ∧ key.isEnabled = true ∧
      ∃ version table, s.versions[version]? = some table ∧ key ∈ table.rows ∧
        ∀ x ∈ c.before, x.id = key.id → x.tenantID = key.tenantID → x.version ≤ version := by
  have inv := invariant_along KeyService.step (fun s a => notOvertaken s a = true) Tracked
    (fun _ _ _ calm inv h => inv.step calm h) KeyService.init s as tracked_init along run
  have sound := inv.sound c member
  rw [VerifyCall.Sound, accepted] at sound
  obtain ⟨hashed, enabled, version, table, after, stored, row⟩ := sound
  exact ⟨hashed, enabled, version, table, stored, Table.mem_of_lookup row, after⟩

/-- A key that may send and read templates is verified and cached, then narrowed to sending,
then verified again. -/
def narrowTrace : List KeyAction :=
  [.create ⟨"k", "t", "h"⟩ "ci" [.emailSend, .templatesRead] none,
    .verify "h", .cacheGet 0 1 1, .getByHash 0 none 1, .fill 0 2,
    .edit ⟨"k", "t", .update "ci" [.emailSend]⟩, .lookup 0 false, .exec 0 false true, .forget 0,
    .verify "h", .cacheGet 1 3 3, .getByHash 1 none 3, .fill 1 4]

/-- The second verification answers with the new grant. -/
theorem verified_after_edits_narrowed : ∃ s c key,
    exec KeyService.step KeyService.init narrowTrace = some s ∧
      AllSteps KeyService.step (fun s a => notOvertaken s a = true) KeyService.init narrowTrace ∧
      c ∈ s.calls ∧ c.before = [⟨"k", "t", 2⟩] ∧ c.phase = .accepted key ∧
      key.scopes = [.emailSend] ∧ key.keyHash = c.keyHash ∧ key.isEnabled = true ∧
      ∃ version table, s.versions[version]? = some table ∧ key ∈ table.rows ∧
        ∀ x ∈ c.before, x.id = key.id → x.tenantID = key.tenantID → x.version ≤ version := by
  have runs : ∃ s ∈ exec KeyService.step KeyService.init narrowTrace,
      s.calls[1]? = some ⟨"h", .accepted ⟨"k", "t", "ci", "h", [.emailSend], none, true⟩,
        [⟨"k", "t", 2⟩]⟩ := by decide
  have along : AllSteps KeyService.step (fun s a => notOvertaken s a = true) KeyService.init
      narrowTrace := by decide
  obtain ⟨s, run, found⟩ := runs
  have member := mem_of_getElem? found
  exact ⟨s, _, _, run, along, member, rfl, rfl, rfl,
    verified_after_edits _ s run along _ member _ rfl⟩

/-- A verification reads an enabled key; the key is disabled and evicted; the verification
fills the cache; another starts. -/
def staleVerifyTrace : List KeyAction :=
  [.create ⟨"k", "t", "h"⟩ "ci" [.emailSend] none,
    .verify "h", .cacheGet 0 1 1, .getByHash 0 none 1,
    .edit ⟨"k", "t", .disable⟩, .exec 0 false true, .lookup 0 false, .forget 0,
    .fill 0 2, .verify "h", .cacheGet 1 3 3]

/-- It started after the disable returned and accepts the key, which the table has disabled from
that version on. -/
theorem disabled_key_accepted : ∃ s c key,
    exec KeyService.step KeyService.init staleVerifyTrace = some s ∧ c ∈ s.calls ∧
      c.before = [⟨"k", "t", 2⟩] ∧ c.phase = .accepted key ∧ key.id = "k" ∧
      key.tenantID = "t" ∧ key.isEnabled = true ∧
      ∀ table ∈ s.versions.drop 2, ∀ k ∈ table.rows, k.isEnabled = false := by
  have runs : ∃ s ∈ exec KeyService.step KeyService.init staleVerifyTrace,
      s.calls[1]? = some ⟨"h", .accepted ⟨"k", "t", "ci", "h", [.emailSend], none, true⟩,
        [⟨"k", "t", 2⟩]⟩ ∧
      ∀ table ∈ s.versions.drop 2, ∀ k ∈ table.rows, k.isEnabled = false := by decide
  obtain ⟨s, run, found, disabled⟩ := runs
  exact ⟨s, _, _, run, mem_of_getElem? found, rfl, rfl, rfl, rfl, rfl, disabled⟩

end Panmail.Auth
