import Panmail.Outbox.Review

/-!
# Expiry sweeps

`Expire` selects, updates and reads back in three statements. The update moves a record out of
PENDING at most once, but the read returns whatever is EXPIRED among the ids selected, and another
sweep may have moved it there. The calls' answers are kept as a history beside the world.
-/

namespace Panmail.Outbox

open Tables Runs List Table

/-! ### What a step does to the records and the sweeps -/

section
variable {lease : Time} {w t : World} {a : Action} {id : String}

theorem record_step (h : w.step lease a = some t) {new : FilteredMessage}
    (row : t.reviews.lookup id = some new) :
    (∃ old, w.reviews.lookup id = some old ∧ (new = old ∨ old.status = .pending)) ∨
      id ∉ w.recordIDs := by
  have decided {after : ReviewTable} {list : List (String × ReviewStatus)}
      (d : Decides w.reviews after list) (found : after.lookup id = some new) :
      ∃ old, w.reviews.lookup id = some old ∧ (new = old ∨ old.status = .pending) := by
    obtain ⟨old, before, _, ⟨same, _⟩ | here⟩ := d.before found
    · exact ⟨old, before, .inl same⟩
    · obtain ⟨_, m, stored, pending⟩ := d.pending _ here
      exact ⟨m, stored, .inr pending⟩
  cases step_cases h with
  | recordHold _ _ _ _ _ _ _ _ fresh inserted =>
    rcases lookup_insert?_cases inserted row with ⟨rfl, _⟩ | before
    · exact .inr fresh
    · exact .inl ⟨new, before, .inl rfl⟩
  | recordOther _ _ fresh _ _ inserted =>
    rcases lookup_insert?_cases inserted row with ⟨rfl, _⟩ | before
    · exact .inr fresh
    · exact .inl ⟨new, before, .inl rfl⟩
  | review _ _ decision reviewedBy now note won =>
    exact .inl (decided (decides_review won decision reviewedBy now note) row)
  | sweepUpdate _ sweep => exact .inl (decided (decides_expire w.reviews sweep.ids) row)
  | pruneFiltered => exact .inl ⟨new, lookup_of_deleteWhere row, .inl rfl⟩
  | _ => exact .inl ⟨new, row, .inl rfl⟩

theorem recordIDs_grow (h : w.step lease a = some t) (drawn : id ∈ w.recordIDs) :
    id ∈ t.recordIDs := by
  cases step_cases h with
  | recordHold | recordOther => exact mem_append_left _ drawn
  | _ => exact drawn

/-- What a step does to the sweeps. -/
inductive SweepsChange (w : World) (a : Action) (t : World) : Prop
  | same (sweeps : t.sweeps = w.sweeps)
      (quiet : ∀ i, a ≠ .sweepUpdate i ∧ a ≠ .sweepRead i)
  | selected (now : Time) (limit : Nat)
      (sweeps : t.sweeps = w.sweeps ++ [⟨dueForExpiry w.reviews now limit, .selected⟩])
      (quiet : ∀ i, a ≠ .sweepUpdate i ∧ a ≠ .sweepRead i)
  | updated (i : Nat) (sweep : Sweep) (taken : a = .sweepUpdate i)
      (found : w.sweeps[i]? = some sweep) (phase : sweep.phase = .selected)
      (sweeps : t.sweeps = w.sweeps.set i { sweep with phase := .updated })
  | read (i : Nat) (sweep : Sweep) (taken : a = .sweepRead i)
      (found : w.sweeps[i]? = some sweep) (phase : sweep.phase = .updated)
      (sweeps : t.sweeps = w.sweeps.set i { sweep with phase := .done })

theorem sweeps_change (h : w.step lease a = some t) : SweepsChange w a t := by
  cases step_cases h with
  | sweepSelect now => exact .selected now _ rfl fun _ => ⟨nofun, nofun⟩
  | sweepUpdate i sweep found selected => exact .updated i sweep rfl found selected rfl
  | sweepRead i sweep found updated => exact .read i sweep rfl found updated rfl
  | _ => exact .same rfl fun _ => ⟨nofun, nofun⟩

end

/-! ### What the calls moved and returned -/

/-- The records the update of a sweep moves to EXPIRED, under the call that runs it. -/
def World.moves (w : World) : Action → List (Nat × String)
  | .sweepUpdate i =>
    match w.sweeps[i]? with
    | some sweep => (w.reviews.selectWhere (FilteredMessage.expirable sweep.ids)).map
        fun m => (i, m.id)
    | none => []
  | _ => []

/-- The records a call of `Expire` returns. -/
def World.returns (w : World) : Action → List (Nat × FilteredMessage)
  | .sweepRead i =>
    match w.sweeps[i]? with
    | some sweep => (listExpired w.reviews sweep.ids).map fun m => (i, m)
    | none => []
  | _ => []

structure Swept where
  world : World
  /-- History: the calls that moved a record out of PENDING, each with the record. -/
  moved : List (Nat × String)
  /-- History: the records returned, each with the call that returned it. -/
  returned : List (Nat × FilteredMessage)

def Swept.init : Swept := ⟨World.init, [], []⟩

def Swept.step (lease : Time) (s : Swept) (a : Action) : Option Swept :=
  (s.world.step lease a).map fun w =>
    ⟨w, s.moved ++ s.world.moves a, s.returned ++ s.world.returns a⟩

/-- `ExpirySweeper.Expire` announces what the store returned to it, but for a record with no
tenant. -/
def Swept.announced (s : Swept) : List (Nat × FilteredMessage) :=
  s.returned.filter fun x => decide (x.2.tenantID ≠ "")

/-- And it discards the payload of an outbound hold. -/
def Swept.discarded (s : Swept) : List (Nat × FilteredMessage) :=
  s.returned.filter fun x => x.2.holdsOutbound

/-- What the comment on the repository's `Expire` promises. -/
structure ExpirySafety (s : Swept) : Prop where
  once : (s.returned.map fun x => x.2.id).Nodup
  own : ∀ i m, (i, m) ∈ s.returned → (i, m.id) ∈ s.moved
  announced : (s.announced.map fun x => x.2.id).Nodup
  discarded : (s.discarded.map fun x => x.2.id).Nodup

/-- The update of a sweep runs while none of the records it selected is EXPIRED yet. -/
def sweepsAlone (w : World) : Action → Bool
  | .sweepUpdate i =>
    match w.sweeps[i]? with
    | some sweep => (listExpired w.reviews sweep.ids).isEmpty
    | none => true
  | _ => true

/-! ### The invariant -/

/-- A sweep between its update and its read: of the records it selected those that are EXPIRED are
its own. -/
def Sweep.Sole (s : Swept) (i : Nat) (sweep : Sweep) : Prop :=
  ∀ id ∈ sweep.ids, ∀ m, s.world.reviews.lookup id = some m →
    m.status ≠ .pending ∧ (m.status = .expired → (i, id) ∈ s.moved)

structure Sweeping (s : Swept) : Prop where
  reviewed : Reviewed s.world
  drawn : ∀ sweep ∈ s.world.sweeps, ∀ id ∈ sweep.ids, id ∈ s.world.recordIDs
  logged : ∀ x ∈ s.moved, (x.2, .expired) ∈ s.world.transitions
  movedOnce : (s.moved.map Prod.snd).Nodup
  sole : ∀ (i : Nat) (sweep : Sweep), s.world.sweeps[i]? = some sweep →
    sweep.phase = .updated → sweep.Sole s i
  own : ∀ x ∈ s.returned, (x.1, x.2.id) ∈ s.moved ∧
    ∃ sweep : Sweep, s.world.sweeps[x.1]? = some sweep ∧ sweep.phase = .done
  once : (s.returned.map fun x => x.2.id).Nodup

theorem sweeping_init : Sweeping Swept.init where
  reviewed := ⟨known_init, queue_init, payload_init⟩
  drawn := nofun
  logged := nofun
  movedOnce := nodup_nil
  sole := fun _ _ found => nomatch found
  own := nofun
  once := nodup_nil

variable {reviews : ReviewTable}

theorem mem_dueForExpiry {now : Time} {limit : Nat} {id : String}
    (due : id ∈ dueForExpiry reviews now limit) : ∃ m, reviews.lookup id = some m := by
  obtain ⟨m, chosen, rfl⟩ := mem_map.mp due
  have listed := (mem_insertionSort _).mp (mem_of_mem_take chosen)
  exact ⟨m, lookup_iff.mpr ⟨(mem_selectWhere.mp listed).1, rfl⟩⟩

theorem mem_listExpired {ids : List String} {m : FilteredMessage} :
    m ∈ listExpired reviews ids ↔
      reviews.lookup m.id = some m ∧ m.status = .expired ∧ m.id ∈ ids := by
  rw [listExpired, mem_selectWhere, lookup_iff]
  simp

section
variable {lease : Time} {s : Swept} {a : Action} {w : World} {i : Nat}

theorem Sweep.Sole.step {sweep : Sweep} (sole : sweep.Sole s i)
    (drawn : ∀ id ∈ sweep.ids, id ∈ s.world.recordIDs) (h : s.world.step lease a = some w)
    {moved : List (Nat × String)} {returned : List (Nat × FilteredMessage)} :
    sweep.Sole ⟨w, s.moved ++ moved, returned⟩ i := by
  intro id selected new row
  rcases record_step h row with ⟨old, before, rfl | pending⟩ | fresh
  · have facts := sole id selected new before
    exact ⟨facts.1, fun expired => mem_append_left _ (facts.2 expired)⟩
  · exact absurd pending (sole id selected old before).1
  · exact absurd (drawn id selected) fresh

theorem moves_quiet (quiet : ∀ i, a ≠ .sweepUpdate i) : w.moves a = [] := by
  cases a with
  | sweepUpdate i => exact absurd rfl (quiet i)
  | _ => rfl

theorem returns_quiet (quiet : ∀ i, a ≠ .sweepRead i) : w.returns a = [] := by
  cases a with
  | sweepRead i => exact absurd rfl (quiet i)
  | _ => rfl

theorem sweeping_frame (inv : Sweeping s) (h : s.world.step lease a = some w)
    (quiet : ∀ i, a ≠ .sweepUpdate i ∧ a ≠ .sweepRead i) (more : List Sweep)
    (sweeps : w.sweeps = s.world.sweeps ++ more) (drawn : ∀ sweep ∈ more, sweep.phase = .selected ∧
      ∀ id ∈ sweep.ids, id ∈ s.world.recordIDs) :
    Sweeping ⟨w, s.moved ++ s.world.moves a, s.returned ++ s.world.returns a⟩ := by
  have noReturns : s.returned ++ s.world.returns a = s.returned := by
    rw [returns_quiet fun i => (quiet i).2, append_nil]
  have noMoves : s.moved ++ s.world.moves a = s.moved := by
    rw [moves_quiet fun i => (quiet i).1, append_nil]
  refine ⟨reviewed_step inv.reviewed h, ?_, ?_, ?_, ?_, ?_, ?_⟩
  · simp only [sweeps]
    refine forall_mem_append.mpr ⟨fun sweep old id selected => ?_, fun sweep new id selected => ?_⟩
    · exact recordIDs_grow h (inv.drawn sweep old id selected)
    · exact recordIDs_grow h ((drawn sweep new).2 id selected)
  · simp only [noMoves]
    exact fun x mem => (extends_step h).transitions _ (inv.logged x mem)
  · simp only [noMoves]
    exact inv.movedOnce
  · intro i sweep found updated
    simp only [sweeps] at found
    rcases Nat.lt_or_ge i s.world.sweeps.length with inside | beyond
    · rw [getElem?_append_left inside] at found
      exact (inv.sole i sweep found updated).step
        (inv.drawn sweep (mem_of_getElem? found)) h
    · rw [getElem?_append_right beyond] at found
      rw [(drawn sweep (mem_of_getElem? found)).1] at updated
      cases updated
  · simp only [noReturns, noMoves, sweeps]
    intro x mem
    obtain ⟨mine, sweep, found, done⟩ := inv.own x mem
    exact ⟨mine, sweep, getElem?_append_of found, done⟩
  · simp only [noReturns]
    exact inv.once

theorem sweeping_update (inv : Sweeping s)
    (alone : sweepsAlone s.world (.sweepUpdate i) = true)
    (h : s.world.step lease (.sweepUpdate i) = some w) :
    Sweeping ⟨w, s.moved ++ s.world.moves (.sweepUpdate i),
      s.returned ++ s.world.returns (.sweepUpdate i)⟩ := by
  have reviewed := reviewed_step inv.reviewed h
  have extended := extends_step h
  have stays : ∀ j sweep, Sweep.Sole s j sweep → _ → Sweep.Sole ⟨w,
      s.moved ++ s.world.moves (.sweepUpdate i),
      s.returned ++ s.world.returns (.sweepUpdate i)⟩ j sweep :=
    fun j sweep sole drawn => sole.step drawn h
  cases step_cases h with
  | sweepUpdate _ sweep found selected =>
    have decides := decides_expire s.world.reviews sweep.ids
    have unexpired : listExpired s.world.reviews sweep.ids = [] := by
      simpa [sweepsAlone, found] using alone
    simp only [World.moves, found] at stays ⊢
    refine ⟨reviewed, ?_, ?_, ?_, ?_, ?_, ?_⟩
    · exact forall_mem_set inv.drawn (inv.drawn sweep (mem_of_getElem? found))
    · refine forall_mem_append.mpr ⟨?_, forall_mem_map.mpr fun m chosen => ?_⟩
      · exact fun x old => extended.transitions _ (inv.logged x old)
      · exact mem_append_right _ (mem_map.mpr ⟨m, chosen, rfl⟩)
    · -- what is moved now was pending, so no sweep moved it before
      have ids := decides.once
      rw [map_map] at ids
      rw [map_append, map_map]
      refine nodup_append.mpr ⟨inv.movedOnce, ids, ?_⟩
      intro id old id' new same
      obtain ⟨x, earlier, rfl⟩ := mem_map.mp old
      obtain ⟨m, chosen, rfl⟩ := mem_map.mp new
      have fresh := decided_fresh inv.reviewed.queue decides (mem_map.mpr ⟨m, chosen, rfl⟩)
      exact fresh (mem_map.mpr ⟨_, inv.logged x earlier, same⟩)
    · intro j other entry updated
      rcases getElem?_set_cases entry with ⟨rfl, rfl⟩ | ⟨_, entry⟩
      · intro id listed new row
        obtain ⟨old, before, _, ⟨rfl, away⟩ | moved⟩ := decides.before row
        · -- left alone: it was not pending, and by the condition not expired
          have named := recordID_of_lookup before
          refine ⟨fun pending => away ?_, fun expired => ?_⟩
          · rw [map_map]
            refine mem_map.mpr ⟨new, mem_selectWhere.mpr ⟨?_, ?_⟩, named⟩
            · exact mem_of_lookup before
            · exact expirable_iff.mpr ⟨pending, named ▸ listed⟩
          · have returned : new ∈ listExpired s.world.reviews sweep.ids :=
              mem_listExpired.mpr ⟨named ▸ before, expired, named ▸ listed⟩
            rw [unexpired] at returned
            cases returned
        · refine ⟨(decides.pending _ moved).1, fun _ => mem_append_right _ ?_⟩
          obtain ⟨m, chosen, same⟩ := mem_map.mp moved
          exact mem_map.mpr ⟨m, chosen, by rw [(Prod.mk.inj same).1]⟩
      · exact stays j other (inv.sole j other entry updated)
          (inv.drawn other (mem_of_getElem? entry))
    · intro x mem
      -- a call that returned records is done, so it is not this one
      have mem : x ∈ s.returned := by simpa [World.returns] using mem
      obtain ⟨mine, other, entry, done⟩ := inv.own x mem
      refine ⟨mem_append_left _ mine, other, ?_, done⟩
      rw [getElem?_set_ne, entry]
      rintro rfl
      cases found.symm.trans entry
      cases selected.symm.trans done
    · simpa [World.returns] using inv.once

theorem sweeping_read (inv : Sweeping s) (h : s.world.step lease (.sweepRead i) = some w) :
    Sweeping ⟨w, s.moved ++ s.world.moves (.sweepRead i),
      s.returned ++ s.world.returns (.sweepRead i)⟩ := by
  have reviewed := reviewed_step inv.reviewed h
  cases step_cases h with
  | sweepRead _ sweep found updated =>
    have sole := inv.sole i sweep found updated
    -- what is read back was moved by this call, and by no other
    have mine : ∀ m ∈ listExpired s.world.reviews sweep.ids, (i, m.id) ∈ s.moved := by
      intro m returned
      obtain ⟨row, expired, listed⟩ := mem_listExpired.mp returned
      exact (sole m.id listed m row).2 expired
    simp only [World.moves, World.returns, found, append_nil]
    refine ⟨reviewed, ?_, inv.logged, inv.movedOnce, ?_, ?_, ?_⟩
    · exact forall_mem_set inv.drawn (inv.drawn sweep (mem_of_getElem? found))
    · intro j other entry phase
      rcases getElem?_set_cases entry with ⟨_, rfl⟩ | ⟨_, entry⟩
      · cases phase
      · exact inv.sole j other entry phase
    · refine forall_mem_append.mpr ⟨fun x old => ?_, forall_mem_map.mpr fun m returned => ?_⟩
      · obtain ⟨own, other, entry, done⟩ := inv.own x old
        have away : i ≠ x.1 := by
          rintro rfl
          cases found.symm.trans entry
          cases updated.symm.trans done
        exact ⟨own, other, by rw [getElem?_set_ne away, entry], done⟩
      · exact ⟨mine m returned, _, getElem?_set_here _ found, rfl⟩
    · -- a record returned before was moved by the call that returned it, which is done
      rw [map_append, map_map]
      refine nodup_append.mpr ⟨inv.once, ?_, ?_⟩
      · exact s.world.reviews.unique.sublist (filter_sublist.map _)
      · intro id old id' new same
        obtain ⟨x, earlier, rfl⟩ := mem_map.mp old
        obtain ⟨m, returned, rfl⟩ := mem_map.mp new
        obtain ⟨own, other, entry, done⟩ := inv.own x earlier
        have one := inj_on_of_nodup_map inv.movedOnce own (mine m returned) same
        rw [(Prod.mk.inj one).1, found, Option.some.injEq] at entry
        rw [← entry, updated] at done
        cases done

theorem Sweeping.step {t : Swept} (inv : Sweeping s) (alone : sweepsAlone s.world a = true)
    (h : s.step lease a = some t) : Sweeping t := by
  obtain ⟨w, stepped, rfl⟩ := Option.map_eq_some_iff.mp h
  cases sweeps_change stepped with
  | same sweeps quiet => exact sweeping_frame inv stepped quiet [] (by simpa using sweeps) nofun
  | selected _ _ sweeps quiet =>
    refine sweeping_frame inv stepped quiet _ sweeps fun sweep mem => ?_
    rw [mem_singleton.mp mem]
    refine ⟨rfl, fun id due => ?_⟩
    obtain ⟨m, stored⟩ := mem_dueForExpiry due
    exact inv.reviewed.known.record stored
  | updated _ _ taken =>
    subst taken
    exact sweeping_update inv alone stepped
  | read _ _ taken =>
    subst taken
    exact sweeping_read inv stepped

end

/-- In every interleaving of sweeps, reviewers, prunes and workers whose sweeps each run
their update before another has expired what they selected. -/
theorem expired_returned_once (lease : Time) (as : List Action) (s : Swept)
    (run : exec (Swept.step lease) Swept.init as = some s)
    (along : AllSteps (Swept.step lease) (fun s a => sweepsAlone s.world a = true)
      Swept.init as) : ExpirySafety s := by
  have inv := invariant_along (Swept.step lease) (fun s a => sweepsAlone s.world a = true)
    Sweeping (fun _ _ _ alone inv h => inv.step alone h) Swept.init s as sweeping_init along run
  refine ⟨inv.once, fun i m member => (inv.own (i, m) member).1, ?_, ?_⟩
  · exact inv.once.sublist (filter_sublist.map _)
  · exact inv.once.sublist (filter_sublist.map _)

def dueTrace : List Action :=
  [.create ⟨"m", "t", "", .held, 0, 0, "", 0, 0⟩, .recordHold 0 "f" 0 (some 5), .tick 10]

def sweepTrace : List Action :=
  dueTrace ++ [.sweepSelect 10 500, .sweepUpdate 0, .sweepRead 0, .sweepSelect 10 500,
    .sweepUpdate 1, .sweepRead 1]

theorem expired_returned_once_sweepTrace : ∃ s m,
    exec (Swept.step 120) Swept.init sweepTrace = some s ∧ (0, m) ∈ s.returned ∧
    m.id = "f" ∧ (0, "f") ∈ s.moved := by
  have runs : ∃ s ∈ exec (Swept.step 120) Swept.init sweepTrace,
      ∃ x ∈ s.returned.head?, x.1 = 0 ∧ x.2.id = "f" := by decide
  have along : AllSteps (Swept.step 120) (fun s a => sweepsAlone s.world a = true)
      Swept.init sweepTrace := by decide
  obtain ⟨s, run, ⟨i, m⟩, first, same, named⟩ := runs
  have member := mem_of_mem_head? first
  have safe := expired_returned_once 120 sweepTrace s run along
  subst same
  exact ⟨s, m, run, member, named, named ▸ safe.own 0 m member⟩

/-- Two sweeps select the message before either of them runs its update. -/
def overlapTrace : List Action :=
  dueTrace ++ [.sweepSelect 10 500, .sweepSelect 10 500, .sweepUpdate 0, .sweepUpdate 1,
    .sweepRead 0, .sweepRead 1]

/-- Both return it, and it is announced twice. -/
theorem expired_returned_twice : ∃ s m, exec (Swept.step 120) Swept.init overlapTrace = some s ∧
    s.returned = [(0, m), (1, m)] ∧ s.announced = [(0, m), (1, m)] ∧
    s.discarded = [(0, m), (1, m)] ∧ s.moved = [(0, m.id)] := by
  have runs : ∃ s ∈ exec (Swept.step 120) Swept.init overlapTrace,
      ∃ x ∈ s.returned.head?, s.returned = [(0, x.2), (1, x.2)] ∧
        s.announced = [(0, x.2), (1, x.2)] ∧ s.discarded = [(0, x.2), (1, x.2)] ∧
        s.moved = [(0, x.2.id)] := by decide
  obtain ⟨s, run, x, _, facts⟩ := runs
  exact ⟨s, x.2, run, facts⟩

end Panmail.Outbox
