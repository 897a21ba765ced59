import Panmail.Idempotency.Model

/-!
# What an accepted key guarantees

An acceptance writes a key record stamped with the clock reading it was decided on. For
24 hours from that reading the record answers every use of the key.
-/

namespace Panmail.Idempotency

open Tables Outbox Runs List Nat Option Table World

/-- The clock reading a call's next statement will use. -/
def CallPhase.stamp : CallPhase → Option Time
  | .reading s => some s
  | .creating s _ => some s
  | .rereading s => some s
  | _ => none

/-! ### What a step did -/

def Action.reads : Action → Bool
  | .replayRead _ _ | .raceRead _ _ => true
  | _ => false

/-- The kinds of steps, with what each leaves to know. -/
inductive Change (w : World) (a : Action) (t : World) : Prop
  | ticked (elapsed : Time) (world : t = { w with clock := w.clock + elapsed })
  | called (c : SendCall) (fresh : c.phase = .started)
      (world : t = { w with calls := w.calls ++ [c] })
  | moved (i : Nat) (c : SendCall) (phase : CallPhase) (ids : List String)
      (found : w.calls[i]? = some c) (stamp : ∀ s, phase.stamp = some s → s = w.clock)
      (quiet : ∀ answer, phase = .done answer → ∃ err, answer = .refused err)
      (other : a.reads = false)
      (world : t = { w.setPhase i c phase with messageIDs := ids })
  | read (i : Nat) (c : SendCall) (reply : Reply) (s : Time) (absent : CallPhase)
      (found : w.calls[i]? = some c) (stamp : c.phase.stamp = some s)
      (kind : a = .replayRead i reply ∧ absent = .admitted ∨
        a = .raceRead i reply ∧ absent = .done .inFlight)
      (world : t = w.setPhase i c (afterRead
        (getIdempotencyKey w.keys c.tenantID c.req.idempotencyKey (liveSince s)) c.hash reply
        absent))
  | committed (i : Nat) (c : SendCall) (s : Time) (email : OutboxEmail)
      (keys : KeyTable) (outbox : OutboxTable) (phase : CallPhase)
      (found : w.calls[i]? = some c) (creating : c.phase = .creating s email)
      (result : createWithIdempotencyKey w.keys w.outbox email (c.record s email.id)
        (liveSince s) = .created keys outbox)
      (settled : ∃ x, phase = .done x)
      (world : t = { w with
        keys := keys
        outbox := outbox
        accepted := w.accepted ++ [c.record s email.id]
        calls := w.calls.set i { c with phase := phase } })
  | pruning (world : t = { w with prunes := w.prunes ++ [⟨liveSince w.clock, false⟩] })
  | pruned (i : Nat) (p : PruneCall) (found : w.prunes[i]? = some p)
      (world : t = { w with
        keys := pruneIdempotencyKeys w.keys p.cutoff
        prunes := w.prunes.set i { p with ran := true } })
  | deleted (id : String) (world : t = { w with outbox := Outbox.deleteOutbox w.outbox id })

variable {w t : World} {a : Action} {k : IdempotencyKey} {i : Nat}

section
variable {c : SendCall} (found : w.calls[i]? = some c) (other : a.reads = false)
include found other

theorem Change.refused (err : String) : Change w a (w.setPhase i c (.done (.refused err))) := by
  refine .moved i c (.done (.refused err)) w.messageIDs found nofun ?_ other rfl
  intro answer done
  cases done
  exact ⟨err, rfl⟩

theorem Change.stamped {phase : CallPhase} {ids : List String}
    (fresh : phase.stamp = some w.clock) :
    Change w a { w.setPhase i c phase with messageIDs := ids } := by
  refine .moved i c phase ids found (fun s stamp => ?_) (fun answer done => ?_) other rfl
  · exact some.inj (stamp.symm.trans fresh)
  · cases (done ▸ fresh :)

end

theorem change_create {reply : Reply} (h : w.step (.create i reply) = some t) :
    Change w (.create i reply) t := by
  simp only [World.step, afterCreate] at h
  split at h
  next c found =>
    split at h <;> cases h
    next s email creating =>
      -- a create that did not commit leaves the tables alone
      split
      · exact .refused found rfl _
      · split
        · split
          · exact .moved i c .racing w.messageIDs found nofun nofun rfl rfl
          · exact .refused found rfl _
        · exact .refused found rfl _
        next keys outbox result =>
          refine .committed i c s email keys outbox _ found creating result ?_ rfl
          split <;> exact ⟨_, rfl⟩
  · cases h

theorem change (h : w.step a = some t) : Change w a t := by
  cases a with
  | tick elapsed =>
    cases h
    exact .ticked elapsed rfl
  | call =>
    simp only [World.step] at h
    split at h <;> cases h
    exact .called _ rfl rfl
  | validate i =>
    simp only [World.step] at h
    split at h
    next c found =>
      split at h
      · split at h <;> cases h
        · exact .refused found rfl _
        · exact .moved i c .validated w.messageIDs found nofun nofun rfl rfl
      · cases h
    · cases h
  | refuse i err =>
    simp only [World.step] at h
    split at h
    next c found =>
      split at h <;> cases h
      exact .refused found rfl err
    · cases h
  | replayStart i | createStart i email | raceStart i =>
    -- the clock is read now, for a statement that runs in a later step
    simp only [World.step] at h
    split at h
    next c found =>
      split at h <;> cases h
      exact .stamped found rfl rfl
    · cases h
  | replayRead i reply =>
    simp only [World.step] at h
    split at h
    next c found =>
      split at h <;> cases h
      next s reading =>
        exact .read i c reply s .admitted found (by rw [reading]; rfl) (.inl ⟨rfl, rfl⟩) rfl
    · cases h
  | create => exact change_create h
  | raceRead i reply =>
    simp only [World.step] at h
    split at h
    next c found =>
      split at h <;> cases h
      next s reading =>
        exact .read i c reply s _ found (by rw [reading]; rfl) (.inr ⟨rfl, rfl⟩) rfl
    · cases h
  | pruneStart =>
    cases h
    exact .pruning rfl
  | pruneRun i =>
    simp only [World.step] at h
    split at h
    next p found =>
      split at h <;> cases h
      exact .pruned i p found rfl
    · cases h
  | deleteOutbox id =>
    cases h
    exact .deleted id rfl

/-! ### The transaction and the statements on keys -/

theorem lookup_deleteExpired (t : KeyTable) (tenantID key : String) (since : Time)
    (tk : String × String) : (deleteExpired t tenantID key since).lookup tk = t.lookup tk ∨
      tk = (tenantID, key) ∧ (deleteExpired t tenantID key since).lookup tk = none ∧
        ∃ k, t.lookup tk = some k ∧ k.createdAt < since := by
  rcases lookup_deleteWhere_cases t _ tk with same | ⟨k, found, met, gone⟩
  · exact .inl same
  · have named := key_of_lookup found
    simp only [Bool.and_eq_true, decide_eq_true_eq] at met
    refine .inr ⟨?_, gone, k, found, met.2⟩
    rw [← named, met.1.1, met.1.2]

variable {keys keys' : KeyTable} {outbox outbox' : OutboxTable} {email : OutboxEmail}
  {since s : Time} {c : SendCall}

/-- A commit replaces at most an expired record of its key, and brings key and row in
together. -/
theorem created_spec
    (result : createWithIdempotencyKey keys outbox email k since = .created keys' outbox') :
    (∀ tk, keys'.lookup tk = if (k.tenantID, k.key) = tk then some k else keys.lookup tk) ∧
      (∀ old, keys.lookup (k.tenantID, k.key) = some old → old.createdAt < since) ∧
      outbox.insert? (OutboxRow.new email) = some outbox' := by
  unfold createWithIdempotencyKey at result
  split at result
  · cases result
  next keys'' inserted =>
    split at result <;> cases result
    next outbox'' queued =>
      have absent := (insert?_rows inserted).2
      refine ⟨fun tk => ?_, fun old found => ?_, queued⟩
      · rw [lookup_insert? inserted tk]
        by_cases same : (k.tenantID, k.key) = tk
        · rw [if_pos same, if_pos same]
        · rw [if_neg same, if_neg same]
          rcases lookup_deleteExpired keys k.tenantID k.key since tk with kept | ⟨other, _⟩
          · exact kept
          · exact absurd other.symm same
      · rcases lookup_deleteExpired keys k.tenantID k.key since (k.tenantID, k.key)
          with kept | ⟨_, _, x, before, expired⟩
        · cases (kept.symm.trans absent).symm.trans found
        · rw [found, some.injEq] at before
          exact before ▸ expired

theorem not_expired {stamp clock createdAt : Time} (read : stamp ≤ clock)
    (window : clock ≤ createdAt + idempotencyKeyWindow) : liveSince stamp ≤ createdAt :=
  Nat.sub_le_iff_le_add.mpr (Nat.le_trans read window)

/-! ### The invariant -/

structure Keyed (w : World) : Prop where
  stamp : ∀ c ∈ w.calls, ∀ s, c.phase.stamp = some s → s ≤ w.clock
  cutoff : ∀ p ∈ w.prunes, p.cutoff ≤ liveSince w.clock
  logged : ∀ {tk k}, w.keys.lookup tk = some k → k ∈ w.accepted
  live : ∀ k ∈ w.accepted, w.clock ≤ k.createdAt + idempotencyKeyWindow →
    w.keys.lookup (k.tenantID, k.key) = some k

theorem keyed_init : Keyed World.init where
  stamp := nofun
  cutoff := nofun
  logged := nofun
  live := nofun

theorem commit_excluded (inv : Keyed w) (mem : k ∈ w.accepted)
    (window : w.clock ≤ k.createdAt + idempotencyKeyWindow) (found : w.calls[i]? = some c)
    (creating : c.phase = .creating s email)
    (result : createWithIdempotencyKey w.keys w.outbox email (c.record s email.id) (liveSince s) =
      .created keys outbox) :
    (c.tenantID, c.req.idempotencyKey) ≠ (k.tenantID, k.key) := by
  intro same
  have stamp := inv.stamp c (mem_of_getElem? found) s (by rw [creating]; rfl)
  have row : w.keys.lookup (c.tenantID, c.req.idempotencyKey) = some k := by
    rw [same]
    exact inv.live k mem window
  have expired := (created_spec result).2.1 k row
  exact absurd (not_expired stamp window) (not_le.mpr expired)

theorem Keyed.step (inv : Keyed w) (h : w.step a = some t) : Keyed t := by
  cases change h with
  | ticked _ world =>
    subst world
    refine { inv with stamp := ?_, cutoff := ?_, live := ?_ }
    · exact fun c mem s stamp => le_trans (inv.stamp c mem s stamp) (le_add_right _ _)
    · exact fun p mem => le_trans (inv.cutoff p mem)
        (Nat.sub_le_sub_right (Nat.le_add_right _ _) _)
    · exact fun k mem window => inv.live k mem
        (le_trans (le_add_right _ _) window)
  | called _ fresh world =>
    subst world
    refine { inv with stamp := ?_ }
    intro x mem s stamp
    rcases mem_append.mp mem with old | new
    · exact inv.stamp x old s stamp
    · rw [mem_singleton.mp new, fresh] at stamp
      cases stamp
  | moved _ _ _ _ _ stamp _ _ world =>
    subst world
    refine { inv with stamp := ?_ }
    exact forall_mem_set inv.stamp fun s stamped => le_of_eq (stamp s stamped)
  | read _ c reply s absent _ stamp kind world =>
    subst world
    refine { inv with stamp := ?_ }
    refine forall_mem_set inv.stamp fun s stamped => ?_
    -- a call that has read its key holds no clock reading
    have none_ : ∀ stored, (afterRead stored c.hash reply absent).stamp = none := by
      intro stored
      unfold afterRead
      split
      · split
        · rfl
        · rcases kind with ⟨_, rfl⟩ | ⟨_, rfl⟩ <;> rfl
      · rfl
    rw [none_] at stamped
    cases stamped
  | committed i c s email keys outbox phase found creating result settled world =>
    subst world
    obtain ⟨rows, expired, queued⟩ := created_spec result
    refine ⟨?_, inv.cutoff, ?_, ?_⟩
    · refine forall_mem_set inv.stamp fun s stamped => ?_
      obtain ⟨x, done⟩ := settled
      rw [done] at stamped
      cases stamped
    · intro tk k row
      rw [rows] at row
      split at row
      · cases row
        exact mem_concat_self
      · exact mem_append_left _ (inv.logged row)
    · intro k mem window
      rw [rows]
      rcases mem_append.mp mem with old | new
      · -- an accepted record whose window is open is in the way of any commit under its key
        have other := commit_excluded inv old window found creating result
        exact (if_neg other).trans (inv.live k old window)
      · rw [mem_singleton.mp new, if_pos rfl]
  | pruning world =>
    subst world
    refine { inv with cutoff := ?_ }
    intro p mem
    rcases mem_append.mp mem with old | new
    · exact inv.cutoff p old
    · rw [mem_singleton.mp new]
  | pruned _ p found world =>
    subst world
    have ran := inv.cutoff p (mem_of_getElem? found)
    refine ⟨inv.stamp, forall_mem_set inv.cutoff ran,
      fun row => inv.logged (lookup_of_deleteWhere row), fun k mem window => ?_⟩
    -- the cutoff is a day before a reading of the clock, so what is pruned has expired by now
    have live := le_trans ran (not_expired (le_refl _) window)
    simp [pruneIdempotencyKeys, lookup_deleteWhere, inv.live k mem window, live]
  | deleted _ world =>
    subst world
    exact { inv with }

theorem keyed_of_run {as : List Action} (run : exec step World.init as = some w) : Keyed w :=
  invariant step Keyed (fun _ _ _ inv h => inv.step h) World.init w as keyed_init run

/-! ### Within the window -/

/-- The step from `w` to `t` accepts a send and records it as `k`. -/
def Accepts (w t : World) (k : IdempotencyKey) : Prop :=
  t.accepted = w.accepted ++ [k]

def sameKey (k x : IdempotencyKey) : Bool := x.tenantID = k.tenantID && x.key = k.key

theorem sameKey_iff {x : IdempotencyKey} :
    sameKey k x = true ↔ x.tenantID = k.tenantID ∧ x.key = k.key := by simp [sameKey]

theorem clock_step (h : w.step a = some t) : w.clock ≤ t.clock := by
  cases change h with
  | ticked _ world =>
    subst world
    exact le_add_right _ _
  | _ =>
    subst_vars
    exact le_refl _

theorem accepted_step (inv : Keyed w) (h : w.step a = some t) (mem : k ∈ w.accepted)
    (window : w.clock ≤ k.createdAt + idempotencyKeyWindow) :
    k ∈ t.accepted ∧ t.accepted.filter (sameKey k) = w.accepted.filter (sameKey k) := by
  cases change h with
  | committed i c s email keys outbox phase found creating result settled world =>
    have other := commit_excluded inv mem window found creating result
    subst world
    refine ⟨mem_append_left _ mem, ?_⟩
    have away : sameKey k (c.record s email.id) = false := by
      cases same : sameKey k (c.record s email.id) with
      | false => rfl
      | true =>
        obtain ⟨tenant, key⟩ := sameKey_iff.mp same
        exact absurd (Prod.ext tenant key) other
    simp [away]
  | _ =>
    subst_vars
    exact ⟨mem, rfl⟩

theorem window_run {bs : List Action} (inv : Keyed t) (mem : k ∈ t.accepted)
    (run : exec step t bs = some w) (window : w.clock ≤ k.createdAt + idempotencyKeyWindow) :
    Keyed w ∧ k ∈ w.accepted ∧ w.accepted.filter (sameKey k) = t.accepted.filter (sameKey k) := by
  have kept := invariant step
    (fun s => Keyed s ∧ (s.clock ≤ k.createdAt + idempotencyKeyWindow →
      k ∈ s.accepted ∧ s.accepted.filter (sameKey k) = t.accepted.filter (sameKey k)))
    (fun s a u both h => by
      refine ⟨both.1.step h, fun later => ?_⟩
      have earlier := le_trans (clock_step h) later
      obtain ⟨before, same⟩ := both.2 earlier
      obtain ⟨after, unchanged⟩ := accepted_step both.1 h before earlier
      exact ⟨after, unchanged.trans same⟩)
    t w bs ⟨inv, fun _ => ⟨mem, rfl⟩⟩ run
  exact ⟨kept.1, kept.2 window⟩

theorem read_live (inv : Keyed w) (mem : k ∈ w.accepted)
    (window : w.clock ≤ k.createdAt + idempotencyKeyWindow) (call : c ∈ w.calls)
    (stamp : c.phase.stamp = some s) (tenant : c.tenantID = k.tenantID)
    (key : c.req.idempotencyKey = k.key) :
    getIdempotencyKey w.keys c.tenantID c.req.idempotencyKey (liveSince s) = some k := by
  have live := not_expired (inv.stamp c call s stamp) window
  rw [getIdempotencyKey, tenant, key, inv.live k mem window, filter_some,
    if_pos (decide_eq_true live)]

/-- What an acceptance under a key promises, at a state `w` and in whatever follows. -/
structure KeySafety (w : World) : Prop where
  /-- A step brings in a key record exactly if it is the acceptance recorded and brings in the row
  it names. -/
  paired : ∀ (a : Action) (t : World), w.step a = some t →
    (∀ tk k, t.keys.lookup tk = some k → w.keys.lookup tk = some k ∨
      Accepts w t k ∧ w.outbox.lookup k.messageID = none ∧
        ∃ r, t.outbox.lookup k.messageID = some r) ∧
    (∀ id r, w.outbox.lookup id = none → t.outbox.lookup id = some r →
      ∃ k, Accepts w t k ∧ k.messageID = id ∧ t.keys.lookup (k.tenantID, k.key) = some k)
  /-- Until the window of an acceptance is over no other is made under its key. -/
  once : ∀ (a : Action) (t : World) (k : IdempotencyKey), w.step a = some t → Accepts w t k →
    ∀ bs w', exec World.step t bs = some w' →
      w'.clock ≤ k.createdAt + idempotencyKeyWindow →
      w'.accepted.filter (sameKey k) = t.accepted.filter (sameKey k)
  /-- A call under the key answered before the window is over succeeds only with the accepted
  message and for the accepted request, is never told that the key is in flight, and gets the
  conflict if it is another request answered from the key. -/
  answers : ∀ (a : Action) (t : World) (k : IdempotencyKey), w.step a = some t →
    Accepts w t k → ∀ bs w', exec World.step t bs = some w' →
    ∀ b t' j c c' answer, w'.step b = some t' →
      t'.clock ≤ k.createdAt + idempotencyKeyWindow →
      w'.calls[j]? = some c → t'.calls[j]? = some c' →
      c.tenantID = k.tenantID → c.req.idempotencyKey = k.key →
      (∀ x, c.phase ≠ .done x) → c'.phase = .done answer →
      (∀ id, answer = .success id → id = k.messageID ∧ c.hash = k.requestHash) ∧
        answer ≠ .inFlight ∧
        (b = .replayRead j .ok ∨ b = .raceRead j .ok → c.hash ≠ k.requestHash →
          answer = .conflict k.messageID)

theorem paired_step (h : w.step a = some t) :
    (∀ tk k, t.keys.lookup tk = some k → w.keys.lookup tk = some k ∨
      Accepts w t k ∧ w.outbox.lookup k.messageID = none ∧
        ∃ r, t.outbox.lookup k.messageID = some r) ∧
    (∀ id r, w.outbox.lookup id = none → t.outbox.lookup id = some r →
      ∃ k, Accepts w t k ∧ k.messageID = id ∧ t.keys.lookup (k.tenantID, k.key) = some k) := by
  cases change h with
  | committed i c s email keys outbox phase found creating result settled world =>
    subst world
    obtain ⟨rows, _, queued⟩ := created_spec result
    have inserted (id : String) : outbox.lookup id =
        if email.id = id then some (OutboxRow.new email) else w.outbox.lookup id :=
      lookup_insert? queued id
    have absent : w.outbox.lookup email.id = none := (insert?_rows queued).2
    refine ⟨fun tk k row => ?_, fun id r before row => ?_⟩
    · rw [rows] at row
      split at row
      · cases row
        exact .inr ⟨rfl, absent, _, (inserted email.id).trans (if_pos rfl)⟩
      · exact .inl row
    · rw [inserted] at row
      split at row
      next same => exact ⟨_, rfl, same, (rows _).trans (if_pos rfl)⟩
      · rw [before] at row
        cases row
  | pruned _ _ _ world =>
    subst world
    refine ⟨fun tk k row => .inl ?_, fun id r absent row => ?_⟩
    · exact lookup_of_deleteWhere row
    · cases absent.symm.trans row
  | deleted _ world =>
    subst world
    refine ⟨fun tk k row => .inl row, fun k r absent row => ?_⟩
    -- the row goes and its key stays: a later send under it is answered all the same
    rw [lookup_deleteOutbox, absent] at row
    split at row <;> cases row
  | _ =>
    -- the step leaves both tables alone
    subst_vars
    refine ⟨fun tk k row => .inl row, fun id r absent row => ?_⟩
    cases absent.symm.trans row

theorem answers_step {b : Action} (inv : Keyed w) (mem : k ∈ w.accepted)
    (h : w.step b = some t) (window : t.clock ≤ k.createdAt + idempotencyKeyWindow) {j : Nat}
    {c' : SendCall} {answer : Answer} (before : w.calls[j]? = some c)
    (after : t.calls[j]? = some c') (tenant : c.tenantID = k.tenantID)
    (key : c.req.idempotencyKey = k.key) (open_ : ∀ x, c.phase ≠ .done x)
    (done : c'.phase = .done answer) :
    (∀ id, answer = .success id → id = k.messageID ∧ c.hash = k.requestHash) ∧ answer ≠ .inFlight ∧
      (b = .replayRead j .ok ∨ b = .raceRead j .ok → c.hash ≠ k.requestHash →
        answer = .conflict k.messageID) := by
  have earlier := le_trans (clock_step h) window
  obtain ⟨bound, _⟩ := List.getElem?_eq_some_iff.mp before
  -- a call the step did not touch was answered before, which it was not
  have untouched (same : t.calls[j]? = w.calls[j]?) : False := by
    rw [same, before, some.injEq] at after
    exact open_ answer (after ▸ done)
  have elsewhere {i : Nat} {x : SendCall} (calls : t.calls = w.calls.set i x) (away : i ≠ j) :
      False := untouched (by rw [calls, getElem?_set_ne away])
  cases change h with
  | called _ _ world => exact (untouched (by rw [world, getElem?_append_left bound])).elim
  | moved i _ _ _ _ _ quiet other world =>
    by_cases here : i = j
    · subst here
      subst world
      simp only [setPhase, getElem?_set, if_true, bound, some.injEq] at after
      subst after
      obtain ⟨err, rfl⟩ := quiet answer done
      refine ⟨nofun, nofun, ?_⟩
      rintro (rfl | rfl) <;> cases other
    · exact (elsewhere (by rw [world]; rfl) here).elim
  | read i _ reply _ _ found stamp kind world =>
    by_cases here : i = j
    · subst here
      rw [before, some.injEq] at found
      subst found
      subst world
      simp only [setPhase, getElem?_set, if_true, bound, some.injEq] at after
      subst after
      -- the record answers, whether the read opens the send or follows a lost race
      have live := read_live inv mem earlier (mem_of_getElem? before) stamp tenant key
      simp only [live] at done
      cases reply with
      | ok =>
        by_cases same : k.requestHash = c.hash
        · simp only [afterRead, replay, same, ne_eq, not_true_eq_false, if_false,
            CallPhase.done.injEq] at done
          subst done
          refine ⟨fun id success => ?_, nofun, fun _ other => absurd same.symm other⟩
          cases success
          exact ⟨rfl, same.symm⟩
        · simp only [afterRead, replay, ne_eq, same, not_false_eq_true, if_true,
            CallPhase.done.injEq] at done
          subst done
          exact ⟨nofun, nofun, fun _ _ => rfl⟩
      | unheard | failed =>
        cases done
        refine ⟨nofun, nofun, ?_⟩
        rintro (rfl | rfl) <;> rcases kind with ⟨same, _⟩ | ⟨same, _⟩ <;> cases same
    · exact (elsewhere (by rw [world]; rfl) here).elim
  | committed i _ _ _ _ _ _ found creating result _ world =>
    by_cases here : i = j
    · subst here
      rw [before, some.injEq] at found
      subst found
      have other := commit_excluded inv mem earlier before creating result
      exact absurd (Prod.ext tenant key) other
    · exact (elsewhere (by rw [world]) here).elim
  | _ =>
    subst_vars
    exact (untouched rfl).elim

/-- In every interleaving of calls, prunes and deletions. -/
theorem key_safety (as : List Action) (w : World)
    (run : exec World.step World.init as = some w) : KeySafety w := by
  have inv := keyed_of_run run
  refine ⟨fun a t h => paired_step h, ?_, ?_⟩
  · intro a t k h accepts bs w' rest window
    have member : k ∈ t.accepted := accepts ▸ mem_concat_self
    exact (window_run (inv.step h) member rest window).2.2
  · intro a t k h accepts bs w' rest b t' j c c' answer next window before after tenant key
      open_ done
    have member : k ∈ t.accepted := accepts ▸ mem_concat_self
    have earlier := Nat.le_trans (clock_step next) window
    obtain ⟨inv', member', _⟩ := window_run (inv.step h) member rest earlier
    exact answers_step inv' member' next window before after tenant key open_ done

def firstRequest : SendRequest := ⟨"a@example.com", "p", ["b@example.com"], "k"⟩

def admissionTrace : List Action :=
  [.call "t" firstRequest "h", .validate 0, .replayStart 0, .replayRead 0 .ok,
    .createStart 0 ⟨"m", "t", "", .pending, 0, 0, "", 0, 0⟩]

def retryTrace : List Action :=
  [.tick 3600000000000, .call "t" firstRequest "h", .validate 1, .replayStart 1]

theorem key_safety_retry : ∃ w t k w' t' c c' id,
    exec World.step World.init admissionTrace = some w ∧ w.step (.create 0 .ok) = some t ∧
    Accepts w t k ∧ exec World.step t retryTrace = some w' ∧
    w'.step (.replayRead 1 .ok) = some t' ∧ w'.calls[1]? = some c ∧ t'.calls[1]? = some c' ∧
    c'.phase = .done (.success id) ∧ id = k.messageID := by
  have runs : ∃ w ∈ exec World.step World.init admissionTrace, ∃ t ∈ w.step (.create 0 .ok),
      ∃ w' ∈ exec World.step t retryTrace, ∃ t' ∈ w'.step (.replayRead 1 .ok),
      ∃ c ∈ w'.calls[1]?, ∃ c' ∈ t'.calls[1]?,
        t.accepted = w.accepted ++ [⟨"t", "k", "h", "m", 0⟩] ∧ t'.clock ≤ 0 + idempotencyKeyWindow ∧
        c.tenantID = "t" ∧ c.req.idempotencyKey = "k" ∧ c.phase = .reading 3600000000000 ∧
        c'.phase = .done (.success "m") := by decide
  obtain ⟨w, run, t, h, w', rest, t', next, c, before, c', after, accepts, window, tenant, key,
    reading, done⟩ := runs
  refine ⟨w, t, ⟨"t", "k", "h", "m", 0⟩, w', t', c, c', "m", run, h, accepts, rest, next, before,
    after, done, ?_⟩
  exact (((key_safety admissionTrace w run).answers (.create 0 .ok) t ⟨"t", "k", "h", "m", 0⟩ h
    accepts retryTrace w' rest (.replayRead 1 .ok) t' 1 c c' (.success "m") next window before
    after tenant key (by simp [reading]) done).1 "m" rfl).1

/-- The transaction commits ten seconds after the clock was read for it. -/
def slowTrace : List Action := admissionTrace ++ [.tick 10000000000, .create 0 .ok]

/-- Another request under the key, and a day after the reading, not the commit, the first again. -/
def againTrace : List Action :=
  [.call "t" { firstRequest with from_ := "" } "h'", .validate 1, .tick 86390000000001,
    .call "t" firstRequest "h", .validate 2, .replayStart 2, .replayRead 2 .ok,
    .createStart 2 ⟨"n", "t", "", .pending, 0, 0, "", 0, 0⟩, .create 2 .ok]

/-- Within 24 hours after the acceptance the other request is refused before its key is looked up,
and a second row is created. -/
theorem accepted_again_within_a_day : ∃ t w, exec World.step World.init slowTrace = some t ∧
    t.accepted = [⟨"t", "k", "h", "m", 0⟩] ∧ exec World.step t againTrace = some w ∧
    w.clock < t.clock + idempotencyKeyWindow ∧
    w.calls.map (fun c => (c.tenantID, c.req.idempotencyKey, c.hash, c.phase)) =
      [("t", "k", "h", .done (.success "m")),
        ("t", "k", "h'", .done (.refused "from address is mandatory")),
        ("t", "k", "h", .done (.success "n"))] ∧
    (w.outbox.lookup "m").isSome = true ∧ (w.outbox.lookup "n").isSome = true := by
  have runs : ∃ t ∈ exec World.step World.init slowTrace, ∃ w ∈ exec World.step t againTrace,
      t.accepted = [⟨"t", "k", "h", "m", 0⟩] ∧ w.clock < t.clock + idempotencyKeyWindow ∧
      w.calls.map (fun c => (c.tenantID, c.req.idempotencyKey, c.hash, c.phase)) =
        [("t", "k", "h", .done (.success "m")),
          ("t", "k", "h'", .done (.refused "from address is mandatory")),
          ("t", "k", "h", .done (.success "n"))] ∧
      (w.outbox.lookup "m").isSome = true ∧ (w.outbox.lookup "n").isSome = true := by decide
  obtain ⟨t, first, w, second, accepted, facts⟩ := runs
  exact ⟨t, w, first, accepted, second, facts⟩

end Panmail.Idempotency
