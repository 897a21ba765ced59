import Panmail.Outbox.Lease

/-!
# One owner at a time

What `ClaimPending` takes, what `RenewClaim` answers, and for how long a confirmation by
`holdLease` keeps every other worker off the row.
-/

namespace Panmail.Outbox

open Tables Runs List

def PassPhase.isSending : PassPhase → Bool
  | .sending => true
  | _ => false

theorem isSending_iff {phase : PassPhase} : phase.isSending = true ↔ phase = .sending := by
  cases phase <;> simp [PassPhase.isSending]

/-- `holdLease` of pass `i` succeeds in the step from `w` to `t`. -/
def Confirms (lease : Time) (w : World) (i : Nat) (t : World) : Prop :=
  w.step lease (.pass i (.confirm .ok)) = some t ∧
    ∃ p, t.passes[i]? = some p ∧ p.phase = .sending

variable {lease stamp e : Time} {w t : World} {i : Nat} {p : Pass}

theorem confirms_iff (found : w.passes[i]? = some p) (confirming : p.phase = .confirming stamp)
    (h : w.step lease (.pass i (.confirm .ok)) = some t) :
    Confirms lease w i t ↔ renewed w.outbox p.email.id p.token = true := by
  obtain ⟨q, q', outbox, entry, moved, rfl⟩ := step_pass h
  rw [found, Option.some.injEq] at entry
  subst entry
  obtain ⟨bound, _⟩ := List.getElem?_eq_some_iff.mp found
  simp only [Pass.step, confirming] at moved
  constructor
  · rintro ⟨_, x, here, sending⟩
    simp only [getElem?_set, if_true, bound, Option.some.injEq] at here
    subst here
    split at moved
    next answer => exact answer
    · cases moved
      cases sending
  · intro answer
    simp only [answer, if_true, Option.some.injEq, Prod.mk.injEq] at moved
    refine ⟨h, q', by simp [bound], ?_⟩
    rw [← moved.1]

/-- What the claim statement and the renewal promise at a state `w`. -/
structure ClaimSafety (lease : Time) (w : World) : Prop where
  /-- Of the passes on a row at most one carries the token of its claim. -/
  oneOwner : ∀ (i j : Nat) (p q : Pass) (r : OutboxRow), w.passes[i]? = some p →
    w.passes[j]? = some q →
    p.email.id = q.email.id → w.outbox.lookup p.email.id = some r →
    r.claimToken = some p.token → r.claimToken = some q.token → i = j
  /-- The claim statement takes a row only if it is neither held nor failed and no claim on it is
  running, and with a new token. -/
  taken : ∀ (i limit : Nat) (locked : List String) (t : World) (id : String) (r : OutboxRow),
    w.step lease (.claimUpdate i limit locked) = some t →
    w.outbox.lookup id = some r → t.outbox.lookup id ≠ some r →
    (r.status ≠ .held ∧ r.status ≠ .failed ∧ ∀ u, r.claimedUntil = some u → u < w.clock) ∧
      ∃ call r', w.claims[i]? = some call ∧ t.outbox.lookup id = some r' ∧
        r'.claimToken = some call.token ∧
        ∀ k x, w.outbox.lookup k = some x → x.claimToken ≠ some call.token
  /-- What a claim hands to its worker are the rows that carry its token, and they are
  being sent. -/
  handedOut : ∀ (i : Nat) (t : World) (p : Pass), w.step lease (.claimList i) = some t →
    p ∈ t.passes → p ∈ w.passes ∨ ∃ r, w.outbox.lookup p.email.id = some r ∧ r.claimToken = some p.token ∧
      r.status = .sending
  /-- `RenewClaim` answers true exactly for the token that owns a row being sent. -/
  renewal : ∀ (id token : String), renewed w.outbox id token = true ↔
    ∃ r, w.outbox.lookup id = some r ∧ r.claimToken = some token ∧ r.status = .sending
  /-- `holdLease` succeeds on that answer and no other. -/
  confirmation : ∀ (i : Nat) (p : Pass) (stamp : Time) (t : World),
    w.passes[i]? = some p → p.phase = .confirming stamp →
    w.step lease (.pass i (.confirm .ok)) = some t →
    (Confirms lease w i t ↔ renewed w.outbox p.email.id p.token = true)

theorem claim_safety (inv : Leased lease w) : ClaimSafety lease w := by
  refine ⟨?_, ?_, ?_, fun _ _ => renewed_iff, fun i p stamp t => confirms_iff⟩
  · intro i j p q r first second same row one two
    rw [one, Option.some.injEq] at two
    exact pass_unique inv.claims first second two same
  · intro i limit locked t id r h row changed
    cases step_cases h with
    | claimUpdate _ _ _ call found stamped =>
      have mem := mem_of_getElem? found
      rcases lookup_claimPending w.outbox call.token (call.now + lease) call.now limit locked id
        with same | ⟨old, row', ok, new⟩
      · exact absurd (same.trans row) changed
      rw [row, Option.some.injEq] at row'
      subst row'
      obtain ⟨notHeld, notFailed⟩ := claimable_not_held ok
      refine ⟨⟨notHeld, notFailed, ?_⟩, call, _, found, new, rfl, ?_⟩
      · intro u claimed
        have sending := inv.reviewed.payload.claimed row (.inr (by simp [claimed]))
        have lapsed := lapsed_of_claimable ok sending u claimed
        exact Nat.lt_of_lt_of_le lapsed (inv.claims.stamp call mem)
      · -- a token is on rows only once its claim has run, and this one is about to
        intro k x other carried
        obtain ⟨c, listed, named, phase⟩ := inv.claims.row other call.token carried
        have same := inj_on_of_nodup_map inv.claims.once listed mem named
        exact phase (same ▸ stamped)
  · intro i t p h mem
    cases step_cases h
    rcases mem_append.mp mem with old | new
    · exact .inl old
    · obtain ⟨email, listed, rfl⟩ := mem_map.mp new
      obtain ⟨r, row, token, _⟩ := mem_listClaimed.mp listed
      exact .inr ⟨r, row, token, inv.reviewed.payload.claimed row (.inl (by simp [token]))⟩

/-- Pass `i` is still there, under its claim, and its lease has not been cut short. -/
def Keeps (i : Nat) (p : Pass) (e : Time) (w : World) : Prop :=
  ∃ p' e', w.passes[i]? = some p' ∧ p'.token = p.token ∧ p'.email = p.email ∧
    p'.leaseEnd = some e' ∧ e ≤ e'

theorem keeps_step {a : Action} (timely : ∀ p ∈ w.passes, p.Timely lease w.clock)
    (kept : Keeps i p e w) (h : w.step lease a = some t) : Keeps i p e t := by
  obtain ⟨p', e', found, token, email, known, bound⟩ := kept
  cases passes_change h with
  | same _ passes | ticked _ _ _ passes =>
    exact ⟨p', e', passes ▸ found, token, email, known, bound⟩
  | listed _ _ _ _ passes =>
    exact ⟨p', e', passes ▸ getElem?_append_of found, token, email, known, bound⟩
  | moved j _ _ q' _ _ entry step passes =>
    by_cases here : j = i
    · -- its own step: a renewal moves the lease on, nothing moves it back
      subst here
      cases found.symm.trans entry
      obtain ⟨sameToken, sameEmail, _⟩ := Pass.step_cases step
      obtain ⟨_, leaseKept⟩ := (timely p' (mem_of_getElem? found)).step step
      obtain ⟨later, known', further⟩ := leaseKept e' known
      refine ⟨q', later, passes ▸ getElem?_set_here q' found, sameToken.trans token,
        sameEmail.trans email, known', Nat.le_trans bound further⟩
    · refine ⟨p', e', ?_, token, email, known, bound⟩
      rw [passes, getElem?_set_ne here]
      exact found

theorem keeps_run {as : List Action} (inv : Leased lease w) (kept : Keeps i p e w)
    (run : exec (World.step lease) w as = some t) : Keeps i p e t :=
  (invariant (World.step lease) (fun w => Leased lease w ∧ Keeps i p e w)
    (fun _ _ _ both h => ⟨leased_step both.1 h, keeps_step both.1.timely both.2 h⟩)
    w t as ⟨inv, kept⟩ run).2

/-- At every reachable state the claim and renewal statements keep their promises, and in a run
whose settling statements all run in time nobody else's `holdLease` succeeds on a row between a
confirmation and the end of the lease it set, until the confirmed pass itself settles the row. -/
theorem claims_are_exclusive (lease : Time) (as : List Action) (w : World)
    (run : exec (World.step lease) World.init as = some w) : ClaimSafety lease w ∧
      ∀ (i : Nat) (t : World) (p : Pass) (e : Time) (bs : List Action) (w' : World) (p' : Pass)
        (j : Nat) (q : Pass) (t' : World),
        AllSteps (World.step lease) (fun w a => settlesInLease w a = true) World.init
          (as ++ .pass i (.confirm .ok) :: bs) →
        Confirms lease w i t → t.passes[i]? = some p → p.leaseEnd = some e →
        exec (World.step lease) t bs = some w' → w'.clock ≤ e →
        w'.passes[i]? = some p' → p'.settled = false →
        j ≠ i → w'.passes[j]? = some q → q.email.id = p.email.id → ¬ Confirms lease w' j t' := by
  have inv := leased_of_run run
  refine ⟨claim_safety inv, ?_⟩
  intro i t p e bs w' p' j q t' along confirmed entry known rest inLease found unsettled away
    other same confirms
  -- possession at `w'`, from the whole run
  have whole : exec (World.step lease) World.init (as ++ .pass i (.confirm .ok) :: bs) = some w' :=
    (exec_append _ _ _ _ _).mpr ⟨w, run, (exec_cons _ _ _ _ _).mpr ⟨t, confirmed.1, rest⟩⟩
  obtain ⟨later, holds⟩ := holds_along (leased_init lease) (fun _ mem => nomatch mem)
    along whole
  obtain ⟨x, e', here, token, email, known', bound⟩ :=
    keeps_run (leased_step inv confirmed.1) ⟨p, e, entry, rfl, rfl, known, Nat.le_refl e⟩ rest
  rw [found, Option.some.injEq] at here
  subst here
  obtain ⟨r, _, row, mine, _⟩ := holds p' (mem_of_getElem? found) e' known' unsettled
    (Nat.le_trans inLease bound)
  -- and what the other confirmation would need
  obtain ⟨stamp, confirming⟩ : ∃ stamp, q.phase = .confirming stamp := by
    obtain ⟨y, _, _, there, moved, _⟩ := step_pass confirms.1
    rw [other, Option.some.injEq] at there
    subst there
    simp only [Pass.step] at moved
    split at moved
    next stamp phase => exact ⟨stamp, phase⟩
    · cases moved
  obtain ⟨r', row', theirs, _⟩ :=
    renewed_iff.mp ((confirms_iff other confirming confirms.1).mp confirms)
  have rows : q.email.id = p'.email.id := by rw [same, email]
  rw [rows, row, Option.some.injEq] at row'
  subst row'
  rw [mine, Option.some.injEq] at theirs
  exact away (pass_unique later.claims other found theirs.symm rows)

/-- A claim that lapsed before its worker got to it, and the claim that replaced it. -/
def takeoverTrace : List Action :=
  [.create queuedMessage, .claimStart "A", .claimUpdate 0 500 [], .claimList 0,
    .tick (messageLease + 1), .claimStart "B", .claimUpdate 1 500 [], .claimList 1,
    .pass 1 .confirmStart]

theorem claims_are_exclusive_takeover : ∃ w t p e w' q,
    exec (World.step messageLease) World.init takeoverTrace = some w ∧
    Confirms messageLease w 1 t ∧ t.passes[1]? = some p ∧ p.leaseEnd = some e ∧
    exec (World.step messageLease) t [.pass 0 .confirmStart] = some w' ∧ w'.clock ≤ e ∧
    w'.passes[0]? = some q ∧ q.email.id = p.email.id ∧ ∀ t', ¬ Confirms messageLease w' 0 t' := by
  have runs : ∃ w ∈ exec (World.step messageLease) World.init takeoverTrace,
      ∃ t ∈ w.step messageLease (.pass 1 (.confirm .ok)),
      ∃ w' ∈ exec (World.step messageLease) t [.pass 0 .confirmStart],
      ∃ p ∈ t.passes[1]?, ∃ p' ∈ w'.passes[1]?, ∃ q ∈ w'.passes[0]?, ∃ e ∈ p.leaseEnd,
        p.phase.isSending ∧ w'.clock ≤ e ∧ p'.settled = false ∧ q.email.id = p.email.id := by decide +kernel
  have along : AllSteps (World.step messageLease) (fun w a => settlesInLease w a = true)
      World.init (takeoverTrace ++ .pass 1 (.confirm .ok) :: [.pass 0 .confirmStart]) := by decide +kernel
  simp only [isSending_iff] at runs
  obtain ⟨w, run, t, h, w', rest, p, entry, p', found, q, other, e, known, sending, inLease,
    unsettled, same⟩ := runs
  have confirmed : Confirms messageLease w 1 t := ⟨h, p, entry, sending⟩
  exact ⟨w, t, p, e, w', q, run, confirmed, entry, known, rest, inLease, other, same, fun t' =>
    (claims_are_exclusive messageLease takeoverTrace w run).2 1 t p e [.pass 0 .confirmStart] w'
      p' 0 q t' along confirmed entry known rest inLease found unsettled (by decide) other same⟩

/-- What a worker whose send failed for now writes. -/
def deferral : RowWrite := .update ⟨.deferred, 1, 0, "timeout", 0⟩ (.inl rfl)

/-- The first worker's late settlement clears the claim of the second, and a third worker
confirms one of its own. -/
def intrusionTrace : List Action :=
  [.pass 0 (.sendDone deferral), .pass 0 (.settle .ok), .claimStart "C", .claimUpdate 2 500 [],
    .claimList 2, .pass 2 .confirmStart]

/-- The second worker's lease is running and it has not settled. -/
theorem two_leases_confirmed : ∃ w p e w' p' q t,
    exec (World.step messageLease) World.init (lapseTrace ++ claimTrace "B" 1 1) = some w ∧
    w.passes[1]? = some p ∧ p.phase = .sending ∧ p.leaseEnd = some e ∧
    exec (World.step messageLease) w intrusionTrace = some w' ∧ w'.clock ≤ e ∧
    w'.passes[1]? = some p' ∧ p'.settled = false ∧ p'.phase = .sending ∧
    w'.passes[2]? = some q ∧ q.email.id = p.email.id ∧ Confirms messageLease w' 2 t := by
  have runs : (exec (World.step messageLease) World.init
      (lapseTrace ++ claimTrace "B" 1 1)).any (fun w =>
      (exec (World.step messageLease) w intrusionTrace).any fun w' =>
      (w'.step messageLease (.pass 2 (.confirm .ok))).any fun t =>
      w.passes[1]?.any fun p => w'.passes[1]?.any fun p' => w'.passes[2]?.any fun q =>
      t.passes[2]?.any fun q' => p.leaseEnd.any fun e =>
        p.phase.isSending && decide (w'.clock ≤ e) && !p'.settled && p'.phase.isSending &&
          decide (q.email.id = p.email.id) && q'.phase.isSending) = true := by decide
  simp only [Option.any_eq_true, Bool.and_eq_true, decide_eq_true_eq, Bool.not_eq_true',
    isSending_iff] at runs
  obtain ⟨w, run, w', rest, t, h, p, entry, p', found, q, other, q', there, e, known,
    ⟨⟨⟨⟨sending, inLease⟩, unsettled⟩, busy⟩, same⟩, confirmed⟩ := runs
  exact ⟨w, p, e, w', p', q, t, run, entry, sending, known, rest, inLease, found, unsettled,
    busy, other, same, h, q', there, confirmed⟩

end Panmail.Outbox
