import Panmail.Delivery.History

/-!
# How many passes a message takes

A pass that delivers to someone does not spend a retry, so the retry count alone bounds
nothing. What every settled pass does spend is one unfinished recipient or one retry:
the passes made, plus the recipients to go, never exceed the recipients there were plus
the retries counted.
-/
namespace Panmail.Delivery

open Text Runs Outbox Sample List Nat

variable (P : Platform)

/-! ### The schedule -/

/-- The schedule's index is in range from the first attempt on, and it grants a retry only
within its length. -/
theorem nextRetryDelay_cases (c : Classification) (retryCount : Nat) (pattern : List String)
    (counted : 1 ≤ retryCount) : nextRetryDelay P c retryCount pattern = .stop ∨
      ∃ delay, nextRetryDelay P c retryCount pattern = .retry delay ∧
        retryCount ≤ pattern.length := by
  by_cases stops : c.retryable = false ∨ pattern.length < retryCount
  · exact .inl (by simp only [nextRetryDelay, stops, if_true])
  · have within : retryCount ≤ pattern.length := by
      have bound := (not_or.mp stops).2
      omega
    cases retryCount with
    | zero => cases counted
    | succ n =>
      have entry : pattern[n]? = some pattern[n] := getElem?_eq_getElem within
      refine .inr ⟨(P.parseDuration pattern[n]).getD ((n + 1) * (n + 1) * 60000000000), ?_, within⟩
      rw [nextRetryDelay, if_neg stops]
      simp only [entry]

/-- How the row ends up after a pass, by what the pass spent. -/
inductive SettleCase (e : OutboxEmail) (req : SendEmailRequest) (input : SendInput)
    (s : SettleInput) : Settlement → Prop where
  | untouched (lost : s.lost = true) : SettleCase e req input s .untouched
  | deleted : SettleCase e req input s (.write .delete)
  | failed (u : OutboxUpdate) (settles : u.status = .deferred ∨ u.status = .failed)
      (status : u.status = .failed) (count : u.retryCount ≤ e.retryCount + 1) :
      SettleCase e req input s (.write (.update u settles))
  | paced (u : OutboxUpdate) (settles : u.status = .deferred ∨ u.status = .failed) (wait : Nat)
      (turn : (sendEmail P e.tenantID e.id req input).2 = .error (.paced wait))
      (count : u.retryCount = e.retryCount) : SettleCase e req input s (.write (.update u settles))
  | retried (u : OutboxUpdate) (settles : u.status = .deferred ∨ u.status = .failed)
      (count : u.retryCount = e.retryCount + 1) (within : u.retryCount ≤ s.pattern.length) :
      SettleCase e req input s (.write (.update u settles))
  | progressed (u : OutboxUpdate) (settles : u.status = .deferred ∨ u.status = .failed)
      (failures : List RecipientFailure) (delivered : Nat)
      (ended : (sendEmail P e.tenantID e.id req input).2 = .error (.recipients failures delivered))
      (some_ : 0 < delivered) (count : u.retryCount = e.retryCount) :
      SettleCase e req input s (.write (.update u settles))

variable {failures : List RecipientFailure} {delivered : Nat}

section
variable {P} {e : OutboxEmail} {req : SendEmailRequest} {input : SendInput} {s : SettleInput}

theorem settle_recipients
    (ended : (sendEmail P e.tenantID e.id req input).2 = .error (.recipients failures delivered)) :
    SettleCase P e req input s (handleRecipientFailures P e req s failures delivered).2 := by
  simp only [handleRecipientFailures]
  split
  · split
    · exact .deleted
    · exact .failed _ _ rfl (le_succ _)
  next f rest retry =>
    rcases nextRetryDelay_cases P f.verdict (max (countAfter e delivered) 1) s.pattern
      (le_max_right _ _) with stops | ⟨delay, retries, within⟩
    · simp only [recipientRetry, stops]
      refine .failed _ _ rfl ?_
      simp only [rowUpdate, countAfter]
      split <;> omega
    · simp only [recipientRetry, retries]
      by_cases none : delivered = 0
      · refine .retried _ _ (by simp [rowUpdate, countAfter, none]) ?_
        have bound := le_trans (le_max_left (countAfter e delivered) 1) within
        exact bound
      · refine .progressed _ _ failures delivered ended (pos_of_ne_zero none) ?_
        simp [rowUpdate, countAfter, none]

theorem settle_message {err : SendError} :
    SettleCase P e req input s (handleMessageFailure P e req s err).2 := by
  simp only [handleMessageFailure]
  rcases nextRetryDelay_cases P (messageVerdict P err) (e.retryCount + 1) s.pattern
    (le_add_left _ _) with stops | ⟨delay, retries, within⟩
  · simp only [stops]
    exact .failed _ _ rfl (le_refl _)
  · simp only [retries]
    exact .retried _ _ rfl within

/-- A pass over a readable request never panics, and what it leaves of the row is one of the
cases. -/
theorem settle_case (reads : P.unmarshalRequest e.request = some req) :
    SettleCase P e req input s (processEmail P e input s).2 := by
  rw [processEmail_eq reads]
  cases lost : s.lost with
  | true => exact .untouched lost
  | false =>
    cases result : (sendEmail P e.tenantID e.id req input).2 with
    | ok => exact .deleted
    | error err =>
      cases err with
      | paced wait => exact .paced _ _ wait result rfl
      | recipients => exact settle_recipients result
      | senderRefused | templateRefused | failed => exact settle_message

end

/-! ### What each pass spends -/

section
variable {P} {m : QueuedMessage P}

def QueuedMessage.unfinished (m : QueuedMessage P) (s : MessageState) : Nat :=
  m.recipients.countP fun r => !finishedIn s.events r

variable {t s : MessageState} {p : PassInput} {row : OutboxRow}

theorem unfinished_step (h : passStep P s p = some t) : m.unfinished t ≤ m.unfinished s := by
  refine countP_mono_left fun r _ open_ => ?_
  cases known : finishedIn s.events r with
  | false => rfl
  | true =>
    rw [finishedIn_mono (events_step h) known] at open_
    cases open_

theorem progress_step (here : s.row = some row) (owned : m.Owns row) (recorded : p.Recorded)
    (complete : Complete s p) (h : passStep P s p = some t)
    (ended : (sendEmail P row.tenantID row.id m.req p.send).2 =
      .error (.recipients failures delivered)) (some_ : 0 < delivered) :
    m.unfinished t < m.unfinished s := by
  obtain ⟨prep, found, _, rfl, effects⟩ := sendEmail_failures ended
  obtain ⟨r, listed, sent⟩ := countP_pos_iff.mp some_
  obtain ⟨reached, delivered, taken⟩ := (deliverTo_sent_iff P).mp sent
  obtain ⟨j, first, answer⟩ := acceptance_attempt prep.providers 0 taken
  have mem : r ∈ m.recipients := by
    rw [QueuedMessage.recipients, ← found.recipients]
    exact listed
  -- `r` was still to go before the pass, and its DELIVERED is in the history after it
  have before : finishedIn s.events r = false := by
    cases known : finishedIn s.events r with
    | false => rfl
    | true =>
      have finished := finishedIn_mono (complete.send _ found.history) known
      rw [reached.1] at finished
      cases finished
  obtain ⟨event, written, type, recipient⟩ := deliverTo_records P owned.issued
    (normal_recipient P mem) ((mem_uniqueRecipients P).mp mem).1 reached taken
    (recorded.accepted r j first delivered answer).2
  have after : finishedIn t.events r = true := by
    obtain ⟨_, same, _, _, rfl⟩ := passStep_cases P h
    cases here.symm.trans same
    refine finishedIn_iff.mpr ⟨event, mem_append_right _ (mem_eventsOf.mpr ?_), recipient,
      .inl type⟩
    refine (mem_processEmail owned.reads).mpr (.inl ?_)
    rw [effects]
    exact mem_append_right _ (mem_flatMap.mpr ⟨r, listed, written⟩)
  refine countP_lt_countP (fun x _ open_ => ?_) mem (by simp [after]) (by simp [before])
  cases known : finishedIn s.events x with
  | false => rfl
  | true =>
    rw [finishedIn_mono (events_step h) known] at open_
    cases open_

/-- While the row is live, the passes made and the recipients to go are covered by the recipients
there were and the retries counted. -/
structure Spent (m : QueuedMessage P) (k : Nat) (s : MessageState) : Prop where
  live : ∀ r, s.row = some r → r.status ≠ .failed →
    r.retryCount ≤ k ∧ s.passes + m.unfinished s ≤ m.recipients.length + r.retryCount
  count : ∀ r, s.row = some r → r.retryCount ≤ k + 1
  total : s.passes ≤ m.recipients.length + k + 1

theorem spent_start (k : Nat) : Spent m k m.start := by
  have all : m.unfinished m.start ≤ m.recipients.length := countP_le_length
  refine ⟨fun r row _ => ?_, fun r row => ?_, ?_⟩
  · cases row
    have fresh := m.fresh
    have none : m.start.passes = 0 := rfl
    exact ⟨by omega, by omega⟩
  · cases row
    have fresh := m.fresh
    omega
  · exact zero_le _

theorem spent_step {k : Nat} (spent : Spent m k s) (owned : ∀ r, s.row = some r → m.Owns r)
    (recorded : p.Recorded) (complete : Complete s p) (fixed : p.settle.pattern.length = k)
    (h : passStep P s p = some t) : Spent m k t := by
  have fewer := unfinished_step (m := m) h
  obtain ⟨row, here, unfailed, _, shape⟩ := passStep_cases P h
  have own := owned row here
  obtain ⟨within, bound⟩ := spent.live row here unfailed
  have rowAfter : t.row = if p.written then
      (processEmail P row.toOutboxEmail p.send p.settle).2.row row else some row := by rw [shape]
  have passesAfter : t.passes = if p.written && !p.settle.lost && !pacedPass P row p then
      s.passes + 1 else s.passes := by rw [shape]
  have once : t.passes ≤ s.passes + 1 := by
    rw [passesAfter]
    split <;> omega
  -- a pass that left the row as it was is not counted
  have unchanged (kept : t.row = some row) (uncounted : t.passes = s.passes) : Spent m k t := by
    refine ⟨fun r after live => ?_, fun r after => ?_, by omega⟩
    · cases kept.symm.trans after
      exact ⟨within, by omega⟩
    · cases kept.symm.trans after
      omega
  cases written : p.written with
  | false =>
    simp only [written, Bool.false_and, Bool.false_eq_true, if_false] at rowAfter passesAfter
    exact unchanged rowAfter passesAfter
  | true =>
    simp only [written, if_true] at rowAfter
    have ends : SettleCase P row.toOutboxEmail m.req p.send p.settle
      (processEmail P row.toOutboxEmail p.send p.settle).2 := settle_case own.reads
    generalize (processEmail P row.toOutboxEmail p.send p.settle).2 = settlement at ends rowAfter
    cases ends with
    | untouched lost =>
      simp only [written, lost, Bool.not_true, Bool.and_false, Bool.false_and, Bool.false_eq_true,
        if_false] at passesAfter
      exact unchanged rowAfter passesAfter
    | deleted =>
      refine ⟨fun r after _ => ?_, fun r after => ?_, by omega⟩
      · cases rowAfter.symm.trans after
      · cases rowAfter.symm.trans after
    | failed _ _ status count =>
      refine ⟨fun r after live => ?_, fun r after => ?_, by omega⟩
      · cases rowAfter.symm.trans after
        exact absurd status live
      · cases rowAfter.symm.trans after
        exact le_trans count (succ_le_succ within)
    | paced u _ _ turn count =>
      have uncounted : t.passes = s.passes := by
        rw [passesAfter, pacedPass, own.reads]
        simp [turn]
      refine ⟨fun r after live => ?_, fun r after => ?_, by omega⟩
      · cases rowAfter.symm.trans after
        have same : (u.apply row).retryCount = row.retryCount := count
        exact ⟨by omega, by omega⟩
      · cases rowAfter.symm.trans after
        have same : (u.apply row).retryCount = row.retryCount := count
        omega
    | retried u _ count inside =>
      have more : (u.apply row).retryCount = row.retryCount + 1 := count
      have scheduled : (u.apply row).retryCount ≤ k := fixed ▸ inside
      refine ⟨fun r after live => ?_, fun r after => ?_, by omega⟩
      · cases rowAfter.symm.trans after
        exact ⟨scheduled, by omega⟩
      · cases rowAfter.symm.trans after
        omega
    | progressed u _ _ _ ended some_ count =>
      have less := progress_step here own recorded complete h ended some_
      have same : (u.apply row).retryCount = row.retryCount := count
      refine ⟨fun r after live => ?_, fun r after => ?_, by omega⟩
      · cases rowAfter.symm.trans after
        exact ⟨by omega, by omega⟩
      · cases rowAfter.symm.trans after
        omega

theorem unheld_step (h : passStep P s p = some t) : ∀ r, t.row = some r → r.status ≠ .held := by
  obtain ⟨row, _, _, unheld, rfl⟩ := passStep_cases P h
  intro r after
  split at after
  · generalize (processEmail P row.toOutboxEmail p.send p.settle).2 = settlement at after
    cases settlement with
    | untouched | panicked =>
      cases after
      exact unheld
    | write w =>
      cases w with
      | update u settles =>
        cases after
        intro held
        have status : u.status = .held := held
        rcases settles with deferred | failed
        · cases status.symm.trans deferred
        · cases status.symm.trans failed
      | delete => cases after
  · cases after
    exact unheld

end

/-- Events are recorded, histories are complete, and the retry pattern stays the same. -/
def Scheduled (pattern : List String) (s : MessageState) (p : PassInput) : Prop :=
  p.Recorded ∧ Complete s p ∧ p.settle.pattern = pattern

/-- With `n` recipients and `k` retries, a row neither deleted nor failed has had fewer than `n + k
+ 1` settled passes that were not merely paced, and can be claimed again; the count stays within `k
+ 1`, and no index is out of range. -/
theorem passes_bounded (m : QueuedMessage P) (pattern : List String) (ps : List PassInput)
    (s : MessageState) (run : exec (passStep P) m.start ps = some s)
    (along : AllSteps (passStep P) (Scheduled pattern) m.start ps) :
    (s.row = none ∨ (∃ r, s.row = some r ∧ r.status = .failed) ∨
      s.passes < m.recipients.length + pattern.length + 1 ∧ ∀ p, (passStep P s p).isSome) ∧
    s.passes ≤ m.recipients.length + pattern.length + 1 ∧
    (∀ r, s.row = some r → r.retryCount ≤ pattern.length + 1) ∧
    ∀ r (p : PassInput), s.row = some r →
      (processEmail P r.toOutboxEmail p.send p.settle).2 ≠ .panicked := by
  have invariant := invariant_along (passStep P) (Scheduled pattern)
    (fun s => Spent m pattern.length s ∧ (∀ r, s.row = some r → m.Owns r) ∧
      ∀ r, s.row = some r → r.status ≠ .held)
    (fun s p t scheduled before h =>
      ⟨spent_step before.1 before.2.1 scheduled.1 scheduled.2.1 (by rw [scheduled.2.2]) h,
        owns_step h before.2.1, unheld_step h⟩)
    m.start s ps ⟨spent_start _, owns_start, fun r here held => by
      cases here
      cases m.pending.symm.trans held⟩ along run
  obtain ⟨spent, owned, unheld⟩ := invariant
  refine ⟨?_, spent.total, spent.count, fun r p here panics => ?_⟩
  · cases here : s.row with
    | none => exact .inl rfl
    | some r =>
      by_cases failed : r.status = .failed
      · exact .inr (.inl ⟨r, rfl, failed⟩)
      · obtain ⟨within, bound⟩ := spent.live r here failed
        refine .inr (.inr ⟨by omega, fun p => ?_⟩)
        simp only [passStep, here, failed, unheld r here, or_self, if_false, Option.isSome_some]
  · have ends : SettleCase P r.toOutboxEmail m.req p.send p.settle
      (processEmail P r.toOutboxEmail p.send p.settle).2 := settle_case (owned r here).reads
    rw [panics] at ends
    cases ends

namespace Sample

/-- `b`'s server hangs up, to a pass that reads the whole history. -/
def hangsUp (s : MessageState) : PassInput :=
  pass s.events (fun r => if r = "b@x" then some "eof" else none) false ["5m"]

def afterHangUp (s : MessageState) : MessageState :=
  (passStep (platform id (request ["a@x", "b@x"])) s (hangsUp s)).getD s

/-- The state after a number of passes in which `b`'s server hung up. -/
def hungUp : Nat → MessageState
  | 0 => (message id ["a@x", "b@x"]).start
  | n + 1 => afterHangUp (hungUp n)

theorem hangsUp_scheduled (s : MessageState) : Scheduled ["5m"] s (hangsUp s) :=
  ⟨pass_recorded _ _ _ _, pass_complete _ _ _ fun _ mem => mem, rfl⟩

theorem afterHangUp_eq {s : MessageState}
    (runs : (passStep (platform id (request ["a@x", "b@x"])) s (hangsUp s)).isSome = true) :
    passStep (platform id (request ["a@x", "b@x"])) s (hangsUp s) = some (afterHangUp s) := by
  obtain ⟨t, taken⟩ := Option.isSome_iff_exists.mp runs
  rw [afterHangUp, taken]
  rfl

end Sample

/-- `a` gets its copy in the first pass, which spends no retry; `b` fails three times. -/
theorem passes_bounded_hungUp :
    (hungUp 3).passes = 3 ∧ (hungUp 3).row.any (fun r => decide (r.status = .failed)) = true ∧
    (hungUp 2).row.any (fun r => decide (r.status = .deferred ∧ r.retryCount = 1)) = true ∧
    (hungUp 3).passes ≤ 2 + 1 + 1 ∧ ∀ r, (hungUp 3).row = some r → r.retryCount ≤ 1 + 1 := by
  -- One evaluation for all of the run: each state is computed from the one before it.
  have evaluated : ((∀ n ∈ [0, 1, 2],
        (passStep (platform id (request ["a@x", "b@x"])) (hungUp n) (hangsUp (hungUp n))).isSome) ∧
      (hungUp 3).passes = 3) ∧
      (hungUp 3).row.any (fun r => decide (r.status = .failed)) = true ∧
      (hungUp 2).row.any (fun r => decide (r.status = .deferred ∧ r.retryCount = 1)) = true := by
    decide +kernel
  obtain ⟨⟨takes, passes⟩, failed, deferred⟩ := evaluated
  have first := afterHangUp_eq (takes 0 (by decide))
  have second := afterHangUp_eq (takes 1 (by decide))
  have third := afterHangUp_eq (takes 2 (by decide))
  have run : exec (passStep (platform id (request ["a@x", "b@x"])))
      (message id ["a@x", "b@x"]).start [hangsUp (hungUp 0), hangsUp (hungUp 1),
        hangsUp (hungUp 2)] = some (hungUp 3) := by
    refine (exec_cons _ _ _ _ _).mpr ⟨hungUp 1, first, ?_⟩
    refine (exec_cons _ _ _ _ _).mpr ⟨hungUp 2, second, ?_⟩
    exact (exec_cons _ _ _ _ _).mpr ⟨hungUp 3, third, rfl⟩
  have along : AllSteps (passStep (platform id (request ["a@x", "b@x"]))) (Scheduled ["5m"])
      (message id ["a@x", "b@x"]).start [hangsUp (hungUp 0), hangsUp (hungUp 1),
        hangsUp (hungUp 2)] := by
    refine ⟨hangsUp_scheduled (hungUp 0), fun t taken => ?_⟩
    cases first.symm.trans taken
    refine ⟨hangsUp_scheduled (hungUp 1), fun t taken => ?_⟩
    cases second.symm.trans taken
    exact ⟨hangsUp_scheduled (hungUp 2), fun _ _ => trivial⟩
  obtain ⟨_, total, count, _⟩ := passes_bounded (platform id (request ["a@x", "b@x"]))
    (message id ["a@x", "b@x"]) ["5m"] _ _ run along
  have recipients : (message id ["a@x", "b@x"]).recipients.length = 2 := by decide
  exact ⟨passes, failed, deferred, total, count⟩

namespace Sample

/-- What is recorded when `a`'s server hangs up. -/
def deferrals : List EmailEvent :=
  eventsOf (processEmail (platform id (request ["a@x"])) row.toOutboxEmail
    (send [] fun _ => some "eof") (settle [] true ["5m"])).1

/-- The claim is lost by then. -/
def leaseLost : PassInput := pass deferrals (fun _ => some "eof") true ["5m"]

end Sample

/-- A pass that loses its claim is not paced and settles nothing: the row is as it was after any
number of them. -/
theorem passes_unbounded_lost : pacedPass (platform id (request ["a@x"])) row leaseLost = false ∧
    ∀ n, ∃ s : MessageState, exec (passStep (platform id (request ["a@x"])))
        (message id ["a@x"]).start (replicate n leaseLost) = some s ∧
      AllSteps (passStep (platform id (request ["a@x"]))) (Scheduled ["5m"])
        (message id ["a@x"]).start (replicate n leaseLost) ∧ s.row = some row := by
  have step : ∀ s : MessageState, s.row = some row → passStep (platform id (request ["a@x"])) s
      leaseLost = some ⟨some row, s.events ++ (deferrals ++ deferrals) ++ deferrals, s.passes⟩ := by
    intro s here
    rw [passStep, here]
    rfl
  refine ⟨by decide, fun n => ?_⟩
  suffices runs : ∀ s : MessageState, s.row = some row → (∀ e ∈ s.events, e ∈ deferrals) →
      ∃ t : MessageState, exec (passStep (platform id (request ["a@x"]))) s
        (replicate n leaseLost) = some t ∧ AllSteps (passStep (platform id (request ["a@x"])))
        (Scheduled ["5m"]) s (replicate n leaseLost) ∧ t.row = some row from
    runs (message id ["a@x"]).start rfl fun _ mem => absurd mem not_mem_nil
  induction n with
  | zero => exact fun s here _ => ⟨s, rfl, trivial, here⟩
  | succ _ ih =>
    intro s here known
    have known' : ∀ e ∈ s.events ++ (deferrals ++ deferrals) ++ deferrals, e ∈ deferrals := by
      intro e mem
      simp only [mem_append, or_self, or_assoc] at mem
      exact mem.elim (known e) id
    obtain ⟨t, run, along, after⟩ := ih ⟨some row, _, s.passes⟩ rfl known'
    refine ⟨t, (exec_cons ..).mpr ⟨_, step s here, run⟩, ⟨?_, fun u taken => ?_⟩, after⟩
    · exact ⟨pass_recorded _ _ _ _, pass_complete _ _ _ known, rfl⟩
    · cases (step s here).symm.trans taken
      exact along

end Panmail.Delivery
