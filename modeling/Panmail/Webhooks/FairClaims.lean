import Mathlib.Data.List.Perm.Subperm
import Panmail.Webhooks.Deliveries

/-!
# Fair claims

`ClaimDue` numbers the due rows of every subscription, the oldest first, and takes the rows in the
order of their numbers, up to a limit. A subscription that has a row left out has all rows before
that one taken, so no other subscription gets more than one row beyond its share.
-/
namespace Panmail.Webhooks

open Tables List

/-- `ClaimDue` where nobody else claims: the rows it may return. -/
def ClaimDue (table : DeliveryTable) (limit perSubscription : Nat) (lease now : Time)
    (token : String) (claimed : List DeliveryRow) : Prop :=
  ∃ answer, Ranked (table.selectWhere (isDue now)) (max perSubscription 1) answer ∧
    Queue.Listed (Queue.claimUpdate table ((answer.take limit).map (·.id)) token (now + lease) now)
      token claimed

def share (rows : List DeliveryRow) (webhookID : String) : Nat :=
  rows.countP fun r => decide (r.webhookID = webhookID)

section
variable {due taken : List DeliveryRow} {x y : DeliveryRow} {webhookID : String} {n : Nat}

theorem turn_ne (first : x ∈ due) (second : y ∈ due) (same : x.webhookID = y.webhookID)
    (other : x.id ≠ y.id) : turn due x ≠ turn due y := by
  have order : precedes x y = true ∨ precedes y x = true := by
    have ids : x.id < y.id ∨ y.id < x.id := by
      by_contra neither
      rw [not_or, String.not_lt, String.not_lt] at neither
      exact other (String.le_antisymm neither.2 neither.1)
    simp only [precedes, Bool.or_eq_true, Bool.and_eq_true, decide_eq_true_eq]
    rcases Nat.lt_trichotomy x.createdAt y.createdAt with less | equal | more
    · exact .inl (.inl less)
    · exact ids.imp (fun less => .inr ⟨equal, less⟩) fun less => .inr ⟨equal.symm, less⟩
    · exact .inr (.inl more)
  rcases order with before | before
  · exact Nat.ne_of_lt (turn_lt first same before)
  · exact Nat.ne_of_gt (turn_lt second same.symm before)

theorem share_le (apart : (taken.map (·.id)).Nodup) (inside : taken ⊆ due)
    (low : ∀ r ∈ taken, turn due r ≤ n) : share taken webhookID ≤ n := by
  let mine := taken.filter fun r => decide (r.webhookID = webhookID)
  have among {r : DeliveryRow} (mem : r ∈ mine) : r ∈ taken ∧ r.webhookID = webhookID := by
    simpa [mine] using mem
  have numbers : (mine.map (turn due)).Nodup := by
    refine pairwise_map.mpr
      (((pairwise_map.mp apart).filter _).imp_of_mem fun first second other => ?_)
    exact turn_ne (inside (among first).1) (inside (among second).1)
      ((among first).2.trans (among second).2.symm) other
  have bounded : mine.map (turn due) ⊆ List.range' 1 n := by
    intro k mem
    obtain ⟨r, own, rfl⟩ := mem_map.mp mem
    have positive : 1 ≤ turn due r := Nat.le_add_left 1 _
    have small := low r (among own).1
    rw [mem_range'_1]
    omega
  have counted := (numbers.subperm bounded).length_le
  rwa [length_map, length_range', ← countP_eq_length_filter] at counted

theorem exists_next (apart : due.Nodup) (mem : y ∈ due) (out : y ∉ taken) :
    ∃ z ∈ due, z ∉ taken ∧ turn due z ≤ share taken y.webhookID + 1 := by
  induction number : turn due y using Nat.strongRecOn generalizing y with
  | _ n ih =>
    by_cases all : ∀ x ∈ due, x.webhookID = y.webhookID → precedes x y = true → x ∈ taken
    · refine ⟨y, mem, out, Nat.succ_le_succ ?_⟩
      rw [share, countP_eq_length_filter, countP_eq_length_filter]
      refine ((apart.filter _).subperm fun x before => ?_).length_le
      simp only [mem_filter, Bool.and_eq_true, decide_eq_true_eq] at before ⊢
      exact ⟨all x before.1 before.2.1 before.2.2, before.2.1⟩
    · push Not at all
      obtain ⟨x, inside, same, before, left⟩ := all
      rw [← same]
      exact ih _ (number ▸ turn_lt inside same before) inside left rfl

end

section
variable {table : DeliveryTable} {limit perSubscription : Nat} {lease now : Time} {token : String}
  {claimed answer : List DeliveryRow}

theorem Ranked.taken_spec (limit : Nat)
    (ranked : Ranked (table.selectWhere (isDue now)) perSubscription answer) :
    ((answer.take limit).map (·.id)).Nodup ∧ ∀ r ∈ answer.take limit, r ∈ table.rows ∧
      isDue now r = true ∧ turn (table.selectWhere (isDue now)) r ≤ perSubscription := by
  constructor
  · refine ((ranked.1.map _).nodup_iff.mpr ?_).sublist ((take_sublist limit answer).map _)
    exact table.unique.sublist ((filter_sublist.trans filter_sublist).map _)
  · intro r mem
    obtain ⟨due, low⟩ := mem_filter.mp (ranked.1.mem_iff.mp (mem_of_mem_take mem))
    obtain ⟨row, ready⟩ := Table.mem_selectWhere.mp due
    exact ⟨row, ready, of_decide_eq_true low⟩

theorem claimed_perm (fresh : ∀ r ∈ table.rows, r.claimToken ≠ some token)
    (ranked : Ranked (table.selectWhere (isDue now)) perSubscription answer)
    (listed : Queue.Listed (Queue.claimUpdate table ((answer.take limit).map (·.id)) token
      (now + lease) now) token claimed) :
    claimed.Perm ((answer.take limit).map (DeliveryRow.claim token (now + lease) now)) := by
  obtain ⟨apart, inside⟩ := ranked.taken_spec limit
  have before : ((answer.take limit).map (DeliveryRow.claim token (now + lease) now)).Nodup := by
    refine List.Nodup.of_map (·.id) ?_
    rwa [map_map]
  refine listed.1.trans ((perm_ext_iff_of_nodup
    ((List.Nodup.of_map _ (Table.unique _)).filter _) before).mpr fun r => ?_)
  simp only [Queue.claimUpdate, Table.updateWhere, mem_filter, mem_map, decide_eq_true_eq]
  constructor
  · rintro ⟨⟨x, mem, rfl⟩, has⟩
    by_cases chosen : (decide (∃ y ∈ answer.take limit, y.id = x.id) && isDue now x) = true
    · obtain ⟨y, taken, same⟩ := of_decide_eq_true (Bool.and_eq_true_iff.mp chosen).1
      cases (Table.lookup_iff.mpr ⟨(inside y taken).1, same⟩).symm.trans
        (Table.lookup_iff.mpr ⟨mem, rfl⟩)
      exact ⟨x, taken, (if_pos chosen).symm⟩
    · rw [if_neg chosen] at has
      exact absurd has (fresh x mem)
  · rintro ⟨x, taken, rfl⟩
    have chosen : (decide (∃ y ∈ answer.take limit, y.id = x.id) && isDue now x) = true := by
      simpa [(inside x taken).2.1] using ⟨x, taken, rfl⟩
    exact ⟨⟨x, (inside x taken).1, if_pos chosen⟩, rfl⟩

/-- A claim takes due rows only, keeps the limits, takes the older rows of a subscription first, and
goes round the subscriptions. -/
theorem claim_fair (fresh : ∀ r ∈ table.rows, r.claimToken ≠ some token)
    (claim : ClaimDue table limit perSubscription lease now token claimed) :
    (∀ r ∈ claimed, ∃ old ∈ table.rows, isDue now old = true ∧
      r = old.claim token (now + lease) now) ∧
    claimed.length ≤ limit ∧ (∀ v, share claimed v ≤ max perSubscription 1) ∧
    claimed.Pairwise (fun x y => x.createdAt ≤ y.createdAt) ∧
    ∀ old ∈ table.rows, isDue now old = true → (∀ r ∈ claimed, r.id ≠ old.id) →
      (∀ r ∈ claimed, r.webhookID = old.webhookID → r.createdAt ≤ old.createdAt) ∧
      (share claimed old.webhookID < max perSubscription 1 →
        ∀ v, share claimed v ≤ share claimed old.webhookID + 1) := by
  obtain ⟨answer, ranked, listed⟩ := claim
  have perm := claimed_perm fresh ranked listed
  have shares (v : String) : share claimed v = share (answer.take limit) v := by
    rw [share, perm.countP_eq, countP_map]
    rfl
  obtain ⟨apart, taken⟩ := ranked.taken_spec limit
  have inside : answer.take limit ⊆ table.selectWhere (isDue now) := fun r mem =>
    Table.mem_selectWhere.mpr ⟨(taken r mem).1, (taken r mem).2.1⟩
  refine ⟨?_, ?_, ?_, listed.2, ?_⟩
  · intro r mem
    obtain ⟨old, first, rfl⟩ := mem_map.mp (perm.mem_iff.mp mem)
    exact ⟨old, (taken old first).1, (taken old first).2.1, rfl⟩
  · rw [perm.length_eq, length_map]
    exact length_take_le ..
  · intro v
    rw [shares]
    exact share_le apart inside fun r mem => (taken r mem).2.2
  · intro old row due left
    have mem : old ∈ table.selectWhere (isDue now) := Table.mem_selectWhere.mpr ⟨row, due⟩
    have out : old ∉ answer.take limit := fun first =>
      left _ (perm.mem_iff.mpr (mem_map_of_mem first)) rfl
    refine ⟨?_, fun room v => ?_⟩
    · intro r read same
      obtain ⟨x, first, rfl⟩ := mem_map.mp (perm.mem_iff.mp read)
      exact Nat.le_of_not_lt fun older => out (ranked.older_taken mem first same.symm older)
    · rw [shares] at room
      rw [shares, shares]
      have rows : (table.selectWhere (isDue now)).Nodup :=
        (List.Nodup.of_map _ table.unique).filter _
      obtain ⟨z, among, skipped, next⟩ := exists_next rows mem out
      refine share_le apart inside fun x first => ?_
      -- the row that comes next was left out, so everything taken is before it
      have listed : z ∈ answer := ranked.1.mem_iff.mpr (mem_filter.mpr
        ⟨among, decide_eq_true (Nat.le_trans next room)⟩)
      have order := ranked.2
      rw [← take_append_drop limit answer] at listed order
      have later := (mem_append.mp listed).resolve_left skipped
      have before := (pairwise_append.mp order).2.2 x first z later
      simp only [notAfter, Bool.or_eq_true, Bool.and_eq_true, decide_eq_true_eq] at before
      omega

end

/-- Three notifications for one subscription, and a newer one for another. -/
def backlog : DeliveryTable where
  rows := [.new "n1" "t" "w" "MAIL_SENT" "payload" 1, .new "n2" "t" "w" "MAIL_SENT" "payload" 2,
    .new "n3" "t" "w" "MAIL_SENT" "payload" 3, .new "n4" "t" "v" "MAIL_SENT" "payload" 4]
  unique := by decide

/-- A claim of two rows takes one for each. -/
theorem claim_fair_backlog : ∃ claimed, ClaimDue backlog 2 10 minute 5 "token" claimed ∧
    claimed.map (·.id) = ["n1", "n4"] ∧ ∀ v, share claimed v ≤ share claimed "w" + 1 := by
  let claimed := [backlog.rows[0], backlog.rows[3]].map (DeliveryRow.claim "token" (5 + minute) 5)
  have claim : ClaimDue backlog 2 10 minute 5 "token" claimed :=
    ⟨[backlog.rows[0], backlog.rows[3], backlog.rows[1], backlog.rows[2]], by decide, by decide⟩
  refine ⟨claimed, claim, by decide, ?_⟩
  exact ((claim_fair (by decide) claim).2.2.2.2 backlog.rows[1] (by decide) (by decide)
    (by decide)).2 (by decide)

end Panmail.Webhooks
