import Panmail.Inbound.Receipts

/-!
# One message, many posts

For any number of posts of a message, on any number of instances and in every interleaving: a
duplicate repeats a message that was processed, a completed message lets no further post through,
and a post that was overtaken cannot settle the claim of its successor. But one that was let through
and overtaken before it began is processed even after its successor has completed the message.
-/
namespace Panmail.Inbound

open Tables Runs List Table

/-! ### What a step does to a receipt -/

/-- What one step of a post does to the receipt of `k`: the row before and the row after. -/
inductive ReceiptChange (p : Post) (token : Nat) (k : MessageKey) (m : Move) :
    Option Receipt → Option Receipt → Prop
  | same (row : Option Receipt) : ReceiptChange p token k m row row
  | inserted (pass now : Nat) (named : p.key = k) (phase : p.phase = .inserting pass)
      (moved : m = .insert now) :
      ReceiptChange p token k m none (some ⟨k, .processing, token, now, now⟩)
  | takenOver (r : Receipt) (pass mine now : Nat) (named : p.key = k)
      (phase : p.phase = .takingOver pass mine now) (open_ : r.state = .processing) :
      ReceiptChange p token k m (some r) (some { r with claimToken := mine, claimedAt := now })
  | completed (r : Receipt) (mine : Nat) (named : p.key = k)
      (phase : p.phase = .completing (some mine)) (held : r.claimToken = mine)
      (open_ : r.state = .processing) :
      ReceiptChange p token k m (some r) (some { r with state := .done })
  | released (r : Receipt) (mine : Nat) (named : p.key = k)
      (phase : p.phase = .releasing (some mine)) (held : r.claimToken = mine)
      (open_ : r.state = .processing) :
      ReceiptChange p token k m (some r) none

variable {k : MessageKey} {m : Move} {r : Receipt} {mine i : Nat} {label : Label}

theorem ReceiptChange.of_done {p : Post} {token : Nat} {row : Option Receipt}
    (change : ReceiptChange p token k m (some r) row) (done : r.state = .done) : row = some r := by
  cases change with
  | same => rfl
  | takenOver _ _ _ _ _ _ open_ | completed _ _ _ _ _ open_ | released _ _ _ _ _ open_ =>
    cases open_.symm.trans done

namespace Receipts
variable {table : Receipts} {key : MessageKey}

theorem lookup_insertReceipt (token now : Nat) : (insertReceipt table key token now).2 = false ∧
      (insertReceipt table key token now).1 = table ∨
    (insertReceipt table key token now).2 = true ∧ table.lookup key = none ∧
      ∀ k, (insertReceipt table key token now).1.lookup k =
        if key = k then some ⟨key, .processing, token, now, now⟩ else table.lookup k := by
  unfold insertReceipt
  split
  next after inserted =>
    exact .inr ⟨rfl, (insert?_rows inserted).2, lookup_insert? inserted⟩
  next => exact .inl ⟨rfl, rfl⟩

theorem lookup_takeOverReceipt (token now : Nat) (k : MessageKey) :
    (takeOverReceipt table key token now).1.lookup k = table.lookup k ∨
      ∃ r, table.lookup k = some r ∧ key = k ∧ r.state = .processing ∧
        (takeOverReceipt table key token now).1.lookup k =
          some { r with claimToken := token, claimedAt := now } := by
  refine (lookup_updateWhere_cases table (expired key now)
    (fun r => { r with claimToken := token, claimedAt := now })
    (fun _ => rfl) k).imp_right fun ⟨r, found, chosen, after⟩ => ?_
  simp only [expired, Bool.and_eq_true, decide_eq_true_eq] at chosen
  have named := key_of_lookup found
  exact ⟨r, found, chosen.1.1.symm.trans named, chosen.1.2, after⟩

theorem takeOverReceipt_affected {token now : Nat}
    (affected : (takeOverReceipt table key token now).2 = true) :
    ∃ r, table.lookup key = some r ∧ r.state = .processing := by
  obtain ⟨r, mem, chosen⟩ := any_eq_true.mp affected
  simp only [expired, Bool.and_eq_true, decide_eq_true_eq] at chosen
  exact ⟨r, lookup_iff.mpr ⟨mem, chosen.1.1⟩, chosen.1.2⟩

theorem heldWith_iff {token : Nat} :
    heldWith key token r = true ↔ r.key = key ∧ r.claimToken = token ∧ r.state = .processing := by
  simp only [heldWith, Bool.and_eq_true, decide_eq_true_eq, and_assoc]

theorem lookup_completeReceipt (token : Nat) (k : MessageKey) :
    (completeReceipt table key token).lookup k = table.lookup k ∨
      ∃ r, table.lookup k = some r ∧ key = k ∧ r.claimToken = token ∧ r.state = .processing ∧
        (completeReceipt table key token).lookup k = some { r with state := .done } := by
  refine (lookup_updateWhere_cases ..).imp_right fun ⟨r, found, chosen, after⟩ => ?_
  obtain ⟨named, held, open_⟩ := heldWith_iff.mp chosen
  exact ⟨r, found, named.symm.trans (key_of_lookup found), held, open_, after⟩

theorem lookup_releaseReceipt (token : Nat) (k : MessageKey) :
    (releaseReceipt table key token).lookup k = table.lookup k ∨
      ∃ r, table.lookup k = some r ∧ key = k ∧ r.claimToken = token ∧ r.state = .processing ∧
        (releaseReceipt table key token).lookup k = none := by
  refine (lookup_deleteWhere_cases ..).imp_right fun ⟨r, found, chosen, after⟩ => ?_
  obtain ⟨named, held, open_⟩ := heldWith_iff.mp chosen
  exact ⟨r, found, named.symm.trans (key_of_lookup found), held, open_, after⟩

end Receipts

open Receipts

/-- The receipt a post holds, or the token it has ready to take one over with. -/
def Post.token (p : Post) : Option Nat :=
  match p.phase with
  | .takingOver _ token _ => some token
  | .acquired held | .processing held | .completing held | .releasing held => held
  | .inserting _ | .reading _ | .answered _ | .died => none

section
variable {p p' : Post} {table table' : Receipts} {token token' : Nat}

/-! ### What a step does to a post -/

def PostPhase.claiming : PostPhase → Bool
  | .inserting _ | .takingOver _ _ _ | .reading _ => true
  | _ => false

/-- What one move does to a post, and the next token after it. -/
inductive Post.Next (p : Post) (table : Receipts) (token : Nat) : Move → Nat → Post → Prop
  | inserted (pass now : Nat) (phase : p.phase = .inserting pass)
      (absent : table.lookup p.key = none) :
      Next p table token (.insert now) (token + 1) (p.grant (some token))
  | contested (pass now : Nat) (phase : p.phase = .inserting pass) :
      Next p table token (.insert now) (token + 1) (p.at_ (.takingOver pass token now))
  | tookOver (pass mine now : Nat) (r : Receipt) (phase : p.phase = .takingOver pass mine now)
      (found : table.lookup p.key = some r) (open_ : r.state = .processing) :
      Next p table token .takeOver token (p.grant (some mine))
  | refused (pass mine now : Nat) (phase : p.phase = .takingOver pass mine now) :
      Next p table token .takeOver token (p.at_ (.reading pass))
  | again (pass : Nat) (phase : p.phase = .reading pass) :
      Next p table token .read token (p.at_ (.inserting 1))
  | duplicate (pass : Nat) (r : Receipt) (phase : p.phase = .reading pass)
      (found : table.lookup p.key = some r) (done : r.state = .done) :
      Next p table token .read token (p.at_ (.answered .duplicate))
  | inFlight (pass : Nat) (phase : p.phase = .reading pass) :
      Next p table token .read token (p.at_ (.answered .inFlight))
  | unanswered (phase : p.phase.claiming = true) :
      Next p table token .claimFails token (p.grant none)
  | begins (held : Option Nat) (phase : p.phase = .acquired held) :
      Next p table token .process token (p.at_ (.processing held))
  | returns (held : Option Nat) (ok : Bool) (phase : p.phase = .processing held) :
      Next p table token (.return_ ok) token
        { p with
          phase := if ok then .completing held else .releasing held
          committed := ok }
  | completes (held : Option Nat) (executed : Bool) (phase : p.phase = .completing held) :
      Next p table token (.complete executed) token (p.at_ (.answered .accepted))
  | releases (held : Option Nat) (executed : Bool) (phase : p.phase = .releasing held) :
      Next p table token (.release executed) token (p.at_ (.answered .failed))
  | dies : Next p table token .die token (p.at_ .died)

theorem settled_cases (table : Receipts) (statement : Nat → Receipts) (executed : Bool)
    (held : Option Nat) : settled table statement executed held = table ∨
      ∃ mine, held = some mine ∧ settled table statement executed held = statement mine := by
  cases held <;> cases executed <;> simp [settled]

theorem post_next (moved : p.step table token m = some (table', token', p')) :
    p.Next table token m token' p' ∧
      ∀ k, ReceiptChange p token k m (table.lookup k) (table'.lookup k) := by
  cases m with
  | insert now =>
    simp only [Post.step] at moved
    split at moved <;> cases moved
    next pass phase =>
      -- the token is drawn before the insert, so it is spent even when the row exists
      rcases lookup_insertReceipt token now with ⟨affected, after⟩ | ⟨affected, absent, after⟩
      · rw [affected, after]
        exact ⟨.contested pass now phase, fun _ => .same _⟩
      · rw [affected]
        refine ⟨.inserted pass now phase absent, fun k => ?_⟩
        rw [after]
        split
        next named =>
          subst named
          rw [absent]
          exact .inserted pass now rfl phase rfl
        next => exact .same _
  | takeOver =>
    simp only [Post.step] at moved
    split at moved <;> cases moved
    next pass mine now phase =>
      constructor
      · split
        next affected =>
          obtain ⟨r, found, open_⟩ := takeOverReceipt_affected affected
          exact .tookOver pass mine now r phase found open_
        next => exact .refused pass mine now phase
      · intro k
        rcases lookup_takeOverReceipt mine now k with after | ⟨r, found, named, open_, after⟩
        · rw [after]
          exact .same _
        · rw [after, found]
          exact .takenOver r pass mine now named phase open_
  | read =>
    simp only [Post.step] at moved
    split at moved <;> cases moved
    next pass phase =>
      refine ⟨?_, fun _ => .same _⟩
      cases state : getReceiptState table p.key with
      | none =>
        -- the row that stood in the way is gone: the first pass inserts once more
        rw [Post.readState]
        split
        · exact .again pass phase
        · exact .inFlight pass phase
      | some state_ =>
        obtain ⟨r, found, same⟩ := Option.map_eq_some_iff.mp state
        cases state_ with
        | done => exact .duplicate pass r phase found same
        | processing => exact .inFlight pass phase
  | claimFails =>
    simp only [Post.step] at moved
    split at moved <;> cases moved
    all_goals next phase => exact ⟨.unanswered (by rw [phase]; rfl), fun _ => .same _⟩
  | complete executed =>
    simp only [Post.step] at moved
    split at moved <;> cases moved
    next held phase =>
      refine ⟨.completes held executed phase, fun k => ?_⟩
      -- without a receipt, or when the statement is not executed, no row changes
      rcases settled_cases table (Receipts.completeReceipt table p.key) executed held with
        idle | ⟨mine, rfl, ran⟩
      · exact idle.symm ▸ .same _
      rw [ran]
      rcases lookup_completeReceipt mine k with after | ⟨r, found, named, held, open_, after⟩
      · exact after.symm ▸ .same _
      · rw [found]
        exact after.symm ▸ .completed r mine named phase held open_
  | release executed =>
    simp only [Post.step] at moved
    split at moved <;> cases moved
    next held phase =>
      refine ⟨.releases held executed phase, fun k => ?_⟩
      rcases settled_cases table (Receipts.releaseReceipt table p.key) executed held with
        idle | ⟨mine, rfl, ran⟩
      · exact idle.symm ▸ .same _
      rw [ran]
      rcases lookup_releaseReceipt mine k with after | ⟨r, found, named, held, open_, after⟩
      · exact after.symm ▸ .same _
      · rw [found]
        exact after.symm ▸ .released r mine named phase held open_
  | process | return_ ok | die =>
    simp only [Post.step] at moved
    split at moved <;> cases moved
    refine ⟨?_, fun _ => .same _⟩
    first
    | exact .dies
    | next held phase => first | exact .begins held phase | exact .returns held ok phase

namespace Post.Next

theorem key_eq (next : p.Next table token m token' p') : p'.key = p.key := by
  cases next <;> rfl

theorem token_eq (next : p.Next table token m token' p') (has : p'.token = some mine) :
    p.token = some mine ∨ mine = token ∧ token' = token + 1 := by
  cases next with
  | inserted | contested => exact .inr ⟨(Option.some.inj has).symm, rfl⟩
  | tookOver _ _ _ _ phase | begins _ phase =>
    rw [Post.token, phase]
    exact .inl has
  | returns _ ok phase =>
    rw [Post.token, phase]
    cases ok <;> exact .inl has
  | _ => cases has

theorem insert_token {now : Nat} (next : p.Next table token (.insert now) token' p') :
    token' = token + 1 := by
  cases next <;> rfl

section
variable (next : p.Next table token m token' p')
include next

theorem settled {held : Option Nat} (phase : p.phase = .completing held) : p'.token = none := by
  cases next with
  | completes | releases | dies => rfl
  | inserted _ _ other | contested _ _ other | tookOver _ _ _ _ other | refused _ _ _ other
  | again _ other | duplicate _ _ other | inFlight _ other | begins _ other | returns _ _ other =>
    cases other.symm.trans phase
  | unanswered claiming => simp [phase, PostPhase.claiming] at claiming

theorem through (out : p.phase.claiming = false) :
    p'.phase.claiming = false ∧ ∀ τ, p'.token = some τ → p.token = some τ := by
  cases next with
  | inserted _ _ phase | contested _ _ phase | tookOver _ _ _ _ phase | refused _ _ _ phase
  | again _ phase | duplicate _ _ phase | inFlight _ phase =>
    rw [phase] at out
    cases out
  | unanswered phase => cases phase.symm.trans out
  | begins held phase =>
    have had : p.token = held := by rw [Post.token, phase]
    exact ⟨rfl, fun _ has => had.trans has⟩
  | returns held ok phase =>
    have had : p.token = held := by rw [Post.token, phase]
    cases ok <;> exact ⟨rfl, fun _ has => had.trans has⟩
  | completes | releases | dies => exact ⟨rfl, nofun⟩

theorem read_done (answered : p'.phase = .answered .duplicate) :
    ∃ r pass, p.phase = .reading pass ∧ table.lookup p.key = some r ∧ r.state = .done := by
  cases next with
  | duplicate pass r phase found done => exact ⟨r, pass, phase, found, done⟩
  | returns _ ok => cases ok <;> cases answered
  | _ => cases answered

theorem without (phase : p'.phase = .acquired none) : m = .claimFails := by
  cases next with
  | unanswered => rfl
  | returns _ ok => cases ok <;> cases phase
  | _ => cases phase

theorem token_le : token ≤ token' := by
  cases next <;> first | exact Nat.le_refl _ | exact Nat.le_succ _

theorem granted (now_ : p'.granted = true) :
    p.granted = true ∨ m = .claimFails ∨ table.lookup p.key = none ∨
      ∃ r, table.lookup p.key = some r ∧ r.state = .processing := by
  cases next with
  | inserted _ _ _ absent => exact .inr (.inr (.inl absent))
  | tookOver _ _ _ r _ found open_ => exact .inr (.inr (.inr ⟨r, found, open_⟩))
  | unanswered => exact .inr (.inl rfl)
  | _ => exact .inl now_

end

end Post.Next

/-- What the history of a post says about its phase. -/
def Post.Local (p : Post) : Prop :=
  match p.phase with
  | .inserting _ | .takingOver _ _ _ | .reading _ =>
    p.granted = false ∧ p.committed = false ∧ p.key.dedupeKey ≠ ""
  | .acquired _ | .processing _ => p.granted = true ∧ p.committed = false
  | .completing _ | .answered .accepted => p.committed = true
  | .releasing _ | .answered _ | .died => True

theorem Post.token_new (key : MessageKey) : (Post.new key).token = none := by
  unfold Post.new
  split <;> rfl

theorem Post.local_new (key : MessageKey) : (Post.new key).Local := by
  unfold Post.new
  split
  next => exact ⟨rfl, rfl⟩
  next named => exact ⟨rfl, rfl, named⟩

namespace Post.Next

theorem local_ (next : p.Next table token m token' p') (known : p.Local) : p'.Local := by
  cases next with
  | inserted _ _ phase | tookOver _ _ _ _ phase =>
    rw [Post.Local, phase] at known
    exact ⟨rfl, known.2.1⟩
  | contested _ _ phase | refused _ _ _ phase | again _ phase | begins _ phase
  | completes _ _ phase =>
    rw [Post.Local, phase] at known
    exact known
  | unanswered phase =>
    refine ⟨rfl, ?_⟩
    unfold Post.Local at known
    split at known
    all_goals first
      | exact known.2.1
      | next other => simp [PostPhase.claiming, other] at phase
  | returns _ ok => cases ok <;> trivial
  | duplicate | inFlight | releases | dies => trivial

theorem committed (next : p.Next table token m token' p') (known : p.Local)
    (was : p.committed = true) : p'.committed = true := by
  cases next with
  | returns _ _ phase =>
    rw [Post.Local, phase] at known
    cases known.2.symm.trans was
  | _ => exact was

end Post.Next

end

def Label.answering : Label → Bool
  | .move _ .claimFails | .move _ (.complete false) | .move _ (.release false) | .prune _ => false
  | _ => true

/-! ### The invariant -/

namespace Endpoint

/-- Post `j` carries the message and its `Process` has returned without an error. -/
def CommittedBy (s : Endpoint) (k : MessageKey) (j : Nat) : Prop :=
  ∃ q, s.posts[j]? = some q ∧ q.key = k ∧ q.committed = true

structure Sound (s : Endpoint) : Prop where
  posts : ∀ p ∈ s.posts, p.Local
  bounded : ∀ p ∈ s.posts, ∀ mine, p.token = some mine → mine < s.nextToken
  unique : ∀ {i j : Nat} {p q : Post}, s.posts[i]? = some p → s.posts[j]? = some q →
    ∀ mine, p.token = some mine → q.token = some mine → i = j
  rows : ∀ k r, s.receipts.lookup k = some r → k.dedupeKey ≠ "" ∧ r.claimToken < s.nextToken
  done : ∀ k r, s.receipts.lookup k = some r → r.state = .done →
    (∃ j, s.CommittedBy k j) ∧ ∀ p ∈ s.posts, p.token ≠ some r.claimToken
  duplicates : ∀ {i : Nat} {p : Post}, s.posts[i]? = some p → p.phase = .answered .duplicate →
    ∃ j, j ≠ i ∧ s.CommittedBy p.key j

namespace Sound
variable {s t : Endpoint}

theorem init_ : Sound init where
  posts _ mem := nomatch mem
  bounded _ mem := nomatch mem
  unique found := nomatch found
  rows _ _ found := nomatch found
  done _ _ found := nomatch found
  duplicates found := nomatch found

theorem arrive (ok : s.Sound) (key : MessageKey) :
    Sound { s with posts := s.posts ++ [.new key] } := by
  have fresh : (Post.new key).token = none ∧ (Post.new key).phase ≠ .answered .duplicate := by
    refine ⟨Post.token_new key, ?_⟩
    unfold Post.new
    split <;> nofun
  have kept : ∀ k j, s.CommittedBy k j →
      CommittedBy { s with posts := s.posts ++ [Post.new key] } k j := by
    rintro k j ⟨q, found, rest⟩
    exact ⟨q, getElem?_append_of found, rest⟩
  constructor
  case posts => exact forall_mem_concat ok.posts (Post.local_new key)
  case bounded => exact forall_mem_concat ok.bounded fun _ has => nomatch fresh.1.symm.trans has
  case unique =>
    intro i j p q first second mine has also
    rcases getElem?_concat_cases first with old | rfl
    · rcases getElem?_concat_cases second with older | rfl
      · exact ok.unique old older mine has also
      · cases fresh.1.symm.trans also
    · cases fresh.1.symm.trans has
  case rows => exact ok.rows
  case done =>
    intro k r found closed
    obtain ⟨⟨j, by_⟩, free⟩ := ok.done k r found closed
    exact ⟨⟨j, kept k j by_⟩,
      forall_mem_concat free fun has => nomatch fresh.1.symm.trans has⟩
  case duplicates =>
    intro i p found answered
    rcases getElem?_concat_cases found with old | rfl
    · obtain ⟨j, away, by_⟩ := ok.duplicates old answered
      exact ⟨j, away, kept _ _ by_⟩
    · exact absurd answered fresh.2

theorem prune (ok : s.Sound) (before : Nat) :
    Sound { s with receipts := pruneReceipts s.receipts before } := by
  exact ⟨ok.posts, ok.bounded, ok.unique,
    fun k r found => ok.rows k r (lookup_of_deleteWhere found),
    fun k r found => ok.done k r (lookup_of_deleteWhere found), ok.duplicates⟩

theorem kept (ok : s.Sound) (taken : s.step (.move i m) = some t) {j : Nat}
    (by_ : s.CommittedBy k j) : t.CommittedBy k j := by
  obtain ⟨p, p', found, moved, posts⟩ := move_step taken
  obtain ⟨next, _⟩ := post_next moved
  obtain ⟨q, there, named, committed⟩ := by_
  by_cases here : j = i
  · subst here
    cases found.symm.trans there
    refine ⟨p', ?_, next.key_eq.trans named,
      next.committed (ok.posts p (mem_of_getElem? found)) committed⟩
    rw [posts, getElem?_set_here p' found]
  · refine ⟨q, ?_, named, committed⟩
    rw [posts, getElem?_set_ne (Ne.symm here)]
    exact there

theorem token_move (taken : s.step (.move i m) = some t) {q : Post} (mem : q ∈ t.posts)
    (has : q.token = some mine) :
    (∃ q₀ ∈ s.posts, q₀.token = some mine) ∨ mine = s.nextToken ∧ t.nextToken = s.nextToken + 1 := by
  obtain ⟨p, p', found, moved, posts⟩ := move_step taken
  rw [posts] at mem
  rcases mem_or_eq_of_mem_set mem with old | rfl
  · exact .inl ⟨q, old, has⟩
  · exact ((post_next moved).1.token_eq has).imp_left fun before =>
      ⟨p, mem_of_getElem? found, before⟩

theorem move (ok : s.Sound) (taken : s.step (.move i m) = some t) : t.Sound := by
  obtain ⟨p, p', found, moved, posts⟩ := move_step taken
  obtain ⟨next, change⟩ := post_next moved
  have mem : p ∈ s.posts := mem_of_getElem? found
  have known := ok.posts p mem
  have grows := next.token_le
  constructor
  case posts =>
    rw [posts]
    exact forall_mem_set ok.posts (next.local_ known)
  case bounded =>
    intro q there mine has
    rcases token_move taken there has with ⟨q₀, old, had⟩ | ⟨rfl, one⟩
    · exact Nat.lt_of_lt_of_le (ok.bounded q₀ old mine had) grows
    · omega
  case unique =>
    intro j j' q q' first second mine has also
    rw [posts] at first second
    -- a fresh token is above all others, so only the moved post can have it
    rcases getElem?_set_cases first with ⟨rfl, rfl⟩ | ⟨_, old⟩ <;>
      rcases getElem?_set_cases second with ⟨rfl, rfl⟩ | ⟨_, older⟩
    · rfl
    · rcases next.token_eq has with had | ⟨rfl, _⟩
      · exact ok.unique found older mine had also
      · exact absurd (ok.bounded q' (mem_of_getElem? older) _ also) (Nat.lt_irrefl _)
    · rcases next.token_eq also with had | ⟨rfl, _⟩
      · exact ok.unique old found mine has had
      · exact absurd (ok.bounded q (mem_of_getElem? old) _ has) (Nat.lt_irrefl _)
    · exact ok.unique old older mine has also
  case rows =>
    intro k r there
    have change := change k
    rw [there] at change
    generalize before : s.receipts.lookup k = row at change
    cases change with
    | same =>
      have old := ok.rows k r before
      exact ⟨old.1, Nat.lt_of_lt_of_le old.2 grows⟩
    | inserted _ _ named phase moved =>
      rw [Post.Local, phase] at known
      subst moved
      exact ⟨named ▸ known.2.2, next.insert_token ▸ Nat.lt_succ_self _⟩
    | takenOver r _ mine _ _ phase =>
      -- the token was drawn with the insert that failed
      have held : p.token = some mine := by rw [Post.token, phase]
      exact ⟨(ok.rows k r before).1, Nat.lt_of_lt_of_le (ok.bounded p mem mine held) grows⟩
    | completed r =>
      have old := ok.rows k r before
      exact ⟨old.1, Nat.lt_of_lt_of_le old.2 grows⟩
  case done =>
    intro k r there closed
    have change := change k
    rw [there] at change
    generalize before : s.receipts.lookup k = row at change
    cases change with
    | same =>
      obtain ⟨⟨j, by_⟩, free⟩ := ok.done k r before closed
      refine ⟨⟨j, ok.kept taken by_⟩, fun q among has => ?_⟩
      rcases token_move taken among has with ⟨q₀, old, had⟩ | ⟨fresh, _⟩
      · exact free q₀ old had
      · exact absurd (ok.rows k r before).2 (by omega)
    | inserted => cases closed
    | takenOver _ _ _ _ _ _ open_ => cases open_.symm.trans closed
    | completed _ mine named phase held =>
      -- its own post gives the token up in this step, and no other post has it
      have has : p.token = some mine := by rw [Post.token, phase]
      rw [Post.Local, phase] at known
      refine ⟨⟨i, ok.kept taken ⟨p, found, named, known⟩⟩, fun q among also => ?_⟩
      rw [held] at also
      rw [posts] at among
      rcases mem_set_other among with rfl | ⟨j, away, old⟩
      · cases (next.settled phase).symm.trans also
      · exact away (ok.unique old found mine also has)
  case duplicates =>
    intro j q there answered
    rw [posts] at there
    rcases getElem?_set_cases there with ⟨rfl, rfl⟩ | ⟨away, old⟩
    · -- it read the row of a completed message, which another post had processed
      obtain ⟨r, pass, phase, row, closed⟩ := next.read_done answered
      obtain ⟨⟨j', by_⟩, _⟩ := ok.done p.key r row closed
      refine ⟨j', ?_, next.key_eq.symm ▸ ok.kept taken by_⟩
      -- not this one: a post that is still claiming has committed nothing
      rintro rfl
      obtain ⟨q', same, _, committed⟩ := by_
      cases found.symm.trans same
      rw [Post.Local, phase] at known
      cases known.2.1.symm.trans committed
    · obtain ⟨j', apart, by_⟩ := ok.duplicates old answered
      exact ⟨j', apart, ok.kept taken by_⟩

theorem step (ok : s.Sound) (taken : s.step label = some t) : t.Sound := by
  cases label with
  | arrive key =>
    cases taken
    exact ok.arrive key
  | move => exact ok.move taken
  | prune before =>
    cases taken
    exact ok.prune before

end Sound

/-! ### A completed message -/

def Completed (s : Endpoint) (k : MessageKey) : Prop :=
  ∃ r, s.receipts.lookup k = some r ∧ r.state = .done

/-- Post `i` was let through and the receipt it holds is no longer the message's. -/
def Overtaken (s : Endpoint) (i : Nat) : Prop :=
  ∃ p mine, s.posts[i]? = some p ∧ p.phase.claiming = false ∧ p.token = some mine ∧
    ∀ r, s.receipts.lookup p.key = some r → r.claimToken ≠ mine

/-- Only a message without a key is let through without a receipt. -/
def Keyed (s : Endpoint) : Prop :=
  ∀ p ∈ s.posts, p.phase = .acquired none → p.key.dedupeKey = ""

section
variable {s t : Endpoint}

theorem Keyed.step (keyed : s.Keyed) (answers : label.answering) (taken : s.step label = some t) :
    t.Keyed := by
  cases label with
  | arrive =>
    cases taken
    refine forall_mem_concat keyed fun phase => ?_
    unfold Post.new at phase ⊢
    split
    next empty => exact empty
    next named =>
      rw [if_neg named] at phase
      cases phase
  | move =>
    obtain ⟨p, p', found, moved, posts⟩ := move_step taken
    rw [Keyed, posts]
    refine forall_mem_set keyed fun phase => ?_
    cases (post_next moved).1.without phase
    cases answers
  | prune => cases answers

/-- A completed message stays completed, and lets no further post through. -/
structure Closed (s : Endpoint) (k : MessageKey) (r : Receipt) (t : Endpoint) : Prop where
  row : t.receipts.lookup k = some r
  granted : ∀ {i : Nat} {q : Post}, t.posts[i]? = some q → q.key = k → q.granted = true →
    ∃ p, s.posts[i]? = some p ∧ p.granted = true

theorem Closed.step {u : Endpoint} (ok : t.Sound) (closed : Closed s k r t)
    (done : r.state = .done) (answers : label.answering) (taken : t.step label = some u) :
    Closed s k r u := by
  cases label with
  | arrive =>
    cases taken
    refine ⟨closed.row, fun {i q} found named granted => ?_⟩
    rcases getElem?_concat_cases found with old | rfl
    · exact closed.granted old named granted
    · -- a message without a key is let through at once, but then it has no receipt either
      have keyed : k.dedupeKey ≠ "" := (ok.rows k r closed.row).1
      unfold Post.new at named granted
      split at granted
      next empty =>
        rw [if_pos empty] at named
        exact absurd (named ▸ empty) keyed
      next => cases granted
  | move =>
    obtain ⟨p, p', found, moved, posts⟩ := move_step taken
    obtain ⟨next, change⟩ := post_next moved
    constructor
    case row =>
      have change := change k
      rw [closed.row] at change
      exact change.of_done done
    case granted =>
      intro j q there named granted
      rw [posts] at there
      rcases getElem?_set_cases there with ⟨rfl, rfl⟩ | ⟨_, old⟩
      · have key : p.key = k := next.key_eq.symm.trans named
        -- an insert and a takeover both need a row that is not done
        rcases next.granted granted with before | rfl | absent | ⟨r', row, open_⟩
        · exact closed.granted found key before
        · cases answers
        · cases closed.row.symm.trans (key ▸ absent)
        · cases closed.row.symm.trans (key ▸ row)
          cases open_.symm.trans done
      · exact closed.granted old named granted
  | prune => cases answers

/-! ### An overtaken post -/

/-- Post `i` had the receipt `mine` of the message, which the table does not hold any more. -/
structure Passed (k : MessageKey) (i mine : Nat) (s : Endpoint) : Prop where
  below : mine < s.nextToken
  post : ∃ q, s.posts[i]? = some q ∧ q.key = k ∧ q.phase.claiming = false ∧
    ∀ τ, q.token = some τ → τ = mine
  others : ∀ {j : Nat} {q : Post}, s.posts[j]? = some q → q.token = some mine → j = i
  row : ∀ r, s.receipts.lookup k = some r → r.claimToken ≠ mine

theorem Passed.step (passed : Passed k i mine s) (taken : s.step label = some t) : Passed k i mine t := by
  obtain ⟨q, there, named, through, only⟩ := passed.post
  cases label with
  | arrive =>
    cases taken
    refine ⟨passed.below, ⟨q, getElem?_append_of there, named, through, only⟩,
      fun {j q'} found has => ?_, passed.row⟩
    rcases getElem?_concat_cases found with old | rfl
    · exact passed.others old has
    · cases (Post.token_new _).symm.trans has
  | move j =>
    obtain ⟨p, p', found, moved, posts⟩ := move_step taken
    obtain ⟨next, change⟩ := post_next moved
    have below := passed.below
    have grows := next.token_le
    constructor
    case below => omega
    case post =>
      by_cases here : j = i
      · subst here
        cases found.symm.trans there
        refine ⟨p', ?_, next.key_eq.trans named, (next.through through).1, fun τ has => ?_⟩
        · rw [posts, getElem?_set_here p' found]
        · exact only τ ((next.through through).2 τ has)
      · refine ⟨q, ?_, named, through, only⟩
        rw [posts, getElem?_set_ne here]
        exact there
    case others =>
      intro j' q' entry has
      rw [posts] at entry
      rcases getElem?_set_cases entry with ⟨rfl, rfl⟩ | ⟨_, old⟩
      · rcases next.token_eq has with had | ⟨rfl, _⟩
        · exact passed.others found had
        · exact absurd below (Nat.lt_irrefl _)
      · exact passed.others old has
    case row =>
      intro r after
      have change := change k
      rw [after] at change
      generalize before : s.receipts.lookup k = row at change
      cases change with
      | same => exact passed.row r before
      | inserted => exact (Nat.ne_of_lt below).symm
      | takenOver _ _ ours _ _ phase =>
        -- a post that takes over has a token of its own
        rintro rfl
        have has : p.token = some ours := by rw [Post.token, phase]
        obtain rfl := passed.others found has
        cases found.symm.trans there
        rw [phase] at through
        cases through
      | completed r => exact passed.row r before
  | prune before =>
    cases taken
    exact ⟨passed.below, ⟨q, there, named, through, only⟩, passed.others,
      fun r found => passed.row r (lookup_of_deleteWhere found)⟩

theorem Passed.settles {k' : MessageKey} (passed : Passed k i mine s)
    (taken : s.step (.move i m) = some t) : t.receipts.lookup k' = s.receipts.lookup k' := by
  obtain ⟨q, there, named, through, only⟩ := passed.post
  obtain ⟨p, p', found, moved, posts⟩ := move_step taken
  cases there.symm.trans found
  have change := (post_next moved).2 k'
  have old : ∀ r, s.receipts.lookup k' = some r → q.key = k' → r.claimToken ≠ mine := by
    rintro r row rfl
    exact passed.row r (named ▸ row)
  generalize before : s.receipts.lookup k' = row at change old
  generalize after : t.receipts.lookup k' = row' at change
  cases change with
  | same => rfl
  | inserted _ _ _ phase | takenOver _ _ _ _ _ phase =>
    rw [phase] at through
    cases through
  | completed r ours keyed phase held | released r ours keyed phase held =>
    have same := only ours (by rw [Post.token, phase])
    exact absurd (held.trans same) (old r rfl keyed)

end

/-! ### The result -/

def answering (_ : Endpoint) (label : Label) : Prop := label.answering = true

instance (s : Endpoint) (label : Label) : Decidable (answering s label) :=
  inferInstanceAs (Decidable (_ = true))

/-- What the receipts give in a reachable state. -/
structure Deduplicated (s : Endpoint) : Prop where
  /-- A duplicate repeats a message that another post has processed. -/
  duplicate : ∀ (i : Nat) (p : Post), s.posts[i]? = some p → p.phase = .answered .duplicate →
    ∃ j, j ≠ i ∧ s.CommittedBy p.key j
  /-- An answer of 202 stands for a processed message. -/
  accepted : ∀ (i : Nat) (p : Post) answer, s.posts[i]? = some p → p.phase = .answered answer →
    answer.isAccepted = true → ∃ j, s.CommittedBy p.key j
  /-- Once a `Complete` took effect no further post of the message is let through, and one yet to be
  processed was overtaken. -/
  completed : ∀ k, s.Completed k → ∀ labels t, AllSteps step answering s labels →
    exec step s labels = some t → t.Completed k ∧
      ∀ (i : Nat) (q : Post), t.posts[i]? = some q → q.key = k →
        (q.granted = true → ∃ p, s.posts[i]? = some p ∧ p.granted = true) ∧
        ∀ held, q.phase = .acquired held → q.granted = true ∧ t.Overtaken i
  /-- A post that was overtaken changes no receipt any more. -/
  overtaken : ∀ i, s.Overtaken i → ∀ labels t, exec step s labels = some t →
    ∀ m t', t.step (.move i m) = some t' → ∀ k, t'.receipts.lookup k = t.receipts.lookup k

theorem Sound.closed {s t : Endpoint} {labels : List Label} (ok : s.Sound)
    (row : s.receipts.lookup k = some r) (done : r.state = .done)
    (along : AllSteps Endpoint.step answering s labels)
    (run : exec Endpoint.step s labels = some t) : t.Sound ∧ Closed s k r t :=
  invariant_along Endpoint.step answering (fun t => t.Sound ∧ Closed s k r t)
    (fun _ _ _ answers inv taken => ⟨inv.1.step taken, inv.2.step inv.1 done answers taken⟩)
    s t labels ⟨ok, row, fun found _ granted => ⟨_, found, granted⟩⟩ along run

theorem Sound.overtaken {s : Endpoint} (ok : s.Sound) (keyed : s.Keyed) {q : Post}
    {held : Option Nat} (row : s.receipts.lookup q.key = some r) (done : r.state = .done)
    (found : s.posts[i]? = some q) (phase : q.phase = .acquired held) : s.Overtaken i := by
  have mem := mem_of_getElem? found
  have has : q.token = held := by rw [Post.token, phase]
  cases held with
  | none => exact absurd (keyed q mem phase) (ok.rows q.key r row).1
  | some mine =>
    -- the receipt of a completed message is held by nobody
    refine ⟨q, mine, found, by rw [phase]; rfl, has, fun r' row' same => ?_⟩
    cases row.symm.trans row'
    exact (ok.done q.key r row done).2 q mem (same ▸ has)

/-- In every state that posts can reach while the store answers and no receipt is pruned. -/
theorem deduplicated {s : Endpoint} {labels : List Label}
    (along : AllSteps step answering init labels) (run : exec step init labels = some s) :
    s.Deduplicated := by
  obtain ⟨ok, keyed⟩ : s.Sound ∧ s.Keyed :=
    invariant_along step answering (fun s => s.Sound ∧ s.Keyed)
      (fun _ _ _ answers inv taken => ⟨inv.1.step taken, inv.2.step answers taken⟩)
      init s labels ⟨.init_, nofun⟩ along run
  constructor
  case duplicate => exact fun i p found answered => ok.duplicates found answered
  case accepted =>
    intro i p answer found answered accepts
    cases answer with
    | accepted =>
      have known := ok.posts p (mem_of_getElem? found)
      rw [Post.Local, answered] at known
      exact ⟨i, p, found, rfl, known⟩
    | duplicate => exact (ok.duplicates found answered).imp fun _ => And.right
    | inFlight | failed => cases accepts
  case completed =>
    rintro k ⟨r, row, done⟩ more t after rest
    obtain ⟨sound, closed⟩ := ok.closed row done after rest
    have keyed' : t.Keyed :=
      invariant_along step answering Keyed (fun _ _ _ answers inv taken => inv.step answers taken)
        s t more keyed after rest
    refine ⟨⟨r, closed.row, done⟩, fun i q found named => ⟨closed.granted found named, ?_⟩⟩
    intro held phase
    subst named
    have known := sound.posts q (mem_of_getElem? found)
    rw [Post.Local, phase] at known
    exact ⟨known.1, sound.overtaken keyed' closed.row done found phase⟩
  case overtaken =>
    rintro i ⟨p, mine, found, through, has, gone⟩ more t rest m t' taken k
    have start : Passed p.key i mine s :=
      ⟨ok.bounded p (mem_of_getElem? found) mine has,
        ⟨p, found, rfl, through, fun τ also => Option.some.inj (also.symm.trans has)⟩,
        fun there also => ok.unique there found mine also has, gone⟩
    have passed : Passed p.key i mine t :=
      invariant step (Passed p.key i mine) (fun _ _ _ inv taken => inv.step taken) s t more start rest
    exact passed.settles taken

/-- Of three posts the second takes the first one's claim over and completes the message, the third
is a duplicate, and the first fails and gives up. -/
def overtake : List Label :=
  let key : MessageKey := ⟨"tenant", "provider", "key"⟩
  [.arrive key, .move 0 (.insert 0), .move 0 .process,
    .arrive key, .move 1 (.insert 301), .move 1 .takeOver, .move 1 .process,
    .move 1 (.return_ true), .move 1 (.complete true),
    .arrive key, .move 2 (.insert 302), .move 2 .takeOver, .move 2 .read,
    .move 0 (.return_ false), .move 0 (.release true)]

theorem deduplicated_overtake : ∃ s, exec step init overtake = some s ∧ s.Deduplicated ∧
    (s.posts.map Post.phase) = [.answered .failed, .answered .accepted, .answered .duplicate] := by
  have runs : ∃ s ∈ exec step init overtake, s.posts.map Post.phase =
      [.answered .failed, .answered .accepted, .answered .duplicate] := by decide
  obtain ⟨s, run, phases⟩ := runs
  exact ⟨s, run, deduplicated (by decide) run, phases⟩

/-- The first post stalls for longer than the lease while the second takes over and completes the
message. Then the first goes on and processes it once more. -/
theorem processed_after_complete : ∃ before later s t key,
    exec step init before = some s ∧ AllSteps step answering init (before ++ later) ∧
    s.Completed key ∧ exec step s later = some t ∧ .move 0 .process ∈ later ∧
    (s.posts.map Post.committed) = [false, true] ∧ (t.posts.map Post.committed) = [true, true] := by
  let key : MessageKey := ⟨"tenant", "provider", "key"⟩
  let before : List Label := [.arrive key, .move 0 (.insert 0), .arrive key, .move 1 (.insert 301),
    .move 1 .takeOver, .move 1 .process, .move 1 (.return_ true), .move 1 (.complete true)]
  let later : List Label := [.move 0 .process, .move 0 (.return_ true), .move 0 (.complete true)]
  have runs : ∃ s ∈ exec step init before, (∃ r ∈ s.receipts.lookup key, r.state = .done) ∧
      s.posts.map Post.committed = [false, true] ∧
      ∃ t ∈ exec step s later, t.posts.map Post.committed = [true, true] := by decide
  obtain ⟨s, run, done, first, t, rest, both⟩ := runs
  exact ⟨before, later, s, t, key, run, by decide, done, rest, mem_cons_self, first, both⟩

end Endpoint

end Panmail.Inbound
