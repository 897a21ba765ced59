import Mathlib.Data.List.Dedup
import Mathlib.Data.List.MinMax
import Mathlib.Data.List.Sort

/-!
# Keyset pagination

Rows are listed by a key, the greatest first, a page at a time, and the next page is taken from the
rows below the last one of this. Where only the first row of every group is listed, the rows below
the token are numbered anew: a group that has been listed is listed again if it has rows below the
token.
-/
namespace Keyset

open List Nat

universe u v w

variable {α : Type u} {κ : Type v} {γ : Type w} [LinearOrder κ] [DecidableEq γ]
variable (key : α → κ) (group : α → γ)

def descending (rows : List α) : List α := rows.insertionSort fun a b => key b ≤ key a

def below (rows : List α) : Option κ → List α
  | some k => rows.filter fun r => key r < k
  | none => rows

/-- The number of a row in its group, from the greatest key on. -/
def rowNumber (rows : List α) (a : α) : Nat :=
  (rows.filter fun b => group b = group a ∧ key a < key b).length + 1

def tops (rows : List α) : List α := rows.filter fun a => rowNumber key group rows a = 1

def listing (rows : List α) (token : Option κ) : List α :=
  descending key (tops key group (below key rows token))

/-- A page of what was found, and its token if one more was found than the page has room for. -/
def pageOf (size : Nat) (found : List α) : List α × Option κ :=
  if size < found.length then (found.take size, found[size - 1]?.map key) else (found, none)

def page (rows : List α) (size : Nat) (token : Option κ) : List α × Option κ :=
  pageOf key size ((listing key group rows token).take (size + 1))

/-- Follow the tokens until there is none, for at most so many pages. -/
def follow (rows : List α) (size : Nat) : Nat → Option κ → Option (List α)
  | 0, _ => none
  | pages + 1, token =>
    match page key group rows size token with
    | (found, none) => some found
    | (found, some next) => (follow rows size pages (some next)).map (found ++ ·)

def Top (rows : List α) (a : α) : Prop := a ∈ rows ∧ ∀ b ∈ rows, group b = group a → key b ≤ key a

/-- Every group is listed once, by its first row. -/
structure Once (rows out : List α) : Prop where
  once : (out.map group).Nodup
  newest : ∀ a ∈ out, Top key group rows a
  covered : ∀ r ∈ rows, ∃ a ∈ out, group a = group r

/-- The number of groups that have a row above one. -/
def rank (rows : List α) (a : α) : Nat := ((rows.filter fun b => key a < key b).map group).dedup.length

/-- Where the first `k` pages do not take all the groups, a group whose first row is on these pages
has no row after them. -/
def Clear (rows : List α) (size : Nat) : Prop :=
  ∀ a r, Top key group rows a → r ∈ rows → group r = group a →
    ∀ k, k * size < (rows.map group).dedup.length → rank key group rows a < k * size →
      rank key group rows r < k * size

section
variable {key group} {rows found : List α} {size : Nat} {token : Option κ} {a : α}

omit [LinearOrder κ] in
theorem pageOf_take (positive : 0 < size) :
    found.length ≤ size ∧ pageOf key size (found.take (size + 1)) = (found, none) ∨
      ∃ xs last ys, found = (xs ++ [last]) ++ ys ∧ ys ≠ [] ∧ (xs ++ [last]).length = size ∧
        pageOf key size (found.take (size + 1)) = (xs ++ [last], some (key last)) := by
  rcases lt_or_ge size found.length with more | fits
  · right
    have room : size - 1 < found.length := by omega
    have full : found.take size = found.take (size - 1) ++ [found[size - 1]] := by
      rw [take_append_getElem room, Nat.sub_add_cancel positive]
    refine ⟨found.take (size - 1), found[size - 1], found.drop size, ?_, ?_, ?_, ?_⟩
    · rw [← full, take_append_drop]
    · exact fun none_ => by simp at none_; omega
    · rw [← full, length_take]
      omega
    · have limited : size < (found.take (size + 1)).length := by
        rw [length_take]
        omega
      rw [pageOf, if_pos limited, take_take, min_eq_left (le_succ size), full,
        getElem?_take_of_lt (by omega), getElem?_eq_getElem room, Option.map_some]
  · left
    have all : found.take (size + 1) = found := take_of_length_le (le_succ_of_le fits)
    rw [all, pageOf, if_neg (not_lt.mpr fits)]
    exact ⟨fits, rfl⟩

theorem mem_tops : a ∈ tops key group rows ↔ Top key group rows a := by
  simp only [tops, rowNumber, Top, mem_filter, decide_eq_true_eq, Nat.add_eq_right,
    length_eq_zero_iff, filter_eq_nil_iff, not_and, not_lt]

theorem mem_listing : a ∈ listing key group rows token ↔
    Top key group (below key rows token) a := by
  rw [listing, descending, mem_insertionSort, mem_tops]

theorem mem_below_some {k : κ} : a ∈ below key rows (some k) ↔ a ∈ rows ∧ key a < k := by
  simp [below]

theorem mem_of_below (mem : a ∈ below key rows token) : a ∈ rows := by
  cases token with
  | none => exact mem
  | some => exact (mem_below_some.mp mem).1

variable (key group) in
theorem exists_top {r : α} (mem : r ∈ rows) :
    ∃ a, Top key group rows a ∧ group a = group r ∧ key r ≤ key a := by
  have inside : r ∈ rows.filter fun b => group b = group r := by simp [mem]
  cases best : (rows.filter fun b => group b = group r).argmax key with
  | none =>
    rw [argmax_eq_none.mp best] at inside
    cases inside
  | some a =>
    obtain ⟨there, same⟩ := mem_filter.mp (argmax_mem best)
    simp only [decide_eq_true_eq] at same
    refine ⟨a, ⟨there, fun b other grouped => ?_⟩, same, le_of_mem_argmax inside best⟩
    exact le_of_mem_argmax (by simp [other, grouped, same]) best

omit [DecidableEq γ] in
theorem top_unique (distinct : (rows.map key).Nodup) {b : α} (first : Top key group rows a)
    (second : Top key group rows b) (same : group a = group b) : a = b :=
  inj_on_of_nodup_map distinct first.1 second.1
    (le_antisymm (second.2 a first.1 same) (first.2 b second.1 same.symm))

variable (group token) in
theorem listing_sorted (distinct : (rows.map key).Nodup) :
    (listing key group rows token).Pairwise fun a b => key b < key a := by
  have sorted : (listing key group rows token).Pairwise fun a b => key b ≤ key a := by
    have total : Std.Total fun a b : α => key b ≤ key a := ⟨fun a b => le_total (key b) (key a)⟩
    have trans : IsTrans α fun a b => key b ≤ key a := ⟨fun a b c first second => second.trans first⟩
    exact pairwise_insertionSort _ _
  have kept : List.Sublist (tops key group (below key rows token)) rows := by
    refine filter_sublist.trans ?_
    cases token with
    | none => exact List.Sublist.refl _
    | some => exact filter_sublist
  have nodup : ((listing key group rows token).map key).Nodup :=
    ((perm_insertionSort _ _).map key).nodup_iff.mpr (distinct.sublist (kept.map key))
  exact (sorted.and (pairwise_map.mp nodup)).imp fun both => lt_of_le_of_ne both.1 both.2.symm

theorem nodup_of_sorted (sorted : rows.Pairwise fun a b => key b < key a) : rows.Nodup := by
  refine sorted.imp ?_
  rintro a b less rfl
  exact lt_irrefl _ less

end

/-- A page is all that is listed, or it is full and the listing goes on after its last row. -/
theorem page_spec (rows : List α) {size : Nat} (positive : 0 < size) (token : Option κ) :
    (listing key group rows token).length ≤ size ∧
        page key group rows size token = (listing key group rows token, none) ∨
      ∃ xs last ys, listing key group rows token = (xs ++ [last]) ++ ys ∧ ys ≠ [] ∧
        (xs ++ [last]).length = size ∧
          page key group rows size token = (xs ++ [last], some (key last)) :=
  pageOf_take positive

section
variable {key group} {rows l : List α} {size n : Nat} {token : Option κ} {p : α → Bool}

theorem below_shorter {last : α} (listed : last ∈ listing key group rows token) :
    (below key rows (some (key last))).length < (below key rows token).length := by
  have inside := (mem_listing.mp listed).1
  have fewer : below key rows (some (key last)) =
      (below key rows token).filter fun r => key r < key last := by
    cases token with
    | none => rfl
    | some =>
      have under := (mem_below_some.mp inside).2
      simp only [below, filter_filter]
      refine filter_congr fun r _ => ?_
      rw [← Bool.decide_and, decide_eq_decide]
      exact ⟨fun less => ⟨less, less.trans under⟩, And.left⟩
  rw [fewer]
  exact length_filter_lt_length_iff_exists.mpr ⟨last, inside, by simp⟩

variable (key group rows) in
/-- Following the tokens ends, and the number of pages allowed does not matter if it is enough. -/
theorem follow_ends (positive : 0 < size) (token : Option κ) :
    ∃ out, ∀ pages, (below key rows token).length < pages →
      follow key group rows size pages token = some out := by
  induction bound : (below key rows token).length using Nat.strong_induction_on generalizing token with
  | _ n ih =>
    rcases page_spec key group rows positive token with
      ⟨_, whole⟩ | ⟨xs, last, ys, split_, _, _, full⟩
    · refine ⟨listing key group rows token, fun pages enough => ?_⟩
      cases pages with
      | zero => omega
      | succ => simp only [follow, whole]
    · have listed : last ∈ listing key group rows token := by simp [split_]
      have shorter := below_shorter listed
      obtain ⟨out, rest⟩ := ih _ (bound ▸ shorter) (some (key last)) rfl
      refine ⟨(xs ++ [last]) ++ out, fun pages enough => ?_⟩
      cases pages with
      | zero => omega
      | succ pages =>
        simp only [follow, full]
        rw [rest pages (by omega), Option.map_some]

/-- No group is left out: if its first row is not on the page, it is below the token. -/
theorem follow_covers (distinct : (rows.map key).Nodup) (positive : 0 < size) {pages : Nat}
    {out : List α} (followed : follow key group rows size pages token = some out) :
    ∀ r ∈ below key rows token, ∃ a ∈ out, group a = group r := by
  induction pages generalizing token out with
  | zero => cases followed
  | succ _ ih =>
    intro r mem
    obtain ⟨a, top, same, _⟩ := exists_top key group mem
    have listed := mem_listing.mpr top
    rcases page_spec key group rows positive token with
      ⟨_, whole⟩ | ⟨xs, last, ys, split_, _, _, full⟩
    · simp only [follow, whole, Option.some.injEq] at followed
      exact ⟨a, followed ▸ listed, same⟩
    · simp only [follow, full, Option.map_eq_some_iff] at followed
      obtain ⟨rest, later, rfl⟩ := followed
      have sorted := listing_sorted group token distinct
      rw [split_] at listed sorted
      rcases mem_append.mp listed with here | beyond
      · exact ⟨a, mem_append_left _ here, same⟩
      · have lower := (pairwise_append.mp sorted).2.2 last (by simp) a beyond
        obtain ⟨b, found, grouped⟩ := ih later a (mem_below_some.mpr ⟨mem_of_below top.1, lower⟩)
        exact ⟨b, mem_append_right _ found, grouped.trans same⟩

section
variable {xs ys : List α} {last : α} (distinct : (rows.map key).Nodup)
  (split_ : listing key group rows none = (xs ++ [last]) ++ ys)
include distinct split_

/-- If no group of the rows down to `last` has a row below it, the listing below `last` is the
rest of the whole listing. -/
theorem listing_rest
    (clear : ∀ a ∈ xs ++ [last], ∀ r ∈ rows, group r = group a → key last ≤ key r) :
    listing key group rows (some (key last)) = ys := by
  have sorted := listing_sorted group none distinct
  rw [split_] at sorted
  obtain ⟨_, tail, across⟩ := pairwise_append.mp sorted
  have irrefl : Std.Irrefl fun a b : α => key b < key a := ⟨fun a => lt_irrefl (key a)⟩
  refine List.Pairwise.eq_of_mem_iff (listing_sorted group _ distinct) tail fun a => ?_
  rw [mem_listing]
  constructor
  · rintro ⟨inside, first⟩
    obtain ⟨mem, lower⟩ := mem_below_some.mp inside
    obtain ⟨b, top, same, least⟩ := exists_top key group mem
    have listed : b ∈ (xs ++ [last]) ++ ys := split_ ▸ mem_listing.mpr top
    rcases mem_append.mp listed with early | late
    · exact absurd (clear b early a mem same.symm) (not_le.mpr lower)
    have under := across last (by simp) b late
    have most := first b (mem_below_some.mpr ⟨top.1, under⟩) same
    have equal : a = b :=
      inj_on_of_nodup_map distinct mem top.1 (le_antisymm least most)
    exact equal ▸ late
  · intro late
    have top : Top key group rows a := mem_listing.mp (split_ ▸ mem_append_right _ late)
    have under := across last (by simp) a late
    exact ⟨mem_below_some.mpr ⟨top.1, under⟩, fun b other => top.2 b (mem_of_below other)⟩

theorem last_least : ∀ b ∈ xs ++ [last], key last ≤ key b := by
  have sorted := listing_sorted group none distinct
  rw [split_] at sorted
  obtain ⟨_, _, across⟩ := pairwise_append.mp (pairwise_append.mp sorted).1
  intro b mem
  rcases mem_append.mp mem with before | self
  · exact le_of_lt (across b before last (by simp))
  · exact le_of_eq (congrArg key (mem_singleton.mp self).symm)

end

theorem exists_take_iff (sorted : l.Pairwise fun a b => key b < key a) (x : κ)
    (enough : n ≤ l.length) :
    (∃ b ∈ l.take n, key b ≤ x) ↔ (l.filter fun b => x < key b).length < n := by
  induction l generalizing n with
  | nil => simp [Nat.le_zero.mp enough]
  | cons c rest ih =>
    obtain ⟨lower, tail⟩ := pairwise_cons.mp sorted
    cases n with
    | zero => simp
    | succ n =>
      rcases lt_or_ge x (key c) with above | reached
      · have rest_ := ih tail (Nat.le_of_succ_le_succ enough)
        simpa [above, not_le.mpr above] using rest_
      · -- the rest is below, too
        have none_ : (c :: rest).filter (fun b => x < key b) = [] := by
          simpa [reached] using fun b mem => (le_of_lt (lower b mem)).trans reached
        simp [none_, reached]

theorem mem_take_iff (sorted : l.Pairwise fun a b => key b < key a) {a : α} (mem : a ∈ l) :
    a ∈ l.take n ↔ (l.filter fun b => key a < key b).length < n := by
  rcases le_or_gt n l.length with enough | whole
  · rw [← exists_take_iff sorted (key a) enough]
    refine ⟨fun inside => ⟨a, inside, le_refl _⟩, fun ⟨b, inside, le⟩ => ?_⟩
    rw [← take_append_drop n l] at mem sorted
    exact (mem_append.mp mem).resolve_right fun beyond =>
      not_lt.mpr le ((pairwise_append.mp sorted).2.2 b inside a beyond)
  · rw [take_of_length_le (le_of_lt whole)]
    exact iff_of_true mem ((length_filter_le ..).trans_lt whole)

theorem groups_listed (upper : ∀ a b, p a = true → key a ≤ key b → p b = true) (g : γ) :
    g ∈ (rows.filter p).map group ↔
      g ∈ ((listing key group rows none).filter p).map group := by
  constructor
  · intro present
    obtain ⟨b, inside, rfl⟩ := mem_map.mp present
    obtain ⟨row, in_⟩ := mem_filter.mp inside
    obtain ⟨a, top, same, above⟩ := exists_top key group row
    exact mem_map.mpr ⟨a, mem_filter.mpr ⟨mem_listing.mpr top, upper b a in_ above⟩, same⟩
  · intro present
    obtain ⟨a, inside, rfl⟩ := mem_map.mp present
    obtain ⟨listed, in_⟩ := mem_filter.mp inside
    exact mem_map.mpr ⟨a, mem_filter.mpr ⟨(mem_listing.mp listed).1, in_⟩, rfl⟩

theorem groups_length (group : α → γ) (distinct : (rows.map key).Nodup)
    (upper : ∀ a b, p a = true → key a ≤ key b → p b = true) :
    ((rows.filter p).map group).dedup.length = ((listing key group rows none).filter p).length := by
  have once : (((listing key group rows none).filter p).map group).Nodup := by
    refine List.Nodup.map_on (fun a first b second same => ?_)
      ((nodup_of_sorted (listing_sorted group none distinct)).filter _)
    exact top_unique distinct (mem_listing.mp (mem_filter.mp first).1)
      (mem_listing.mp (mem_filter.mp second).1) same
  have same : ((rows.filter p).map group).dedup.Perm
      (((listing key group rows none).filter p).map group) := by
    refine (perm_ext_iff_of_nodup (nodup_dedup _) once).mpr fun g => ?_
    rw [mem_dedup]
    exact groups_listed upper g
  rw [same.length_eq, length_map]

theorem rank_eq (distinct : (rows.map key).Nodup) (a : α) : rank key group rows a =
    ((listing key group rows none).filter fun b => key a < key b).length :=
  groups_length group distinct fun b c above le => by
    simp only [decide_eq_true_eq] at above ⊢
    exact lt_of_lt_of_le above le

section
variable (distinct : (rows.map key).Nodup)
include distinct

theorem groups_eq : (rows.map group).dedup.length = (listing key group rows none).length := by
  have all := groups_length group distinct (p := fun _ => true) fun _ _ _ _ => rfl
  simpa using all

theorem mem_take_listing {a : α} : a ∈ (listing key group rows none).take n ↔
      Top key group rows a ∧ rank key group rows a < n := by
  constructor
  · intro mem
    have listed := mem_of_mem_take mem
    rw [mem_take_iff (listing_sorted group none distinct) listed, ← rank_eq distinct] at mem
    exact ⟨mem_listing.mp listed, mem⟩
  · rintro ⟨top, low⟩
    rw [mem_take_iff (listing_sorted group none distinct) (mem_listing.mpr top), ← rank_eq distinct]
    exact low

/-- Said of the listing: no group of the first `k` pages has a row below all of them. -/
theorem clear_iff : Clear key group rows size ↔
    ∀ k, k * size < (listing key group rows none).length →
      ∀ a ∈ (listing key group rows none).take (k * size), ∀ r ∈ rows, group r = group a →
        ∃ b ∈ (listing key group rows none).take (k * size), key b ≤ key r := by
  have lowest {r : α} {k : Nat} (beyond : k * size < (listing key group rows none).length) :
      (∃ b ∈ (listing key group rows none).take (k * size), key b ≤ key r) ↔
        rank key group rows r < k * size := by
    rw [exists_take_iff (listing_sorted group none distinct) (key r) (le_of_lt beyond),
      rank_eq distinct]
  constructor
  · intro clear k beyond a mem r row same
    obtain ⟨top, low⟩ := (mem_take_listing distinct).mp mem
    have more : k * size < (rows.map group).dedup.length := by rwa [groups_eq distinct]
    exact (lowest beyond).mpr (clear a r top row same k more low)
  · intro clear a r top row same k beyond low
    rw [groups_eq distinct] at beyond
    exact (lowest beyond).mp
      (clear k beyond a ((mem_take_listing distinct).mpr ⟨top, low⟩) r row same)

omit distinct in
theorem next_page {xs here ys : List α} {last : α} {k : Nat}
    (place : listing key group rows none = xs ++ listing key group rows token)
    (counted : xs.length = k * size)
    (split_ : listing key group rows token = (here ++ [last]) ++ ys)
    (room : (here ++ [last]).length = size) :
    listing key group rows none = ((xs ++ here) ++ [last]) ++ ys ∧
      ((xs ++ here) ++ [last]).length = (k + 1) * size := by
  constructor
  · rw [place, split_]
    simp only [append_assoc]
  · rw [append_assoc, length_append, counted, room, succ_mul]

/-- The pages follow the whole listing as long as no group has a row below those listed. -/
theorem follow_of_clear (positive : 0 < size) (clear : Clear key group rows size) {pages k : Nat}
    {xs out : List α} (place : listing key group rows none = xs ++ listing key group rows token)
    (counted : xs.length = k * size)
    (followed : follow key group rows size pages token = some out) :
    out = listing key group rows token := by
  induction pages generalizing token k xs out with
  | zero => cases followed
  | succ _ ih =>
    rcases page_spec key group rows positive token with
      ⟨_, whole⟩ | ⟨here, last, ys, split_, more, room, full⟩
    · simp only [follow, whole, Option.some.injEq] at followed
      exact followed.symm
    · simp only [follow, full, Option.map_eq_some_iff] at followed
      obtain ⟨rest, later, rfl⟩ := followed
      obtain ⟨whole, length⟩ := next_page place counted split_ room
      have next_ : listing key group rows (some (key last)) = ys := by
        refine listing_rest distinct whole fun a mem r row same => ?_
        have beyond : (k + 1) * size < (listing key group rows none).length := by
          rw [whole, length_append, length]
          exact Nat.lt_add_of_pos_right (length_pos_iff.mpr more)
        have cleared := (clear_iff distinct).mp clear (k + 1) beyond
        rw [whole, take_left' length] at cleared
        obtain ⟨b, among, le⟩ := cleared a mem r row same
        exact (last_least distinct whole b among).trans le
      rw [split_, ih (next_.symm ▸ whole) length later, next_]

/-- If no group is listed twice, none had a row below the pages it was on. -/
theorem clear_of_follow (positive : 0 < size) {pages k : Nat} {xs out : List α}
    (place : listing key group rows none = xs ++ listing key group rows token)
    (counted : xs.length = k * size)
    (followed : follow key group rows size pages token = some out)
    (once : ((xs ++ out).map group).Nodup) {j : Nat} (later : k < j)
    (beyond : j * size < (listing key group rows none).length) :
    ∀ a ∈ (listing key group rows none).take (j * size), ∀ r ∈ rows, group r = group a →
      ∃ b ∈ (listing key group rows none).take (j * size), key b ≤ key r := by
  induction pages generalizing token k xs out with
  | zero => cases followed
  | succ _ ih =>
    have further : (k + 1) * size ≤ j * size := mul_le_mul_right size later
    rw [succ_mul] at further
    rcases page_spec key group rows positive token with
      ⟨short, _⟩ | ⟨here, last, ys, split_, _, room, full⟩
    · -- the listing ends on this page
      rw [place, length_append, counted] at beyond
      omega
    · simp only [follow, full, Option.map_eq_some_iff] at followed
      obtain ⟨rest, following, rfl⟩ := followed
      obtain ⟨whole, length⟩ := next_page place counted split_ room
      have groups : ((((xs ++ here) ++ [last]) ++ rest).map group).Nodup := by
        simpa only [append_assoc] using once
      -- a row below the page would be listed again
      have clear : ∀ a ∈ (xs ++ here) ++ [last], ∀ r ∈ rows, group r = group a →
          key last ≤ key r := by
        intro a mem r row same
        by_contra lower
        obtain ⟨b, found, again⟩ := follow_covers distinct positive following r
          (mem_below_some.mpr ⟨row, not_le.mp lower⟩)
        rw [map_append, nodup_append'] at groups
        exact groups.2.2 (mem_map_of_mem mem)
          (mem_map.mpr ⟨b, found, again.trans same⟩)
      rcases Nat.lt_or_eq_of_le later with after | now
      · have next_ := listing_rest distinct whole clear
        exact ih (next_.symm ▸ whole) length following groups after
      · subst now
        rw [whole, take_left' length]
        intro a mem r row same
        exact ⟨last, by simp, clear a mem r row same⟩

end

variable (group) in
/-- Every group is listed exactly once, by its first row, if and only if no group has a row
below the pages it is on. -/
theorem follow_once_iff (distinct : (rows.map key).Nodup) (positive : 0 < size) : ∃ out,
    (∀ pages, rows.length < pages → follow key group rows size pages none = some out) ∧
      (Once key group rows out ↔ Clear key group rows size) := by
  obtain ⟨out, ends⟩ := follow_ends key group rows positive none
  refine ⟨out, ends, ?_⟩
  have followed := ends (rows.length + 1) (lt_succ_self _)
  constructor
  · intro listed
    refine (clear_iff distinct).mpr fun k beyond a mem => ?_
    rcases Nat.eq_zero_or_pos k with zero | later
    · simp [zero] at mem
    · exact clear_of_follow distinct positive (nil_append _).symm (Nat.zero_mul size).symm
        followed (by simpa using listed.once) later beyond a mem
  · intro clear
    have all : out = listing key group rows none :=
      follow_of_clear distinct positive clear (nil_append _).symm (Nat.zero_mul size).symm
        followed
    refine ⟨?_, fun a mem => mem_listing.mp (all ▸ mem), ?_⟩
    · refine all ▸ List.Nodup.map_on (fun a first b second same => ?_)
        (nodup_of_sorted (listing_sorted group none distinct))
      exact top_unique distinct (mem_listing.mp first) (mem_listing.mp second) same
    · exact follow_covers distinct positive followed

end

/-! ### Comparing listings -/

section
variable {key group}

section
variable {l full : List α} (sorted : l.Pairwise fun a b => key b < key a)
  (sorted' : full.Pairwise fun a b => key b < key a) (sub : ∀ a ∈ l, a ∈ full) {q : Nat}
include sorted sorted' sub

theorem take_eq_of_subset (has : ∀ a ∈ full.take q, a ∈ l) : l.take q = full.take q := by
  classical
  have irrefl : Std.Irrefl fun a b : α => key b < key a := ⟨fun a => lt_irrefl (key a)⟩
  have kept : l = full.filter fun a => a ∈ l := by
    refine List.Pairwise.eq_of_mem_iff sorted (sorted'.filter _) fun a => ?_
    simp only [mem_filter, decide_eq_true_eq]
    exact ⟨fun mem => ⟨sub a mem, mem⟩, And.right⟩
  have first : (full.take q).filter (fun a => a ∈ l) = full.take q :=
    filter_eq_self.mpr fun a mem => by simpa using has a mem
  rw [← take_append_drop q full, filter_append, first] at kept
  rcases le_total q full.length with room | short
  · have full_ : (full.take q).length = q := by
      rw [length_take]
      exact min_eq_left room
    rw [kept, take_left' full_]
  · rw [drop_of_length_le short, filter_nil, append_nil] at kept
    rw [kept, take_take, min_self]

theorem same_take_iff {p : Nat} (fewer : q ≤ p) : (∀ a, a ∈ l.take p ↔ a ∈ full.take q) ↔
      (∀ a ∈ full.take q, a ∈ l) ∧ (l.take p).length ≤ q := by
  constructor
  · intro same
    refine ⟨fun a mem => mem_of_mem_take ((same a).mpr mem), ?_⟩
    have nodup : (l.take p).Nodup := (nodup_of_sorted sorted).sublist (take_sublist p l)
    have within := (subperm_of_subset nodup fun a mem => (same a).mp mem).length_le
    exact within.trans (length_take_le q full)
  · rintro ⟨has, few⟩
    have equal := take_eq_of_subset sorted sorted' sub has
    have all : l.take p = l.take q := by
      rw [← take_of_length_le few, take_take, min_eq_left fewer]
    intro a
    rw [all, equal]

end

variable {β : Type*} {groupOf : β → γ} {κ' : Type*} [LinearOrder κ']

/-- A listing of rows in another form, in which keys are ordered, and groups told apart, as
before. -/
theorem listing_map {g : α → β} {key' : β → κ'} {rows : List α} (distinct : (rows.map key).Nodup)
    (order : ∀ a ∈ rows, ∀ b ∈ rows, key' (g a) < key' (g b) ↔ key a < key b)
    (grouped : ∀ a ∈ rows, ∀ b ∈ rows, groupOf (g a) = groupOf (g b) ↔ group a = group b) :
    listing key' groupOf (rows.map g) none = (listing key group rows none).map g := by
  have order' : ∀ a ∈ rows, ∀ b ∈ rows, key' (g a) ≤ key' (g b) ↔ key a ≤ key b :=
    fun a first b second => by rw [← not_lt, ← not_lt, order b second a first]
  have distinct' : ((rows.map g).map key').Nodup := by
    rw [map_map]
    refine List.Nodup.map_on (fun a first b second same => ?_) (List.Nodup.of_map key distinct)
    have one := (order' a first b second).mp (le_of_eq same)
    have other := (order' b second a first).mp (ge_of_eq same)
    exact inj_on_of_nodup_map distinct first second (le_antisymm one other)
  have top_iff : ∀ a ∈ rows, Top key' groupOf (rows.map g) (g a) ↔ Top key group rows a := by
    intro a first
    constructor
    · rintro ⟨_, greatest⟩
      refine ⟨first, fun b second same => (order' b second a first).mp ?_⟩
      exact greatest (g b) (mem_map_of_mem second) ((grouped b second a first).mpr same)
    · rintro ⟨_, greatest⟩
      refine ⟨mem_map_of_mem first, fun x inside same => ?_⟩
      obtain ⟨b, second, rfl⟩ := mem_map.mp inside
      exact (order' b second a first).mpr (greatest b second ((grouped b second a first).mp same))
  have irrefl : Std.Irrefl fun x y : β => key' y < key' x := ⟨fun x => lt_irrefl (key' x)⟩
  -- two sorted lists of the same rows are equal
  refine List.Pairwise.eq_of_mem_iff (listing_sorted groupOf none distinct') ?_ fun x => ?_
  · rw [pairwise_map]
    refine List.Pairwise.imp_of_mem ?_ (listing_sorted group none distinct)
    intro a b first second less
    exact (order b (mem_listing.mp second).1 a (mem_listing.mp first).1).mpr less
  · rw [mem_listing]
    constructor
    · intro top
      obtain ⟨a, first, rfl⟩ := mem_map.mp top.1
      exact mem_map_of_mem (mem_listing.mpr ((top_iff a first).mp top))
    · intro mem
      obtain ⟨a, listed, rfl⟩ := mem_map.mp mem
      have top := mem_listing.mp listed
      exact (top_iff a top.1).mpr top

end
end Keyset
