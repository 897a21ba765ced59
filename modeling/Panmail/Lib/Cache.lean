import Mathlib.Data.List.Basic

/-!
# A bounded cache whose entries expire

Reads and writes of a cache in front of a slower source, over any keys and values. The
cache is not told when the source changes, so what it returns is right only as long as
no live entry has been overtaken: `Coherent` says so of a whole cache, and the rules
below say which steps keep it.
-/
namespace Caches

open List

universe u v

variable {κ : Type u} {β : Type v} [DecidableEq κ]

structure Entry (β : Type v) where
  value : β
  expiresAt : Nat

/-- The entries, the youngest first. -/
structure Cache (κ : Type u) (β : Type v) where
  entries : List (κ × Entry β)

def Cache.empty : Cache κ β := ⟨[]⟩

def Cache.without (c : Cache κ β) (k : κ) : Cache κ β := ⟨c.entries.filter fun e => e.1 ≠ k⟩

/-- Read a key. An entry found expired is deleted. -/
def Cache.get (c : Cache κ β) (now : Nat) (k : κ) : Option β × Cache κ β :=
  match c.entries.find? fun e => e.1 = k with
  | none => (none, c)
  | some e => if e.2.expiresAt < now then (none, c.without k) else (some e.2.value, c)

/-- Write a key. A full cache drops its expired entries first, and is left alone if that
makes no room. -/
def Cache.put (c : Cache κ β) (now ttl maxEntries : Nat) (k : κ) (v : β) : Cache κ β :=
  let full (entries : List (κ × Entry β)) := !entries.any (fun e => e.1 = k) &&
    decide (maxEntries ≤ entries.length)
  let entries := if full c.entries then c.entries.filter fun e => now ≤ e.2.expiresAt
    else c.entries
  if full entries then ⟨entries⟩
  else ⟨(k, ⟨v, now + ttl⟩) :: entries.filter fun e => e.1 ≠ k⟩

def Cache.Live (c : Cache κ β) (now : Nat) (k : κ) : Prop :=
  ∃ e ∈ c.entries, e.1 = k ∧ now ≤ e.2.expiresAt

/-- Every entry that is still good says the truth. -/
def Cache.Coherent (c : Cache κ β) (now : Nat) (truth : κ → β → Prop) : Prop :=
  ∀ e ∈ c.entries, now ≤ e.2.expiresAt → truth e.1 e.2.value

section
variable {c : Cache κ β} {now : Nat} {truth : κ → β → Prop} {k : κ} {v : β}

omit [DecidableEq κ] in
theorem coherent_empty : (Cache.empty : Cache κ β).Coherent now truth :=
  nofun

omit [DecidableEq κ] in
/-- Time only takes entries out of consideration. -/
theorem Cache.Coherent.later (coherent : c.Coherent now truth) {then_ : Nat} (le : now ≤ then_) :
    c.Coherent then_ truth :=
  fun e mem live => coherent e mem (Nat.le_trans le live)

omit [DecidableEq κ] in
/-- The source may change under the cache where no live entry is overtaken. -/
theorem Cache.Coherent.change (coherent : c.Coherent now truth) {after : κ → β → Prop}
    (kept : ∀ k v, c.Live now k → truth k v → after k v) : c.Coherent now after :=
  fun e mem live => kept e.1 e.2.value ⟨e, mem, rfl, live⟩ (coherent e mem live)

omit [DecidableEq κ] in
theorem Cache.Coherent.subset (coherent : c.Coherent now truth) {d : Cache κ β}
    (fewer : ∀ e ∈ d.entries, e ∈ c.entries) : d.Coherent now truth :=
  fun e mem live => coherent e (fewer e mem) live

section
variable (coherent : c.Coherent now truth) {clock : Nat}
include coherent

theorem Cache.Coherent.hit (found : (c.get now k).1 = some v) : truth k v := by
  rw [Cache.get] at found
  split at found
  · cases found
  next e first =>
    have named : e.1 = k := by simpa using find?_some first
    split at found <;> cases found
    next live =>
      rw [← named]
      exact coherent e (mem_of_find?_eq_some first) (Nat.le_of_not_lt live)

theorem Cache.Coherent.get : (c.get clock k).2.Coherent now truth := by
  rw [Cache.get]
  split
  · exact coherent
  · split
    · exact coherent.subset fun e mem => (mem_filter.mp mem).1
    · exact coherent

theorem Cache.Coherent.without {after : κ → β → Prop}
    (kept : ∀ other v, other ≠ k → truth other v → after other v) :
    (c.without k).Coherent now after := by
  intro e mem live
  obtain ⟨old, away⟩ := mem_filter.mp mem
  exact kept e.1 e.2.value (of_decide_eq_true away) (coherent e old live)

theorem Cache.Coherent.put {ttl maxEntries : Nat} (true_ : truth k v) :
    (c.put clock ttl maxEntries k v).Coherent now truth := by
  simp only [Cache.put]
  generalize narrowed : (if (!c.entries.any (fun e => e.1 = k) &&
    decide (maxEntries ≤ c.entries.length)) = true then
      c.entries.filter fun e => clock ≤ e.2.expiresAt else c.entries) = entries
  have fewer : ∀ e ∈ entries, e ∈ c.entries := by
    rw [← narrowed]
    split
    · exact fun e mem => (mem_filter.mp mem).1
    · exact fun e mem => mem
  split
  · exact coherent.subset fewer
  · intro e mem live
    rcases mem_cons.mp mem with rfl | old
    · exact true_
    · exact coherent e (fewer e (mem_filter.mp old).1) live

end

end

/-! ### A source with a past

The source is given by the versions it has gone through, the current one last. A reader that
fills the cache read one of them, perhaps not the last any more. -/

section
variable {σ : Type*} {versions : List σ} {query : σ → Option β} {recent : Nat → Prop} {v : β}

/-- The value is what the source answered in some version recent enough. -/
def Since (versions : List σ) (query : σ → Option β) (recent : Nat → Prop) (v : β) : Prop :=
  ∃ n s, recent n ∧ versions[n]? = some s ∧ query s = some v

theorem Since.mono (since : Since versions query recent v) {other : Nat → Prop}
    (weaker : ∀ n, recent n → other n) : Since versions query other v := by
  obtain ⟨n, s, holds, facts⟩ := since
  exact ⟨n, s, weaker n holds, facts⟩

theorem Since.grow (since : Since versions query recent v) (more : List σ) :
    Since (versions ++ more) query recent v := by
  obtain ⟨n, s, holds, read, answer⟩ := since
  obtain ⟨inside, _⟩ := List.getElem?_eq_some_iff.mp read
  exact ⟨n, s, holds, by rw [getElem?_append_left inside, read], answer⟩

end
end Caches
