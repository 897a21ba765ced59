import Panmail.Delivery.Classify
import Panmail.Tracking.Endpoints

/-!
# Rewriting the links of a body

`rewriteLinks` puts its output together from the offsets of the matches. Here it is compared with
the body cut into its href attributes and the text around them, and with `LinkTargets`.
-/
namespace Panmail.Tracking

open ByteStrings Delivery List Nat

/-! ### The expression -/

def isQuote (c : Char) : Bool := c = '"' || c = '\''

/-- `HrefPattern` at the beginning of a text: what is before the value, and the value, which a
quote has to follow. -/
def hrefAt (s : List Char) : Option (List Char × List Char) :=
  if (s.take 4).map Char.toLower = "href".toList then
    match (s.drop 4).dropWhile isBlank with
    | '=' :: t =>
      match t.dropWhile isBlank with
      | q :: t =>
        let value := t.takeWhile fun c => !isQuote c
        if isQuote q ∧ value ≠ [] ∧ value.length < t.length then
          some (s.take (s.length - t.length), value)
        else none
      | [] => none
    | _ => none
  else none

/-- The offsets of a match: those of the attribute, and those of the value inside its quotes. -/
structure Match where
  start : Nat
  stop : Nat
  valueStart : Nat
  valueStop : Nat

/-- `FindAllStringSubmatchIndex` from position `i` on, where the last match takes `skip` more
characters. -/
def findAll (i skip : Nat) : List Char → List Match
  | [] => []
  | c :: s =>
    match skip with
    | skip + 1 => findAll (i + 1) skip s
    | 0 =>
      match hrefAt (c :: s) with
      | none => findAll (i + 1) 0 s
      | some (lead, value) =>
        ⟨i, i + (lead.length + value.length + 1), i + lead.length, i + lead.length + value.length⟩ ::
          findAll (i + 1) (lead.length + value.length) s

def slice (s : List Char) (from_ to_ : Nat) : List Char := (s.drop from_).take (to_ - from_)

/-! ### The value -/

def onlyAmpReferences : List Char → Bool
  | [] => true
  | c :: s => (c ≠ '&' || "amp;".toList.isPrefixOf s) && onlyAmpReferences s

/-- `strings.ReplaceAll(raw, "&amp;", "&")`. -/
def replaceAmp : List Char → List Char
  | [] => []
  | '&' :: 'a' :: 'm' :: 'p' :: ';' :: s => '&' :: replaceAmp s
  | c :: s => c :: replaceAmp s

/-- What a body is rewritten with: the HTML5 tokenizer, `url.QueryEscape`, and the copy. -/
structure Rewriting where
  unescapeViaTokenizer : List Char → List Char
  queryEscape : String → String
  mac : Mac
  sendPath : SendPath
  minting : Minting

namespace Rewriting
variable (R : Rewriting)

def unescapeHrefValue (raw : List Char) : List Char :=
  if '&' ∉ raw ∨ '"' ∈ raw then raw
  else if onlyAmpReferences raw then replaceAmp raw
  else R.unescapeViaTokenizer raw

def originalURL (value : List Char) : String := String.ofList (R.unescapeHrefValue value)

/-- The libraries, with the expression and the unescaping written out. -/
def libraries : SendPath :=
  { R.sendPath with
    hrefs := fun body => (findAll 0 0 body.toList).map fun m =>
      R.originalURL (slice body.toList m.valueStart m.valueStop) }

def tracked (value : List Char) : Bool := R.libraries.validTarget (utf8 (R.originalURL value))

/-- The attribute that is written for a destination. -/
def clickHref (originalURL : String) : List Char :=
  ("href=\"" ++ R.minting.baseURL ++ "/track/click/" ++ R.minting.copy.tenantID ++ "/" ++
    R.minting.copy.messageID ++ "/" ++ ofAscii (Base64.encode (utf8 R.minting.copy.recipient)) ++
    "?url=" ++ R.queryEscape originalURL ++ "&amp;sig=" ++
    ofAscii (Signer.sign R.mac ⟨R.minting.key⟩ (R.minting.copy.clickLink originalURL)) ++ "\"").toList

/-- The loop of `rewriteLinks`: what it writes, the destinations it signs, and `last`. -/
def rewriteLoop (htmlContent : List Char) (last : Nat) : List Match → List Char × List String × Nat
  | [] => ([], [], last)
  | m :: ms =>
    let value := slice htmlContent m.valueStart m.valueStop
    if !R.tracked value then rewriteLoop htmlContent last ms
    else
      let (out, signed, last') := rewriteLoop htmlContent m.stop ms
      (slice htmlContent last m.start ++ R.clickHref (R.originalURL value) ++ out,
        R.originalURL value :: signed, last')

def rewriteLinks (htmlContent : List Char) : List Char × List String :=
  match findAll 0 0 htmlContent with
  | [] => (htmlContent, [])
  | ms =>
    let (out, signed, last) := R.rewriteLoop htmlContent 0 ms
    if last = 0 then (htmlContent, signed) else (out ++ htmlContent.drop last, signed)

end Rewriting

/-! ### The body in pieces -/

/-- A character, or an href attribute with its value. -/
inductive Piece where
  | text (c : Char)
  | href (attr value : List Char)

def Piece.raw : Piece → List Char
  | .text c => [c]
  | .href attr _ => attr

/-- A body is cut into its href attributes, from left to right, and the characters around them. -/
inductive Cut : List Char → List Piece → Prop
  | nil : Cut [] []
  | text {c : Char} {s : List Char} {ps : List Piece} (none : hrefAt (c :: s) = none)
      (rest : Cut s ps) : Cut (c :: s) (.text c :: ps)
  | href {lead value s : List Char} {q : Char} {ps : List Piece}
      (found : hrefAt (lead ++ value ++ q :: s) = some (lead, value)) (rest : Cut s ps) :
      Cut (lead ++ value ++ q :: s) (.href (lead ++ value ++ [q]) value :: ps)

namespace Rewriting

/-- Only the attribute of a tracked link is changed. -/
def rewrite (R : Rewriting) : Piece → List Char
  | .text c => [c]
  | .href attr value => if R.tracked value then R.clickHref (R.originalURL value) else attr

/-- What becomes of a piece: a tracked link leads to the click endpoint, with the parts of the copy,
the destination and the MAC of just these. -/
inductive Rewritten (R : Rewriting) : Piece → List Char → Prop
  | text (c : Char) : Rewritten R (.text c) [c]
  | kept {attr value : List Char} (untracked : R.tracked value = false) :
      Rewritten R (.href attr value) attr
  | click {attr value : List Char} {sig : Bytes} (tracked : R.tracked value = true)
      (signed : R.minting.key ≠ [] → Base64.decode sig = some (R.mac.sum R.minting.key
        (canonical (R.minting.copy.clickLink (R.originalURL value))))) :
      Rewritten R (.href attr value) ("href=\"" ++ R.minting.baseURL ++ "/track/click/" ++
        R.minting.copy.tenantID ++ "/" ++ R.minting.copy.messageID ++ "/" ++
        ofAscii (Base64.encode (utf8 R.minting.copy.recipient)) ++ "?url=" ++
        R.queryEscape (R.originalURL value) ++ "&amp;sig=" ++ ofAscii sig ++ "\"").toList

/-- The destination of a tracked link. -/
def target? (R : Rewriting) : Piece → Option String
  | .text _ => none
  | .href _ value => if R.tracked value then some (R.originalURL value) else none

end Rewriting

variable {s value lead : List Char}

theorem hrefAt_spec (found : hrefAt s = some (lead, value)) :
    ∃ q rest, s = lead ++ value ++ q :: rest := by
  simp only [hrefAt, Option.ite_none_right_eq_some] at found
  obtain ⟨_, found⟩ := found
  split at found
  next t equals =>
    split at found
    next q t opened =>
      simp only [Option.ite_none_right_eq_some, Option.some.injEq, Prod.mk.injEq] at found
      obtain ⟨⟨_, _, short⟩, rfl, rfl⟩ := found
      have inner : t <:+ s := ((suffix_cons q t).trans (opened ▸ dropWhile_suffix _)).trans
        ((suffix_cons '=' _).trans (equals ▸ (dropWhile_suffix _).trans (drop_suffix _ _)))
      obtain ⟨before, rfl⟩ := inner
      cases after : t.dropWhile fun c => !isQuote c with
      | nil => simp [takeWhile_eq_self_iff.mpr (dropWhile_eq_nil_iff.mp after)] at short
      | cons q rest =>
        refine ⟨q, rest, ?_⟩
        simp [← after, takeWhile_append_dropWhile]
    · cases found
  · cases found

theorem exists_cut (s : List Char) : ∃ ps, Cut s ps := by
  induction long : s.length using Nat.strong_induction_on generalizing s with
  | _ n ih =>
    cases s with
    | nil => exact ⟨[], .nil⟩
    | cons c s =>
      cases found : hrefAt (c :: s) with
      | none =>
        obtain ⟨ps, cut⟩ := ih s.length (by simp [← long]) s rfl
        exact ⟨_, .text found cut⟩
      | some here =>
        obtain ⟨lead, value⟩ := here
        obtain ⟨q, rest, whole⟩ := hrefAt_spec found
        obtain ⟨ps, cut⟩ := ih rest.length (by simp [← long, whole]; omega) rest rfl
        rw [whole] at found ⊢
        exact ⟨_, .href found cut⟩

theorem findAll_skip (i n : Nat) (s : List Char) : findAll i n s = findAll (i + n) 0 (s.drop n) := by
  induction s generalizing i n with
  | nil => simp [findAll]
  | cons c s ih =>
    cases n with
    | zero => rfl
    | succ n => simpa [findAll, add_assoc, add_comm 1] using ih (i + 1) n

theorem drop_attr (lead value rest : List Char) (q : Char) :
    (lead ++ value ++ q :: rest).drop (lead.length + value.length + 1) = rest := by
  rw [append_cons]
  exact drop_left' (by simp [add_assoc])

theorem findAll_found {rest : List Char} {q : Char} (i : Nat)
    (found : hrefAt (lead ++ value ++ q :: rest) = some (lead, value)) :
    findAll i 0 (lead ++ value ++ q :: rest) =
      ⟨i, i + (lead.length + value.length + 1), i + lead.length, i + lead.length + value.length⟩ ::
        findAll (i + (lead.length + value.length + 1)) 0 rest := by
  generalize whole : lead ++ value ++ q :: rest = s at found
  cases s with
  | nil => simp at whole
  | cons c s =>
    have left : s.drop (lead.length + value.length) = rest := by
      rw [← drop_succ_cons (a := c), ← whole, drop_attr]
    simp [findAll, found, findAll_skip (i + 1), left, add_assoc, add_comm 1]

section
variable {a b rest : List Char} {last i : Nat}

theorem slice_append (before : last ≤ i) (here : s.drop i = a ++ rest) :
    slice s last (i + a.length) = slice s last i ++ a := by
  have size : i + a.length - last = (i - last) + a.length := by omega
  rw [slice, slice, size, take_add, drop_drop, Nat.add_sub_cancel' before, here,
    take_left]

end

namespace Rewriting
variable (R : Rewriting) {ps : List Piece}

/-- The loop from a position on: `last` is where the output has come to. -/
theorem rewriteLoop_spec {html : List Char} (cut : Cut s ps) (i last : Nat)
    (here : html.drop i = s) (before : last ≤ i) : let r := R.rewriteLoop html last (findAll i 0 s)
    r.1 ++ html.drop r.2.2 = slice html last i ++ ps.flatMap R.rewrite ∧
      r.2.1 = ps.filterMap R.target? ∧ (r.2.2 = 0 → r.1 = [] ∧ last = 0) := by
  induction cut generalizing i last with
  | nil =>
    have all : html.length ≤ i := drop_eq_nil_iff.mp here
    have rest : slice html last i = html.drop last :=
      take_of_length_le (by simp only [length_drop]; omega)
    simp [findAll, rewriteLoop, rest]
  | @text c s ps none _ ih =>
    have next : html.drop (i + 1) = s := by simp [← drop_drop, here]
    have spec := ih (i + 1) last next (by omega)
    have same : slice html last (i + 1) = slice html last i ++ [c] := slice_append (a := [c]) before here
    simpa [findAll, none, rewrite, target?, filterMap_cons, same] using spec
  | @href lead value s q ps found _ ih =>
    have next : html.drop (i + (lead.length + value.length + 1)) = s := by
      rw [← drop_drop, here, drop_attr]
    have inside : slice html (i + lead.length) (i + lead.length + value.length) = value := by
      simp [slice, ← drop_drop, here]
    rw [findAll_found i found]
    simp only [rewriteLoop, inside]
    by_cases tracked : R.tracked value = true
    · obtain ⟨out, signed, moved⟩ := ih _ _ next (le_refl _)
      have nothing : ∀ n, slice html n n = [] := by simp [slice]
      rw [nothing, nil_append] at out
      simp only [tracked, Bool.not_true, Bool.false_eq_true, if_false]
      refine ⟨?_, ?_, fun none => ?_⟩
      · simp [rewrite, tracked, out]
      · simp [target?, tracked, signed]
      · exact absurd (moved none).2 (by omega)
    · have spec := ih _ last next (by omega)
      have same : slice html last (i + (lead.length + value.length + 1)) =
          slice html last i ++ (lead ++ value ++ [q]) := by
        simpa [add_assoc] using slice_append (a := lead ++ value ++ [q]) before (by simpa using here)
      simpa [rewrite, target?, filterMap_cons, tracked, same] using spec

theorem rewriteLinks_eq (html : List Char) (cut : Cut html ps) :
    R.rewriteLinks html = (ps.flatMap R.rewrite, ps.filterMap R.target?) := by
  obtain ⟨out, signed, none⟩ := R.rewriteLoop_spec cut 0 0 rfl (le_refl 0)
  rw [show slice html 0 0 = [] from rfl, nil_append] at out
  rw [← out, ← signed, rewriteLinks]
  split
  next empty => simp [empty, rewriteLoop]
  · dsimp only
    split
    next untouched => simp [untouched, (none untouched).1]
    · rfl

theorem rewritten (p : Piece) : Rewritten R p (R.rewrite p) := by
  cases p with
  | text c => exact .text c
  | href attr value =>
    rw [rewrite]
    split
    next tracked =>
      refine .click tracked fun present => ?_
      have keyed : Signer.hasKey ⟨R.minting.key⟩ = true := by simpa [Signer.hasKey] using present
      rw [Signer.sign, Signer.mac, if_pos keyed]
      exact Base64.decode_encode _
    next untracked => exact .kept (Bool.eq_false_iff.mpr untracked)

end Rewriting

theorem Cut.raw {ps : List Piece} (cut : Cut s ps) : ps.flatMap Piece.raw = s := by
  induction cut with
  | nil => rfl
  | text _ _ ih | href _ _ ih => simp [Piece.raw, ih]

/-- What is signed is what `LinkTargets` finds in the same body, before it drops duplicates. -/
theorem Rewriting.rewriteLoop_signed (R : Rewriting) (html : List Char) (last : Nat) (ms : List Match) :
    (R.rewriteLoop html last ms).2.1 =
      (ms.map fun m => R.originalURL (slice html m.valueStart m.valueStop)).filter fun url =>
        R.libraries.validTarget (utf8 url) := by
  induction ms generalizing last with
  | nil => rfl
  | cons m ms ih =>
    simp only [rewriteLoop, tracked, map_cons, filter_cons]
    by_cases valid : R.libraries.validTarget
      (utf8 (R.originalURL (slice html m.valueStart m.valueStop))) = true <;> simp [valid, ih]

def Sample.rewriting : Rewriting :=
  ⟨id, id, .example, Sample.sendPath, ⟨[7], "http://g", Sample.copy⟩⟩

open Sample

end Panmail.Tracking
