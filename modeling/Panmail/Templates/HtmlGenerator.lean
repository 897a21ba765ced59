import Mathlib.Data.List.Nodup
import Mathlib.Algebra.Order.Ring.Unbundled.Rat
import Panmail.Lib.Text

/-!
# The HTML of a design

The template builder turns a tree of blocks into the HTML of a message. Every character of that
HTML is marked with where it comes from: the generator's own text, the text of a text block,
which is meant as HTML, or any other value of the design. The blanks between the tags are left
out.
-/
namespace Panmail.Builder

open List

def structural (c : Char) : Bool := c = '<' || c = '>' || c = '"'

/-- Nothing in the text delimits a tag or an attribute value. -/
def Inert (s : List Char) : Prop := ∀ c ∈ s, structural c = false

instance (s : List Char) : Decidable (Inert s) := List.decidableBAll _ s

/-! ### Values -/

inductive Num where
  | nan
  | infinite (negative : Bool)
  | finite (q : ℚ)
  deriving DecidableEq

/-- `n || fallback` -/
def Num.or (n : Num) (fallback : ℚ) : Num :=
  if n = .nan ∨ n = .finite 0 then .finite fallback else n

/-- What a field of a design holds. `null` is `undefined` here: no function of the generator tells
them apart. -/
inductive Value where
  | undefined
  | number (n : Num)
  | string (s : List Char)
  deriving DecidableEq

/-- The functions of the browser that read and write numbers. -/
structure Runtime where
  /-- `parseInt(s, 10)` -/
  parseInt : List Char → Num
  /-- `Number(v)` -/
  number : Value → Num
  /-- `String(n)` -/
  toString : Num → List Char
  inert : ∀ n, Inert (toString n)

def Value.truthy (v : Value) : Bool :=
  v ∉ [.undefined, .string [], .number .nan, .number (.finite 0)]

/-- `v || fallback` -/
def Value.or (v : Value) (fallback : String) : Value :=
  if v.truthy then v else .string fallback.toList

/-- What `trim` drops and `\s` matches. -/
def isBlank (c : Char) : Bool := c.toNat = 0xfeff || (Text.isSpace c && c.toNat ≠ 0x85)

def trim (s : List Char) : List Char := (s.dropWhile isBlank).rdropWhile isBlank

def replaceAll (c : Char) (with_ : String) (s : List Char) : List Char :=
  s.flatMap fun x => if x = c then with_.toList else [x]

def escape (s : List Char) : List Char :=
  replaceAll '\'' "&#39;" <| replaceAll '"' "&quot;" <| replaceAll '>' "&gt;" <|
    replaceAll '<' "&lt;" <| replaceAll '&' "&amp;" s

/-- The test of `/^\s*(?:…)\s*:/i`. -/
def hasScheme (schemes : List String) (raw : List Char) : Bool :=
  let raw := raw.dropWhile isBlank
  schemes.any fun scheme =>
    (raw.take scheme.length).map Char.toLower = scheme.toList &&
      ((raw.drop scheme.length).dropWhile isBlank).head? = some ':'

section
variable (js : Runtime)

/-- `String(v ?? '')` -/
def Value.text : Value → List Char
  | .undefined => []
  | .number n => js.toString n
  | .string s => s

def esc (v : Value) : List Char := escape (v.text js)

def safeUrl (url : Value) : List Char :=
  let raw := trim (url.text js)
  if raw = [] ∨ hasScheme ["javascript", "vbscript", "data"] raw then "#".toList else escape raw

def safeImageUrl (url : Value) : List Char :=
  let raw := trim (url.text js)
  if raw = [] ∨ hasScheme ["javascript", "vbscript"] raw then [] else escape raw

/-! ### Styles -/

structure Style where
  entries : List (String × Value)
  distinct : (entries.map Prod.fst).Nodup

def Style.get (style : Style) (prop : String) : Value :=
  (style.entries.lookup prop).getD .undefined

def unitless : List String :=
  ["lineHeight", "fontWeight", "opacity", "zIndex", "flex", "flexGrow", "flexShrink", "order",
    "zoom", "columnCount", "fillOpacity", "strokeOpacity"]

def nonCssKeys : List String := ["contentWidth"]

def cssProperty (prop : String) : List Char :=
  let kebab := prop.toList.flatMap fun c => if c.isUpper then ['-', c.toLower] else [c]
  if ["webkit-", "moz-", "ms-", "o-"].any (·.toList.isPrefixOf kebab) then '-' :: kebab else kebab

def emitted (entry : String × Value) : Bool :=
  entry.1 ∉ nonCssKeys && entry.2 ≠ .undefined && entry.2 ≠ .string []

def declaration (entry : String × Value) : List Char :=
  cssProperty entry.1 ++ ": ".toList ++
    match entry.2 with
    | .number n => js.toString n ++ if entry.1 ∈ unitless then [] else "px".toList
    | v => v.text js

def styleToString (entries : List (String × Value)) : List Char :=
  "; ".toList.intercalate ((entries.filter emitted).map (declaration js))

/-- `{ ...base, ...own }` -/
def spread (base own : List (String × Value)) : List (String × Value) :=
  base.map (fun entry => (own.find? fun o => o.1 = entry.1).getD entry) ++
    own.filter fun o => o.1 ∉ base.map Prod.fst

/-! ### Numbers in the markup -/

/-- The width attribute for a length. A number has no `trim`: there the source throws. -/
def pixelWidth (value : Value) : ℚ :=
  if !value.truthy || (trim (value.text js)).getLast? = some '%' then 600
  else match js.parseInt (value.text js) with
    | .finite n => if 0 < n then n else 600
    | _ => 600

def vmlArcsize (radiusPx : Num) (heightPx : ℚ) : Num :=
  match radiusPx with
  | .finite r =>
    if r ≤ 0 ∨ heightPx ≤ 0 then .finite 0
    else .finite (min 100 (r * 100 / heightPx + 1 / 2).floor)
  | .infinite false => .finite 100
  | _ => .finite 0

/-- How often `for (let i = 0; i < count; i++)` runs for the count of a divider. -/
def dividers (count : Num) : Nat :=
  match count.or 1 with
  | .finite q => (max 1 (min 10 q)).ceil.toNat
  | .infinite false => 10
  | _ => 1

def truncatePreheader (s : List Char) : List Char :=
  if s.length ≤ 130 then s else s.take 129 ++ ['…']

/-! ### Blocks -/

structure SocialLink where
  icon : Value
  url : Value
  platform : Value

structure Column (β : Type) where
  width : Value
  style : Style
  blocks : List β

/-- The type of a block, with the content that its type reads. -/
inductive Content (β : Type) where
  | heading (level text : Value)
  | text (text : Value)
  | button (url label : Value)
  | image (src alt linkUrl : Value)
  | divider (count spacing : Value)
  | spacer (height : Value)
  | list (items : List Value) (loopItemVariable : Value)
  | social (links : List SocialLink)
  | video (thumbnail url alt : Value)
  | table (withTableBorder withColumnBorders : Bool) (headers : List Value)
      (rows : List (List Value))
  | columns (stackOnMobile : Bool) (backgroundImage backgroundHeight backgroundColor : Value)
      (columns : List (Column β))
  | other

structure Block where
  style : Style
  loopVariable : Value
  emptyText : Value
  ifVariable : Value
  content : Content Block

structure EmailDesign where
  blocks : List Block
  bodyStyle : Style
  preheader : Value

/-! ### Marked text -/

/-- Where a character of the HTML comes from. -/
inductive Origin where
  | markup | textBlock | value

abbrev Html := List (Origin × Char)

def markup (s : String) : Html := s.toList.map (Origin.markup, ·)
def textBlock (s : List Char) : Html := s.map (Origin.textBlock, ·)
def value (s : List Char) : Html := s.map (Origin.value, ·)

def trimHtml (html : Html) : Html :=
  (html.dropWhile fun p => isBlank p.2).rdropWhile fun p => isBlank p.2

def escaped (v : Value) : Html := value (esc js v)
def number (n : Num) : Html := value (js.toString n)

/-- `esc(style.prop || fallback)` -/
def styleOr (style : Style) (prop fallback : String) : Html :=
  escaped js ((style.get prop).or fallback)

/-- The start of the tag of a table that is only there for the layout. -/
def layoutTable : Html :=
  markup "<table role=\"presentation\" border=\"0\" cellpadding=\"0\" cellspacing=\"0\""

/-- ` style="…"`, with the generator's own declarations first. -/
def styled (own : String) (style : Style) : Html :=
  markup (" style=\"" ++ own) ++ value (styleToString js style.entries) ++ markup "\""

def headingLevel (level : Value) : List Char :=
  let requested := ((level.or "h1").text js).map Char.toLower
  if requested ∈ ["h1", "h2", "h3", "h4", "h5", "h6"].map String.toList then requested
  else "h1".toList

def heading (style : Style) (level text : Value) : Html :=
  let level := headingLevel js level
  markup "<" ++ value level ++ styled js "" style ++ markup ">" ++ escaped js text ++
    markup "</" ++ value level ++ markup ">"

def button (style : Style) (url label : Value) : Html :=
  let color := styleOr js style "color" "#ffffff"
  let bg := styleOr js style "backgroundColor" "#0073ea"
  let radius := (style.get "borderRadius").or "4px"
  let width := (style.get "width").or "auto"
  let arcsize := vmlArcsize ((js.parseInt (radius.text js)).or 0) 45
  let href := value (safeUrl js url)
  let font := markup ";font-family:sans-serif;font-size:" ++
    styleOr js style "fontSize" "16px" ++ markup ";font-weight:" ++
    styleOr js style "fontWeight" "bold"
  layoutTable ++ markup " class=\"mobile-full-width\" style=\"margin: 20px 0; width: " ++
    escaped js width ++
    markup "; border-collapse: separate !important;\"><tr><td align=\"" ++
    styleOr js style "textAlign" "center" ++
    markup "\" class=\"mobile-center\"><div><!--[if mso]><v:roundrect " ++
      markup "xmlns:v=\"urn:schemas-microsoft-com:vml\" xmlns:w=\"urn:schemas-microsoft-com:office:word\" " ++
      markup "href=\"" ++ href ++ markup "\" style=\"height:45px;v-text-anchor:middle;width:" ++
    markup (if width = .string "100%".toList then "500px" else "200px") ++
    markup ";\" arcsize=\"" ++ number js arcsize ++ markup "%\" stroke=\"f\" fillcolor=\"" ++ bg ++
    markup "\"><w:anchorlock/><center style=\"color:" ++ color ++ font ++ markup ";\">" ++
    escaped js label ++ markup "</center></v:roundrect><![endif]--><a href=\"" ++ href ++
    markup "\" target=\"_blank\" class=\"mobile-full-width\" style=\"background-color:" ++ bg ++
    markup ";border-radius:" ++ escaped js radius ++ markup ";color:" ++ color ++
    markup ";display:inline-block" ++ font ++
    markup ";line-height:45px;mso-line-height-rule:exactly;min-height:45px;text-align:center;" ++
      markup "text-decoration:none;width:" ++ escaped js width ++
    markup ";padding: 0 24px;box-sizing:border-box;-webkit-text-size-adjust:none;mso-hide:all;\">" ++
    escaped js label ++ markup "</a></div></td></tr></table>"

def image (style : Style) (src alt linkUrl : Value) : Html :=
  let src := safeImageUrl js src
  if src = [] then []
  else
    let width := number js (.finite (pixelWidth js (style.get "width")))
    let img := markup "<img src=\"" ++ value src ++ markup "\" alt=\"" ++ escaped js alt ++
      markup "\" width=\"" ++ width ++ markup "\" border=\"0\" class=\"fluid\" " ++
        markup "style=\"display: block; width: 100%; max-width: " ++ width ++
      markup "px; height: auto; border-radius: " ++
      styleOr js style "borderRadius" "4px" ++ markup "; " ++
      value (styleToString js style.entries) ++ markup "\" />"
    let link := trim (linkUrl.text js)
    layoutTable ++ markup " width=\"100%\" style=\"margin: 20px 0;\"><tr><td align=\"" ++
      styleOr js style "textAlign" "center" ++ markup "\">" ++
      (if link = [] then img
        else markup "<a href=\"" ++ value (safeUrl js (.string link)) ++
          markup "\" target=\"_blank\">" ++ img ++ markup "</a>") ++
      markup "</td></tr></table>"

def divider (style : Style) (count spacing : Value) : Html :=
  let hr := markup "border: 0; border-top: " ++
    styleOr js style "borderTopWidth" "1px" ++ markup " " ++
    styleOr js style "borderTopStyle" "solid" ++ markup " " ++
    styleOr js style "borderTopColor" "#eeeeee" ++ markup "; margin: 0;"
  let gap := markup " margin-top: " ++ number js ((js.number spacing).or 5) ++ markup "px;"
  markup "<div" ++ styled js "margin: 30px 0; " style ++ markup ">" ++
    (List.range (dividers (js.number count))).flatMap (fun i =>
      markup "<hr style=\"" ++ hr ++ (if 0 < i then gap else []) ++ markup "\" />") ++
    markup "</div>"

def spacer (style : Style) (height : Value) : Html :=
  let px := number js <| match height with
    | .undefined => .finite 20
    | .number n => n
    | .string s => (js.parseInt s).or 20
  layoutTable ++ markup " width=\"100%\"><tr><td height=\"" ++ px ++ markup "\" style=\"height: " ++ px ++
    markup "px; line-height: " ++ px ++
    markup "px; mso-line-height-rule: exactly; font-size: 0; " ++
    value (styleToString js style.entries) ++ markup "\">&nbsp;</td></tr></table>"

/-- `{{#each v}}…{{/each}}` -/
def each (v : List Char) (html : Html) : Html :=
  markup "\x7b\x7b#each " ++ value v ++ markup "\x7d\x7d" ++ html ++ markup "\x7b\x7b/each\x7d\x7d"

def expression (s : List Char) : List Char := "\x7b\x7b".toList ++ s ++ "\x7d\x7d".toList

/-- The item of a list that repeats. -/
def listTemplate (items : List Value) (loopItemVariable : Value) : List Char :=
  let name := loopItemVariable.or "item"
  let template := match items.head?.getD .undefined with
    | .undefined => escape (expression (name.text js))
    | first => esc js first
  if template = [] then expression (esc js name) else template

def list (style : Style) (loopVariable : Value) (items : List Value) (loopItemVariable : Value) :
    Html :=
  let item (v : List Char) := markup "<li>" ++ value v ++ markup "</li>"
  markup "<ul" ++ styled js "" style ++ markup ">" ++
    (if loopVariable.truthy then
      each (esc js loopVariable) (item (listTemplate js items loopItemVariable))
      else items.flatMap fun v => item (esc js v)) ++
    markup "</ul>"

def social (style : Style) (links : List SocialLink) : Html :=
  let icons := links.flatMap fun link =>
    let icon := safeImageUrl js link.icon
    if icon = [] then []
    else markup "<td style=\"padding: 0 5px;\"><a href=\"" ++ value (safeUrl js link.url) ++
      markup "\" target=\"_blank\"><img src=\"" ++ value icon ++ markup "\" alt=\"" ++
      escaped js link.platform ++
      markup "\" width=\"32\" height=\"32\" style=\"display: block; border: 0;\" /></a></td>"
  if icons = [] then []
  else layoutTable ++ markup " align=\"" ++ styleOr js style "textAlign" "center" ++ markup "\"><tr>" ++
    icons ++ markup "</tr></table>"

def video (style : Style) (thumbnail url alt : Value) : Html :=
  let thumb := safeImageUrl js thumbnail
  let href := value (safeUrl js url)
  let align := styleOr js style "textAlign" "center"
  layoutTable ++ markup " width=\"100%\"" ++ styled js "margin: 20px 0; " style ++ 
    markup "><tr><td align=\"" ++ align ++ markup "\">" ++
    (if thumb = [] then []
      else markup "<a href=\"" ++ href ++
        markup "\" target=\"_blank\" style=\"text-decoration: none;\"><img src=\"" ++ value thumb ++
        markup "\" alt=\"" ++ escaped js (alt.or "Watch the video") ++
        markup "\" width=\"600\" style=\"display: block; width: 100%; max-width: 100%; " ++
          markup "height: auto; border-radius: " ++
        styleOr js style "borderRadius" "8px" ++ markup ";\" /></a>") ++
    markup "</td></tr><tr><td align=\"" ++ align ++ markup "\" style=\"padding-top: 12px;\">" ++
      markup "<a href=\"" ++ href ++ markup "\" target=\"_blank\" style=\"display: inline-block; " ++
      markup "background-color: #000000; color: #ffffff; font-family: sans-serif; font-size: 14px; " ++
      markup "line-height: 36px; mso-line-height-rule: exactly; padding: 0 20px; border-radius: 18px; " ++
      markup "text-decoration: none;\">&#9654;&nbsp; Watch video</a></td></tr></table>"

def table (style : Style) (loopVariable : Value) (withTableBorder withColumnBorders : Bool)
    (headers : List Value) (rows : List (List Value)) : Html :=
  let cellBorder := if withColumnBorders then "border: 1px solid #ddd;"
    else if withTableBorder then "border-bottom: 1px solid #ddd;" else ""
  let headerCells := headers.flatMap fun h => markup ("<th style=\"" ++ cellBorder ++
    " padding: 12px; background-color: #f8f9fa; text-align: left;\">") ++ escaped js h ++
    markup "</th>"
  let row (cells : List Value) := markup "<tr>" ++
    (cells.flatMap fun cell => markup ("<td style=\"" ++ cellBorder ++ " padding: 12px;\">") ++
      escaped js cell ++ markup "</td>") ++ markup "</tr>"
  markup "<div class=\"data-table-wrap\" style=\"margin: 20px 0;\"><table border=\"0\" " ++
      markup "cellpadding=\"0\" cellspacing=\"0\"" ++
    styled js ("width: 100%; border-collapse: collapse; " ++
      (if withTableBorder then "border: 1px solid #ddd;" else "") ++ " ") style ++ markup ">" ++
    (if headerCells = [] then [] else markup "<thead><tr>" ++ headerCells ++ markup "</tr></thead>") ++
    markup "<tbody>" ++
    (if loopVariable.truthy then each (esc js loopVariable) (row (rows.head?.getD []))
      else rows.flatMap row) ++
    markup "</tbody></table></div>"

def withBackgroundImage (inner : Html) (style : Style)
    (backgroundImage backgroundHeight backgroundColor : Value) (containerWidth : ℚ) : Html :=
  let src := safeImageUrl js backgroundImage
  if src = [] then inner
  else
    let height := number js ((js.number backgroundHeight).or 300)
    let color := value (escape ((if (style.get "backgroundColor").truthy then style.get "backgroundColor"
      else backgroundColor.or "#333333").text js))
    let width := if 0 < containerWidth then containerWidth else 600
    let src := value src
    layoutTable ++ markup " width=\"100%\" style=\"mso-table-lspace:0pt;mso-table-rspace:0pt;" ++
        markup "border-collapse:collapse;\"><tr><td background=\"" ++ src ++
      markup "\" bgcolor=\"" ++ color ++ markup "\" valign=\"top\" style=\"background-image: url('" ++ src ++
      markup "'); background-position: center center; background-size: cover; " ++
        markup "background-repeat: no-repeat; background-color: " ++ color ++
      markup ";\"><!--[if gte mso 9]><v:rect xmlns:v=\"urn:schemas-microsoft-com:vml\" " ++
        markup "fill=\"true\" stroke=\"false\" style=\"width:" ++ number js (.finite width) ++
      markup "px;height:" ++ height ++ markup "px;\"><v:fill type=\"frame\" src=\"" ++ src ++
      markup "\" color=\"" ++ color ++
      markup "\" /><v:textbox inset=\"0,0,0,0\"><![endif]--><div>" ++ inner ++
      markup "</div><!--[if gte mso 9]></v:textbox></v:rect><![endif]--></td></tr></table>"

/-- The content of a columns block: `render` renders the blocks of a column. -/
def columns (render : Block → Html) (style : Style) (stackOnMobile : Bool)
    (cols : List (Column Block)) : Html :=
  layoutTable ++ markup " width=\"100%\"" ++ styled js "margin: 10px 0; " style ++ markup "><tr>" ++
    (cols.flatMap fun col => markup "<td valign=\"top\" width=\"" ++
      escaped js (col.width.or "50%") ++
      markup ("\" class=\"" ++ (if stackOnMobile then "stack-column" else "") ++ "\"") ++
      styled js "padding: 10px; " col.style ++ markup ">" ++
      (markup "\n").intercalate (col.blocks.map render) ++ markup "</td>") ++
    markup "</tr></table>"

def wrapInEach (html : Html) (variable_ emptyText : Value) : Html :=
  let name := escape (trim (variable_.text js))
  let empty := trim (emptyText.text js)
  if name = [] then html
  else each name <| if empty = [] then html
    else html ++ markup "\x7b\x7belse\x7d\x7d<p style=\"margin: 0; padding: 12px 0; " ++
      markup "color: #6b7280; font-family: sans-serif; font-size: 14px; mso-line-height-rule: exactly;\">" ++
      value (escape empty) ++ markup "</p>"

/-- The list and the table repeat their own rows. -/
def Content.selfLooping {β : Type} : Content β → Bool
  | .list .. | .table .. => true
  | _ => false

/-- The end of `renderBlockToHTML`: the block is repeated, and shown under its condition. -/
def wrapped (block : Block) (html : Html) : Html :=
  let html := if block.loopVariable.truthy && !block.content.selfLooping then
    wrapInEach js html block.loopVariable block.emptyText else html
  if block.ifVariable.truthy then markup "\x7b\x7b#if " ++ escaped js block.ifVariable ++
    markup "\x7d\x7d\n" ++ html ++ markup "\n\x7b\x7b/if\x7d\x7d"
  else html

/-- A block at depth `11 - levels`: blocks more than ten columns deep are left out. -/
def renderBlockToHTML (containerWidth : ℚ) : (levels : Nat) → Block → Html
  | 0, _ => []
  | levels + 1, block =>
    let style := block.style
    wrapped js block <| match block.content with
    | .heading level text => heading js style level text
    | .text text => markup "<div" ++ styled js "" style ++ markup ">" ++ textBlock (text.text js) ++
        markup "</div>"
    | .button url label => button js style url label
    | .image src alt linkUrl => image js style src alt linkUrl
    | .divider count spacing => divider js style count spacing
    | .spacer height => spacer js style height
    | .list items loopItemVariable => list js style block.loopVariable items loopItemVariable
    | .social links => social js style links
    | .video thumbnail url alt => video js style thumbnail url alt
    | .table border colBorders headers rows =>
      table js style block.loopVariable border colBorders headers rows
    | .columns stack bgImage bgHeight bgColor cols =>
      withBackgroundImage js (columns js (renderBlockToHTML containerWidth levels) style stack cols)
        style bgImage bgHeight bgColor containerWidth
    | .other => []

/-- The fixed text of every message: up to the title, from there to the style of the body, the
hidden blanks after the preheader, up to each place of the width, from the last of them to the
blocks, and after the blocks. -/
structure Shell where
  doctype : String
  head : String
  blanks : String
  outer : String
  cell : String
  container : String
  inner : String
  close : String

def bodyDefaults : List (String × Value) :=
  [("margin", .number (.finite 0)), ("padding", .number (.finite 0)),
    ("width", .string "100%".toList), ("backgroundColor", .string "#f4f4f4".toList),
    ("fontFamily", .string "Inter, Helvetica, Arial, sans-serif".toList)]

def bodyStyles (bodyStyle : Style) : List Char :=
  styleToString js (spread bodyDefaults (bodyStyle.entries.filter fun e => e.1 ≠ "contentWidth"))

def generateHTML (shell : Shell) (design : EmailDesign) : Html :=
  let width := pixelWidth js ((design.bodyStyle.get "contentWidth").or "600px")
  let preheader := value (escape (truncatePreheader (design.preheader.text js)))
  trimHtml <| markup shell.doctype ++
    (if design.preheader.truthy then preheader else markup "Email") ++ markup shell.head ++
    value (bodyStyles js design.bodyStyle) ++ markup "\">" ++
    (if design.preheader.truthy then
      markup "<div style=\"display: none; max-height: 0px; overflow: hidden;\">" ++ preheader ++
        markup shell.blanks
      else []) ++
    markup shell.outer ++ number js (.finite width) ++ markup shell.cell ++
    number js (.finite width) ++ markup shell.container ++ number js (.finite width) ++
    markup shell.inner ++
    (markup "\n").intercalate (design.blocks.map (renderBlockToHTML js width 11)) ++
    markup shell.close

end

/-! ### Text without delimiters -/

/-- No value of the design brings a delimiter into the HTML. -/
def Clean (html : Html) : Prop := ∀ p ∈ html, p.1 = .value → structural p.2 = false

variable {α : Type} {c : Char} {s : List Char}

theorem forall_mem_intercalate {P : α → Prop} {sep : List α} (plain : ∀ x ∈ sep, P x)
    (parts : List (List α)) :
    (∀ x ∈ sep.intercalate parts, P x) ↔ ∀ part ∈ parts, ∀ x ∈ part, P x := by
  induction parts with
  | nil => simp
  | cons _ rest ih =>
    cases rest with
    | nil => simp
    | cons =>
      rw [intercalate_cons_cons, forall_mem_cons, ← ih]
      simp only [forall_mem_append]
      exact ⟨fun h => ⟨h.1.1, h.2⟩, fun h => ⟨⟨h.1, plain⟩, h.2⟩⟩

theorem forall_mem_replaceAll {P : Char → Prop} {with_ : String} (new : ∀ x ∈ with_.toList, P x)
    (old : ∀ x ∈ s, x ≠ c → P x) : ∀ x ∈ replaceAll c with_ s, P x := by
  intro x mem
  obtain ⟨y, inside, made⟩ := mem_flatMap.mp mem
  split at made
  · exact new x made
  next other => exact mem_singleton.mp made ▸ old y inside other

@[simp] theorem inert_escape (s : List Char) : Inert (escape s) := by
  obtain ⟨amp, lt, gt, quot, apos⟩ : Inert "&amp;".toList ∧ Inert "&lt;".toList ∧
      Inert "&gt;".toList ∧ Inert "&quot;".toList ∧ Inert "&#39;".toList := by decide
  -- each pass takes its character out, and no later pass brings it back
  have greater : ∀ x ∈ replaceAll '>' "&gt;" (replaceAll '<' "&lt;" (replaceAll '&' "&amp;" s)),
      x ≠ '"' → structural x = false := by
    refine forall_mem_replaceAll (fun x made _ => gt x made) ?_
    refine forall_mem_replaceAll (fun x made _ _ => lt x made) ?_
    refine forall_mem_replaceAll (fun x made _ _ _ => amp x made) ?_
    intro x _ _ notLess notGreater notQuote
    simp [structural, notLess, notGreater, notQuote]
  refine forall_mem_replaceAll apos fun x mem _ => ?_
  exact forall_mem_replaceAll quot greater x mem

theorem inert_append {t : List Char} : Inert (s ++ t) ↔ Inert s ∧ Inert t :=
  forall_mem_append

variable {js : Runtime} {style : Style}

@[simp] theorem inert_esc (v : Value) : Inert (esc js v) := inert_escape _

@[simp] theorem inert_safeUrl (url : Value) : Inert (safeUrl js url) := by
  unfold safeUrl
  dsimp only
  split
  · decide
  · exact inert_escape _

@[simp] theorem inert_safeImageUrl (url : Value) : Inert (safeImageUrl js url) := by
  unfold safeImageUrl
  dsimp only
  split
  · exact nofun
  · exact inert_escape _

theorem inert_of_letter (letter : 65 ≤ c.toNat) : structural c = false := by
  simp only [structural, Bool.or_eq_false_iff, decide_eq_false_iff_not]
  refine ⟨⟨?_, ?_⟩, ?_⟩ <;> rintro rfl <;> simp at letter

theorem inert_cssProperty (prop : String) : Inert (cssProperty prop) ↔ Inert prop.toList := by
  have kebab : Inert (prop.toList.flatMap fun c => if c.isUpper then ['-', c.toLower] else [c]) ↔
      Inert prop.toList := by
    simp only [Inert, forall_mem_flatMap]
    refine forall₂_congr fun c _ => ?_
    split
    next upper =>
      have letter : 65 ≤ c.toNat ∧ c.toNat ≤ 90 := by
        have between : c.val ≥ 'A'.val ∧ c.val ≤ 'Z'.val := of_decide_eq_true upper
        simpa [UInt32.le_iff_toNat_le] using between
      have lower : 65 ≤ c.toLower.toNat := by
        rw [Text.toNat_toLower, if_pos letter]
        omega
      have dash : structural '-' = false := by decide
      simp [inert_of_letter letter.1, inert_of_letter lower, dash]
    · simp
  unfold cssProperty
  dsimp only
  split
  · rw [← kebab]
    exact forall_mem_cons.trans (and_iff_right (by decide))
  · exact kebab

theorem inert_declaration (entry : String × Value) :
    Inert (declaration js entry) ↔ Inert entry.1.toList ∧ Inert (entry.2.text js) := by
  have colon : Inert ": ".toList := by decide
  rw [declaration, inert_append, inert_append, inert_cssProperty, and_iff_left colon]
  refine and_congr_right fun _ => ?_
  split
  next n number =>
    rw [number, inert_append, Value.text]
    refine and_iff_left ?_
    split <;> decide
  · rfl

theorem inert_styleToString (entries : List (String × Value)) : Inert (styleToString js entries) ↔
      ∀ e ∈ entries, emitted e = true → Inert e.1.toList ∧ Inert (e.2.text js) := by
  have between : Inert "; ".toList := by decide
  rw [styleToString, Inert, forall_mem_intercalate between]
  simp only [forall_mem_map, mem_filter, and_imp]
  exact forall₃_congr fun e _ _ => inert_declaration e

@[simp] theorem clean_nil : Clean [] := nofun
@[simp] theorem clean_append {a b : Html} : Clean (a ++ b) ↔ Clean a ∧ Clean b :=
  forall_mem_append
@[simp] theorem clean_markup (s : String) : Clean (markup s) := by simp [Clean, markup]
@[simp] theorem clean_textBlock (s : List Char) : Clean (textBlock s) := by simp [Clean, textBlock]
@[simp] theorem clean_value : Clean (value s) ↔ Inert s := by
  simp [Clean, value, Inert]
@[simp] theorem clean_flatMap {xs : List α} {f : α → Html} :
    Clean (xs.flatMap f) ↔ ∀ x ∈ xs, Clean (f x) := forall_mem_flatMap
@[simp] theorem clean_ite {p : Prop} [Decidable p] {a b : Html} :
    Clean (if p then a else b) ↔ (p → Clean a) ∧ (¬ p → Clean b) := by split <;> simp [*]
@[simp] theorem clean_intercalate (htmls : List Html) :
    Clean ((markup "\n").intercalate htmls) ↔ ∀ html ∈ htmls, Clean html :=
  forall_mem_intercalate (clean_markup _) htmls
@[simp] theorem clean_escaped (v : Value) : Clean (escaped js v) := clean_value.mpr (inert_esc v)
@[simp] theorem clean_number (n : Num) : Clean (number js n) := clean_value.mpr (js.inert n)
@[simp] theorem clean_styleOr (prop fallback : String) : Clean (styleOr js style prop fallback) :=
  clean_escaped _
@[simp] theorem clean_layoutTable : Clean layoutTable := clean_markup _

/-- The entries of a style object that come into the HTML have no delimiters. -/
def Style.Inert (js : Runtime) (style : Style) : Prop :=
  ∀ e ∈ style.entries, emitted e = true → Builder.Inert e.1.toList ∧ Builder.Inert (e.2.text js)

@[simp] theorem clean_styled {own : String} : Clean (styled js own style) ↔ style.Inert js := by
  simp [styled, inert_styleToString, Style.Inert]

/-! ### What reaches the HTML -/

variable {html : Html}

section
variable {v w url label src alt linkUrl : Value} {items : List Value}

@[simp] theorem inert_headingLevel : Inert (headingLevel js v) := by
  unfold headingLevel
  dsimp only
  split
  next listed =>
    generalize ((v.or "h1").text js).map Char.toLower = requested at listed
    revert requested
    decide
  · decide

@[simp] theorem inert_listTemplate : Inert (listTemplate js items v) := by
  have brackets : Inert "\x7b\x7b".toList ∧ Inert "\x7d\x7d".toList := by decide
  unfold listTemplate
  dsimp only
  split <;> split
  all_goals
    first
    | exact inert_escape _
    | exact inert_append.mpr ⟨inert_append.mpr ⟨brackets.1, inert_esc _⟩, brackets.2⟩

@[simp] theorem clean_heading : Clean (heading js style v w) ↔ style.Inert js := by simp [heading]

@[simp] theorem clean_button : Clean (button js style url label) := by
  unfold button
  extract_lets color bg radius width arcsize href font
  have ofColor : Clean color := by simp [color]
  have ofBg : Clean bg := by simp [bg]
  have ofHref : Clean href := by simp [href]
  have ofFont : Clean font := by simp [font]
  simp only [clean_append, clean_layoutTable, clean_markup, clean_styleOr, clean_escaped,
    clean_number, ofColor, ofBg, ofHref, ofFont, and_self]

@[simp] theorem clean_image :
    Clean (image js style src alt linkUrl) ↔ (safeImageUrl js src ≠ [] → style.Inert js) := by
  simp only [image]
  split
  next none_ => simp [none_]
  next some_ => simp [some_, inert_styleToString, Style.Inert]

@[simp] theorem clean_divider : Clean (divider js style v w) ↔ style.Inert js := by simp [divider]

@[simp] theorem clean_spacer : Clean (spacer js style v) ↔ style.Inert js := by
  simp [spacer, inert_styleToString, Style.Inert]

@[simp] theorem clean_each : Clean (each s html) ↔ Inert s ∧ Clean html := by simp [each]

@[simp] theorem clean_list : Clean (list js style v items w) ↔ style.Inert js := by simp [list]

@[simp] theorem clean_social {links : List SocialLink} : Clean (social js style links) := by
  simp [social]

@[simp] theorem clean_video : Clean (video js style v url alt) ↔ style.Inert js := by simp [video]

@[simp] theorem clean_table {border colBorders : Bool} {headers : List Value}
    {rows : List (List Value)} :
    Clean (table js style v border colBorders headers rows) ↔ style.Inert js := by simp [table]

@[simp] theorem clean_withBackgroundImage {inner : Html} {bgImage bgHeight bgColor : Value}
    {width : ℚ} : Clean (withBackgroundImage js inner style bgImage bgHeight bgColor width) ↔
      Clean inner := by simp [withBackgroundImage]

@[simp] theorem clean_columns {render : Block → Html} {stack : Bool} {cols : List (Column Block)} :
    Clean (columns js render style stack cols) ↔ style.Inert js ∧
      ∀ col ∈ cols, col.style.Inert js ∧ ∀ block ∈ col.blocks, Clean (render block) := by
  simp [columns]

@[simp] theorem clean_wrapInEach : Clean (wrapInEach js html v w) ↔ Clean html := by
  simp [wrapInEach]

@[simp] theorem clean_wrapped {block : Block} : Clean (wrapped js block html) ↔ Clean html := by
  unfold wrapped
  split <;> split <;> simp

end

/-- No style object of the block, or of a block in its columns, brings a delimiter into the HTML.
Blocks that show no style object, or are nested too deep, are inert. -/
def Block.Inert (js : Runtime) : (levels : Nat) → Block → Prop
  | 0, _ => True
  | levels + 1, block => match block.content with
    | .button .. | .social .. | .other => True
    | .image src .. => safeImageUrl js src ≠ [] → block.style.Inert js
    | .columns _ _ _ _ cols => block.style.Inert js ∧
        ∀ col ∈ cols, col.style.Inert js ∧ ∀ b ∈ col.blocks, b.Inert js levels
    | _ => block.style.Inert js

theorem clean_renderBlockToHTML (width : ℚ) (levels : Nat) (block : Block) :
    Clean (renderBlockToHTML js width levels block) ↔ block.Inert js levels := by
  -- by the levels that are left: the blocks in a column have one less
  induction levels generalizing block with
  | zero => simp [renderBlockToHTML, Block.Inert]
  | succ _ ih =>
    obtain ⟨style, loopVariable, emptyText, ifVariable, content⟩ := block
    cases content <;> simp [renderBlockToHTML, Block.Inert, ih]

theorem clean_dropWhile : Clean (html.dropWhile fun p => isBlank p.2) ↔ Clean html := by
  conv_rhs => rw [← takeWhile_append_dropWhile (p := fun p => isBlank p.2) (l := html)]
  rw [clean_append]
  refine (and_iff_right fun p mem _ => ?_).symm
  have blank : isBlank p.2 = true := mem_takeWhile_imp (p := fun p : Origin × Char => isBlank p.2)
    mem
  generalize p.2 = c at blank
  simp only [structural, Bool.or_eq_false_iff, decide_eq_false_iff_not]
  refine ⟨⟨?_, ?_⟩, ?_⟩ <;> rintro rfl <;> cases blank

theorem clean_trimHtml : Clean (trimHtml html) ↔ Clean html := by
  have reversed : ∀ html : Html, Clean html.reverse ↔ Clean html := fun html => by simp [Clean]
  rw [trimHtml, List.rdropWhile, reversed, clean_dropWhile, reversed, clean_dropWhile]

theorem forall_mem_spread {P : String × Value → Prop} {base own : List (String × Value)}
    (distinct : (own.map Prod.fst).Nodup) (defaults : ∀ e ∈ base, P e) :
    (∀ e ∈ spread base own, P e) ↔ ∀ e ∈ own, P e := by
  simp only [spread, forall_mem_append, forall_mem_map, mem_filter, and_imp]
  constructor
  · intro ⟨first, later⟩ e mem
    by_cases listed : e.1 ∈ base.map Prod.fst
    · obtain ⟨entry, inside, same⟩ := mem_map.mp listed
      have some_ : (own.find? fun o => o.1 = entry.1).isSome :=
        find?_isSome.mpr ⟨e, mem, by simp [same]⟩
      obtain ⟨o, found⟩ := Option.isSome_iff_exists.mp some_
      have key : o.1 = entry.1 := by simpa using find?_some found
      have here := first entry inside
      rw [found, Option.getD_some] at here
      exact inj_on_of_nodup_map distinct (mem_of_find?_eq_some found) mem
        (key.trans same) ▸ here
    · exact later e mem (by simpa using listed)
  · intro all
    refine ⟨fun entry inside => ?_, fun e mem _ => all e mem⟩
    cases found : own.find? fun o => o.1 = entry.1 with
    | none => exact defaults entry inside
    | some e => exact all e (mem_of_find?_eq_some found)

theorem inert_bodyStyles : Inert (bodyStyles js style) ↔ style.Inert js := by
  rw [bodyStyles, inert_styleToString, forall_mem_spread]
  · -- the content width is not emitted
    simp only [Style.Inert, mem_filter, and_imp, decide_eq_true_eq]
    refine forall₂_congr fun e _ => ⟨fun h shown => h ?_ shown, fun h _ => h⟩
    rintro width
    simp [emitted, nonCssKeys, width] at shown
  · exact style.distinct.sublist (filter_sublist.map Prod.fst)
  · have zero := js.inert (.finite 0)
    simp only [bodyDefaults, forall_mem_cons, Value.text]
    refine ⟨?_, ?_, ?_, ?_, ?_, nofun⟩ <;> intro _
    · exact ⟨by decide, zero⟩
    · exact ⟨by decide, zero⟩
    all_goals decide

/-- No style object of the design brings a delimiter into the HTML. -/
def EmailDesign.Inert (js : Runtime) (design : EmailDesign) : Prop :=
  design.bodyStyle.Inert js ∧ ∀ block ∈ design.blocks, block.Inert js 11

theorem clean_generateHTML (shell : Shell) (design : EmailDesign) :
    Clean (generateHTML js shell design) ↔ design.Inert js := by
  unfold generateHTML
  simp [clean_trimHtml, inert_bodyStyles, clean_renderBlockToHTML, EmailDesign.Inert]

/-- Every delimiter of the HTML comes from the generator or from a text block, unless a style object
that is shown holds one. -/
theorem delimiters_own_iff (js : Runtime) (shell : Shell) (design : EmailDesign) :
    (∀ p ∈ generateHTML js shell design, structural p.2 = true →
      p.1 = .markup ∨ p.1 = .textBlock) ↔ design.Inert js := by
  rw [← clean_generateHTML shell]
  refine forall₂_congr fun p _ => ?_
  rcases p with ⟨_ | _ | _, c⟩ <;> simp

/-- A browser that knows no number but the whole ones. -/
def wholeNumbers : Runtime where
  parseInt s := if s ≠ [] ∧ s.all Char.isDigit
    then .finite (s.foldl (fun n c => 10 * n + (c.toNat - 48)) 0 : Nat) else .nan
  number
    | .number n => n
    | _ => .nan
  toString
    | .finite q => Nat.toDigits 10 q.num.natAbs
    | _ => "NaN".toList
  inert := by
    have nan : Inert "NaN".toList := by decide
    rintro (_ | _ | q)
    · exact nan
    · exact nan
    · intro c digit
      have digit := Nat.isDigit_of_mem_toDigits (by decide) (by decide) digit
      simp only [structural, Bool.or_eq_false_iff, decide_eq_false_iff_not]
      refine ⟨⟨?_, ?_⟩, ?_⟩ <;> rintro rfl <;> cases digit

/-- Columns with a padding of eight, and a spacer of twelve in one of them. -/
def nested : EmailDesign where
  blocks := [⟨⟨[("padding", .number (.finite 8))], by decide⟩, .undefined, .undefined, .undefined,
    .columns true .undefined .undefined .undefined [⟨.undefined, ⟨[], nodup_nil⟩,
      [⟨⟨[("height", .number (.finite 12))], by decide⟩, .undefined, .undefined, .undefined,
        .spacer (.number (.finite 12))⟩]⟩]⟩]
  bodyStyle := ⟨[], nodup_nil⟩
  preheader := .undefined

theorem delimiters_own_nested : ∀ shell : Shell, ∀ p ∈ generateHTML wholeNumbers shell nested,
    structural p.2 = true → p.1 = .markup ∨ p.1 = .textBlock := by
  intro shell
  refine (delimiters_own_iff wholeNumbers shell nested).mpr ⟨nofun, ?_⟩
  have inert (name : String) (n : ℚ) (plain : Inert name.toList)
      (distinct : ([(name, Value.number (.finite n))].map Prod.fst).Nodup) :
      Style.Inert wholeNumbers ⟨[(name, .number (.finite n))], distinct⟩ := by
    intro e mem _
    rw [mem_singleton.mp mem]
    exact ⟨plain, wholeNumbers.inert _⟩
  simp only [nested, forall_mem_singleton, Block.Inert]
  exact ⟨inert _ _ (by decide) _, nofun, inert _ _ (by decide) _⟩

/-- A heading whose colour ends the style attribute and the tag. -/
def brokenOut : EmailDesign where
  blocks := [{
    style := ⟨[("color", .string "red\"><img src=x>".toList)], by decide⟩
    loopVariable := .undefined, emptyText := .undefined, ifVariable := .undefined
    content := .heading (.string "h1".toList) (.string "Hello".toList) }]
  bodyStyle := ⟨[], nodup_nil⟩
  preheader := .undefined

theorem colour_opens_tag : ¬ Inert "red\"><img src=x>".toList ∧ ∀ (js : Runtime) (shell : Shell),
    ∃ p ∈ generateHTML js shell brokenOut, p.1 = .value ∧ structural p.2 = true := by
  have colour : ¬ Inert "red\"><img src=x>".toList := by decide
  refine ⟨colour, fun js shell => ?_⟩
  have shown : ¬ brokenOut.Inert js := fun inert =>
    colour (inert.2 _ mem_cons_self _ mem_cons_self (by decide)).2
  simpa [Clean] using mt (clean_generateHTML shell _).mp shown

end Panmail.Builder
