import Panmail.Lib.Text
import Panmail.Outbox.Store

/-!
# Filter rules

A tenant's rules and the check a rule passes before it is stored and again before it is
evaluated. What the database holds is text, so a field, an operator, an action or a
direction may be one this build does not know.
-/
namespace Panmail.Filters

open Text

inductive Field where
  | from_ | to_ | cc | bcc | anyRecipient
  | subject | body | subjectOrBody | header
  | attachmentName | attachmentExtension | attachmentText
  | attachmentCount | attachmentSize | totalAttachmentSize | messageSize | recipientCount
  | hasAttachment | hasExecutableAttachment
  | provider | spf | dkim | dmarc
  | unknown (text : String)
  deriving DecidableEq

def Field.text : Field → String
  | .from_ => "from"
  | .to_ => "to"
  | .cc => "cc"
  | .bcc => "bcc"
  | .anyRecipient => "any_recipient"
  | .subject => "subject"
  | .body => "body"
  | .subjectOrBody => "subject_or_body"
  | .header => "header"
  | .attachmentName => "attachment_name"
  | .attachmentExtension => "attachment_extension"
  | .attachmentText => "attachment_text"
  | .attachmentCount => "attachment_count"
  | .attachmentSize => "attachment_size"
  | .totalAttachmentSize => "total_attachment_size"
  | .messageSize => "message_size"
  | .recipientCount => "recipient_count"
  | .hasAttachment => "has_attachment"
  | .hasExecutableAttachment => "has_executable_attachment"
  | .provider => "provider"
  | .spf => "spf"
  | .dkim => "dkim"
  | .dmarc => "dmarc"
  | .unknown text => text

inductive Operator where
  | contains | matches_ | equals | domainIs | in_ | greaterOrEqual | isTrue | exists_
  | unknown (text : String)
  deriving DecidableEq

def Operator.text : Operator → String
  | .contains => "contains"
  | .matches_ => "matches"
  | .equals => "equals"
  | .domainIs => "domain_is"
  | .in_ => "in"
  | .greaterOrEqual => "gte"
  | .isTrue => "is_true"
  | .exists_ => "exists"
  | .unknown text => text

inductive FieldKind where
  | address | text | header | number | bool | enum

def fieldKinds : Field → Option FieldKind
  | .from_ | .to_ | .cc | .bcc | .anyRecipient => some .address
  | .subject | .body | .subjectOrBody => some .text
  | .attachmentName | .attachmentExtension | .attachmentText => some .text
  | .header => some .header
  | .attachmentCount | .attachmentSize | .totalAttachmentSize => some .number
  | .messageSize | .recipientCount => some .number
  | .hasAttachment | .hasExecutableAttachment => some .bool
  | .provider | .spf | .dkim | .dmarc => some .enum
  | .unknown _ => none

def allowedOperators : FieldKind → List Operator
  | .address => [.contains, .matches_, .equals, .domainIs]
  | .text => [.contains, .matches_, .equals, .in_]
  | .header => [.contains, .matches_, .equals, .exists_]
  | .number => [.greaterOrEqual]
  | .bool => [.isTrue]
  | .enum => [.equals, .in_]

def inboundOnlyFields : List Field := [.spf, .dkim, .dmarc]

def outboundOnlyFields : List Field := [.provider]

inductive RuleDirection where
  | inbound | outbound
  | unknown (text : String)
  deriving DecidableEq

def RuleDirection.text : RuleDirection → String
  | .inbound => "inbound"
  | .outbound => "outbound"
  | .unknown text => text

inductive RuleAction where
  | hold | reject | tag | allow
  | unknown (text : String)
  deriving DecidableEq

structure Condition where
  field : Field
  operator : Operator
  values : List String
  header : String
  number : Int
  deriving DecidableEq

structure Rule where
  id : String
  tenantID : String
  name : String
  direction : RuleDirection
  action : RuleAction
  priority : Int
  enabled : Bool
  conditions : List Condition
  exceptions : List Condition
  tag : String
  deriving DecidableEq

/-! ### Validation -/

/-- `regexp.Compile`: the error a pattern is refused with, if it is. -/
abbrev Compile := String → Option String

def Condition.validate (compile : Compile) (direction : RuleDirection) (c : Condition) :
    Except String Unit :=
  match fieldKinds c.field with
  | none => .error ("emailfilter: unknown field \"" ++ c.field.text ++ "\"")
  | some kind =>
    if c.field ∈ inboundOnlyFields ∧ direction ≠ .inbound then
      .error ("emailfilter: " ++ c.field.text ++ " is only available on inbound rules")
    else if c.field ∈ outboundOnlyFields ∧ direction ≠ .outbound then
      .error ("emailfilter: " ++ c.field.text ++ " is only available on outbound rules")
    else if c.operator ∉ allowedOperators kind then
      .error ("emailfilter: operator \"" ++ c.operator.text ++ "\" cannot be used with field \"" ++
        c.field.text ++ "\"")
    else if c.field = .header ∧ trimSpace c.header = "" then
      .error "emailfilter: a header condition needs a header name"
    else if c.operator ≠ .isTrue ∧ c.operator ≠ .exists_ ∧ c.operator ≠ .greaterOrEqual ∧
        c.values = [] then
      .error ("emailfilter: " ++ c.field.text ++ " " ++ c.operator.text ++
        " needs at least one value")
    else if c.operator = .greaterOrEqual ∧ c.number < 0 then
      .error ("emailfilter: " ++ c.field.text ++ " gte needs a threshold of zero or more")
    else if c.operator = .matches_ then
      c.values.forM fun value => match compile ("(?i)" ++ value) with
        | some err => .error ("emailfilter: " ++ value ++ " is not a valid pattern: " ++ err)
        | none => .ok ()
    else .ok ()

/-- The loop over one list of conditions; `label` says which it is in the error. -/
def validateAll (compile : Compile) (direction : RuleDirection) (label : String) :
    Nat → List Condition → Except String Unit
  | _, [] => .ok ()
  | i, c :: rest =>
    match c.validate compile direction with
    | .error err => .error (label ++ " " ++ toString (i + 1) ++ ": " ++ err)
    | .ok () => validateAll compile direction label (i + 1) rest

def Rule.validate (compile : Compile) (r : Rule) : Except String Unit :=
  if trimSpace r.name = "" then .error "emailfilter: a rule needs a name"
  else match r.direction with
    | .unknown text => .error ("emailfilter: \"" ++ text ++ "\" is not a direction")
    | direction => match r.action with
      | .unknown text => .error ("emailfilter: \"" ++ text ++ "\" is not an action")
      | _ =>
        if r.conditions = [] then .error "emailfilter: a rule needs at least one condition"
        else match validateAll compile direction "condition" 0 r.conditions with
          | .error err => .error err
          | .ok () => validateAll compile direction "exception" 0 r.exceptions

end Panmail.Filters
