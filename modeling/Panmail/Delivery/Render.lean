import Panmail.Delivery.Recipients

/-!
# The content of a message, and how a send fails

`renderTemplate` gives a message its subject and bodies, at admission for the filter
rules and again in every delivery pass. The renderer is a third-party engine that walks
maps in any order, so one call of it is a parameter: two calls on the same template and
data need not agree.
-/
namespace Panmail.Delivery

structure Template where
  subject : String
  bodyHTML : String
  bodyText : String

structure Content where
  subject : String
  html : String
  text : String
  deriving DecidableEq

structure RecipientFailure where
  recipient : String
  err : String
  verdict : Classification
  deriving DecidableEq

/-- The errors of the send path that the worker tells apart. -/
inductive SendError where
  /-- `DeliveryPacedError`. -/
  | paced (retryAfter : Nat)
  /-- `RecipientFailuresError`. -/
  | recipients (failures : List RecipientFailure) (delivered : Nat)
  /-- `ProviderSenderRefusedError`. -/
  | senderRefused (provider sender : String)
  /-- `TemplateRefusedError`; no stage means that the template was not found. -/
  | templateRefused (templateID stage err : String)
  | failed (text : String)
  deriving DecidableEq

/-- `permanentRefusal`: the errors that say of themselves that they will not change. -/
def SendError.permanent : SendError → Bool
  | .senderRefused _ _ | .templateRefused _ _ _ => true
  | _ => false

/-- `Error()`. -/
def SendError.text : SendError → String
  | .paced _ => "delivery paced"
  | .recipients failures _ => "\n".intercalate (failures.map fun f =>
      "failed to deliver to " ++ f.recipient ++ ": " ++ f.err)
  | .senderRefused provider sender =>
    "provider " ++ provider ++ " is not authorized to send as " ++ sender
  | .templateRefused templateID stage err =>
    if stage = "" then "template not found: " ++ templateID
    else "failed to render " ++ stage ++ ": " ++ err
  | .failed text => text

/-- The bodies of a message without a template, the deprecated field last. -/
def SendEmailRequest.plainContent (req : SendEmailRequest) : Content :=
  if req.bodyHTML ≠ "" ∨ req.bodyText ≠ "" then ⟨req.subject, req.bodyHTML, req.bodyText⟩
  else if req.isHTML then ⟨req.subject, req.body, ""⟩
  else ⟨req.subject, "", req.body⟩

/-- What the renderer makes of a text, escaped for HTML or not, in one call of
`renderTemplate`. -/
abbrev Renderer := String → Bool → Except String String

def renderParts (templateID : String) (tpl : Template) (render : Renderer) :
    Except SendError Content :=
  match render tpl.subject false, render tpl.bodyHTML true, render tpl.bodyText false with
  | .error err, _, _ => .error (.templateRefused templateID "subject" err)
  | _, .error err, _ => .error (.templateRefused templateID "body_html" err)
  | _, _, .error err => .error (.templateRefused templateID "body_text" err)
  | .ok subject, .ok html, .ok text => .ok ⟨subject, html, text⟩

/-- `renderTemplate`, after `getTemplate` answered. -/
def renderTemplate (req : SendEmailRequest) (template : Except String (Option Template))
    (render : Renderer) : Except SendError Content :=
  if req.templateID = "" then .ok req.plainContent
  else
    match template with
    | .error err => .error (.failed ("failed to get template: " ++ err))
    | .ok none => .error (.templateRefused req.templateID "" "")
    | .ok (some tpl) => renderParts req.templateID tpl render

end Panmail.Delivery
