import Panmail.Delivery.Recipients
import Panmail.RateLimit.Limiter

/-!
# Pacing a delivery

A reservation is charged at once, into debt if need be, and the debt is the time to wait: a short
wait is slept through, a long one is cancelled and the delivery put back. A pass is charged for the
recipients it has still to send to, which is how one recipient's suppression can move another's
turn.
-/
namespace Panmail.Delivery

open RateLimit

inductive ProviderType where
  | unspecified | smtp | imap | pop3 | sendgrid | ses | postmark | mailgun
  deriving DecidableEq

structure EmailProvider where
  id : String
  name : String
  type : ProviderType
  allowedSenders : List String
  sendRatePerMinute : Int
  sendBurst : Int

/-- A provider that only receives is never sent through. -/
def EmailProvider.receiver (p : EmailProvider) : Bool := p.type = .imap || p.type = .pop3

def firstSender (providers : List EmailProvider) : Option EmailProvider :=
  providers.find? fun p => !p.receiver

def providerSendLimit (p : EmailProvider) : Limit := ⟨p.sendRatePerMinute, p.sendBurst⟩

def egressBucketKey (tenantID providerID : String) : String :=
  if providerID = "" then tenantID ++ "|egress"
  else tenantID ++ "|egress|provider|" ++ providerID

/-- What a delivery finds: the limiter and its clock, the tenant's limit, and whether a short wait
ends before the context. -/
structure PaceInput where
  limiter : Option (Limiter × ℚ)
  sendLimit : Option Limit
  slept : Bool

def paceRequests (tenantID : String) (provider : Option EmailProvider) (limit : Option Limit) :
    List LimitRequest :=
  (limit.map fun l => ⟨egressBucketKey tenantID "", l⟩).toList ++
    (provider.map fun p => ⟨egressBucketKey tenantID p.id, providerSendLimit p⟩).toList

/-- `paceDelivery`: the wait the delivery is rescheduled after, if it is. -/
def paceDelivery (tenantID : String) (provider : Option EmailProvider) (pending : Nat)
    (input : PaceInput) : Option Nat :=
  match input.limiter with
  | none => none
  | some (l, now) =>
    (l.paceDelivery (paceRequests tenantID provider input.sendLimit) pending now input.slept).2

end Panmail.Delivery
