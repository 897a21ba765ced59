import Mathlib.Data.List.AList
import Mathlib.Data.Rat.Floor
import Panmail.Lib.TokenBucket

/-!
# The send limiter

`ratelimit.Limiter` over exact rationals, with times in seconds: a token bucket per key, made full
when it is first named, refilled when it is looked at, and dropped when the map is full.
-/
namespace Panmail.RateLimit

structure Limit where
  perMinute : Int
  burst : Int
  deriving DecidableEq

def Limit.unlimited (l : Limit) : Bool := l.perMinute ≤ 0

def Limit.capacity (l : Limit) : ℚ := if 0 < l.burst then l.burst else l.perMinute

structure LimitRequest where
  key : String
  limit : Limit
  deriving DecidableEq

structure Bucket where
  tokens : ℚ
  capacity : ℚ
  perSec : ℚ
  refilled : ℚ
  seen : ℚ
  /-- History: when the bucket was made. -/
  created : ℚ
  deriving DecidableEq

abbrev Buckets := AList fun _ : String => Bucket

structure Limiter where
  buckets : Buckets
  maxBuckets : Nat
  idleTTL : ℚ
  /-- History: how often a bucket was to be made and the map was full. -/
  evictions : Nat

/-- `New`, with `defaultMaxBuckets` and `defaultIdleTTL`. -/
def Limiter.new : Limiter := ⟨∅, 10000, 900, 0⟩

def rateOf (limit : Limit) : ℚ := limit.perMinute / 60

/-- A cost below one is taken for one. -/
def want (cost : Int) : ℚ := if cost ≤ 0 then 1 else cost

/-- Requests without a limit or a key are skipped. -/
def skipped (req : LimitRequest) : Bool := req.limit.unlimited || req.key = ""

theorem limited_of_taken {req : LimitRequest} {limit : Limit} (taken : skipped req = false)
    (same : req.limit = limit) : limit.unlimited = false := by
  simp only [skipped, Bool.or_eq_false_iff] at taken
  exact same ▸ taken.1

/-! ### Buckets -/

/-- A limit that was changed takes effect at once. -/
def Bucket.rerate (b : Bucket) (limit : Limit) : Bucket :=
  if b.perSec ≠ rateOf limit ∨ b.capacity ≠ limit.capacity then
    { b with
      perSec := rateOf limit
      capacity := limit.capacity
      tokens := min b.tokens limit.capacity }
  else b

def Bucket.full (limit : Limit) (now : ℚ) : Bucket :=
  ⟨limit.capacity, limit.capacity, rateOf limit, now, now, now⟩

/-- The refill at the head of `assess` and of a reservation. -/
def Bucket.refill (b : Bucket) (now : ℚ) : Bucket :=
  if 0 < now - b.refilled then
    { b with
      tokens := TokenBuckets.refill b.capacity b.perSec b.tokens (now - b.refilled)
      refilled := now
      seen := now }
  else { b with seen := now }

/-- How long until a bucket in debt is in credit. -/
def Bucket.wait (b : Bucket) : ℚ := if b.tokens < 0 then -b.tokens / b.perSec else 0

structure Decision where
  allowed : Bool
  retryAfter : ℚ
  spend : ℚ
  empty : Bool

def Decision.apply (d : Decision) (b : Bucket) : Bucket :=
  if !d.allowed then b
  else if d.empty then { b with tokens := 0 }
  else { b with tokens := b.tokens - d.spend }

/-- `assess`, of a bucket that has been refilled. -/
def assess (b : Bucket) (cost : ℚ) : Decision :=
  if b.capacity < cost then ⟨true, 0, 0, true⟩
  else if cost ≤ b.tokens then ⟨true, 0, cost, false⟩
  else ⟨false, (cost - b.tokens) / b.perSec, 0, false⟩

/-! ### The map -/

def oldest : List (Sigma fun _ : String => Bucket) → Option (Sigma fun _ : String => Bucket)
  | [] => none
  | e :: rest =>
    match oldest rest with
    | none => some e
    | some other => if other.2.seen < e.2.seen then some other else some e

def Limiter.evictIfNeeded (l : Limiter) (now : ℚ) : Limiter :=
  if l.buckets.entries.length < l.maxBuckets then l
  else
    let idle := l.buckets.entries.filter fun e => l.idleTTL < now - e.2.seen
    let kept := idle.foldl (fun m e => m.erase e.1) l.buckets
    let buckets := if kept.entries.length < l.maxBuckets then kept
      else match oldest kept.entries with
        | some e => kept.erase e.1
        | none => kept
    { l with buckets := buckets, evictions := l.evictions + 1 }

def Limiter.store (l : Limiter) (key : String) (b : Bucket) : Limiter :=
  { l with buckets := l.buckets.insert key b }

def Limiter.bucketFor (l : Limiter) (key : String) (limit : Limit) (now : ℚ) : Limiter × Bucket :=
  match l.buckets.lookup key with
  | some b => (l.store key (b.rerate limit), b.rerate limit)
  | none => ((l.evictIfNeeded now).store key (Bucket.full limit now), Bucket.full limit now)

/-- `bucketFor` and the refill, as every operation begins. -/
def Limiter.look (l : Limiter) (key : String) (limit : Limit) (now : ℚ) : Limiter × Bucket :=
  let (l, b) := l.bucketFor key limit now
  (l.store key (b.refill now), b.refill now)

def Limiter.forget (l : Limiter) (key : String) : Limiter :=
  { l with buckets := l.buckets.erase key }

/-! ### Admission -/

/-- History: a charge, whether the cost was more than the bucket can hold, and the balances
around it. -/
structure Charge where
  key : String
  oversized : Bool
  before : ℚ
  after : ℚ
  deriving DecidableEq

/-- Carry a decision out on the bucket it was made about. -/
def Limiter.settle (l : Limiter) (key : String) (d : Decision) : Limiter × List Charge :=
  match l.buckets.lookup key with
  | some b => (l.store key (d.apply b), [⟨key, d.empty, b.tokens, (d.apply b).tokens⟩])
  | none => (l, [])

/-- The answer to a call, the limiter after it, and the charges made. -/
structure Answer where
  allowed : Bool
  retryAfter : ℚ
  limiter : Limiter
  charges : List Charge

def Limiter.allow (l : Limiter) (key : String) (limit : Limit) (cost : Int) (now : ℚ) : Answer :=
  if limit.unlimited then ⟨true, 0, l, []⟩
  else
    let (l, b) := l.look key limit now
    let d := assess b (want cost)
    let (l, charges) := l.settle key d
    ⟨d.allowed, d.retryAfter, l, charges⟩

/-- The first loop of `AllowAll`: what has been decided so far. -/
structure Assessing where
  limiter : Limiter
  allowed : Bool
  retryAfter : ℚ
  decisions : List (String × Decision)

def Assessing.next (cost now : ℚ) (acc : Assessing) (req : LimitRequest) : Assessing :=
  if skipped req then acc
  else
    let (l, b) := acc.limiter.look req.key req.limit now
    let d := assess b cost
    { limiter := l
      allowed := acc.allowed && d.allowed
      retryAfter := if d.allowed then acc.retryAfter else max acc.retryAfter d.retryAfter
      decisions := acc.decisions ++ [(req.key, d)] }

def settleAll (acc : Limiter × List Charge) (p : String × Decision) : Limiter × List Charge :=
  let (l, charges) := acc.1.settle p.1 p.2
  (l, acc.2 ++ charges)

def Limiter.allowAll (l : Limiter) (reqs : List LimitRequest) (cost : Int) (now : ℚ) : Answer :=
  let assessed := reqs.foldl (Assessing.next (want cost) now) ⟨l, true, 0, []⟩
  if !assessed.allowed then ⟨false, assessed.retryAfter, assessed.limiter, []⟩
  else
    let (l, charges) := assessed.decisions.foldl settleAll (assessed.limiter, [])
    ⟨true, 0, l, charges⟩

/-! ### Reservation -/

/-- What `Cancel` gives back to a bucket. -/
structure Held where
  key : String
  restore : ℚ

/-- The loop of `ReserveAll`: what has been charged so far. -/
structure Reserving where
  limiter : Limiter
  delay : ℚ
  held : List Held
  charges : List Charge

def Reserving.next (cost now : ℚ) (acc : Reserving) (req : LimitRequest) : Reserving :=
  if skipped req then acc
  else
    let (l, b) := acc.limiter.look req.key req.limit now
    if b.capacity < cost then
      { acc with
        limiter := l.store req.key { b with tokens := 0 }
        held := acc.held ++ [⟨req.key, max b.tokens 0⟩]
        charges := acc.charges ++ [⟨req.key, true, b.tokens, 0⟩] }
    else
      let charged := { b with tokens := b.tokens - cost }
      { limiter := l.store req.key charged
        delay := max acc.delay charged.wait
        held := acc.held ++ [⟨req.key, cost⟩]
        charges := acc.charges ++ [⟨req.key, false, b.tokens, charged.tokens⟩] }

def Limiter.reserveAll (l : Limiter) (reqs : List LimitRequest) (cost : Int) (now : ℚ) :
    Reserving :=
  reqs.foldl (Reserving.next (want cost) now) ⟨l, 0, [], []⟩

/-- One bucket is given back what a reservation took. -/
def Limiter.restore (l : Limiter) (h : Held) : Limiter :=
  match l.buckets.lookup h.key with
  | some b => l.store h.key { b with tokens := min b.capacity (b.tokens + h.restore) }
  | none => l

def Limiter.cancel (l : Limiter) (held : List Held) : Limiter := held.foldl Limiter.restore l

/-! ### A delivery's turn -/

/-- `maxPaceWait`, five seconds. -/
def maxPaceWait : Nat := 5000000000

/-- The reservation's delay in nanoseconds, as `ReserveAll` rounds it. -/
def Reserving.wait (r : Reserving) : Nat := ⌊r.delay * 1000000000⌋₊

/-- `paceDelivery` against the buckets of `reqs`: the limiter after it and the `RetryAfter` of the
`DeliveryPacedError`, if there is one. -/
def Limiter.paceDelivery (l : Limiter) (reqs : List LimitRequest) (pending : Nat) (now : ℚ)
    (slept : Bool) : Limiter × Option Nat :=
  if pending = 0 then (l, none)
  else
    let res := l.reserveAll reqs pending now
    if res.wait = 0 then (res.limiter, none)
    else if maxPaceWait < res.wait ∨ slept = false then
      (res.limiter.cancel res.held, some res.wait)
    else (res.limiter, none)

/-! ### Runs of calls -/

/-- A reservation, when it was made, and whether it has been cancelled. -/
structure Reservation where
  time : ℚ
  delay : ℚ
  held : List Held
  cancelled : Bool

/-- An admitted call: when, what it costs, and the buckets it names. -/
structure Admission where
  time : ℚ
  cost : ℚ
  keys : List String

structure World where
  limiter : Limiter
  /-- The time of the last call that read the clock. -/
  clock : ℚ
  /-- In the order they were made. -/
  reservations : List Reservation
  /-- History: the calls admitted, in order. -/
  admissions : List Admission

def World.start (clock : ℚ) : World := ⟨Limiter.new, clock, [], []⟩

inductive Call where
  | allow (key : String) (limit : Limit) (cost : Int) (now : ℚ)
  | allowAll (reqs : List LimitRequest) (cost : Int) (now : ℚ)
  | reserveAll (reqs : List LimitRequest) (cost : Int) (now : ℚ)
  | cancel (i : Nat)
  | forget (key : String)

def keysOf (reqs : List LimitRequest) : List String :=
  (reqs.filter fun req => !skipped req).map LimitRequest.key

def World.admitted (w : World) (answer : Answer) (now cost : ℚ) (keys : List String) : World :=
  { w with
    limiter := answer.limiter
    clock := now
    admissions := if answer.allowed then w.admissions ++ [⟨now, cost, keys⟩] else w.admissions }

def World.step (w : World) : Call → Option World
  | .allow key limit cost now => some (w.admitted (w.limiter.allow key limit cost now) now
      (want cost) (if limit.unlimited then [] else [key]))
  | .allowAll reqs cost now => some (w.admitted (w.limiter.allowAll reqs cost now) now
      (want cost) (keysOf reqs))
  | .reserveAll reqs cost now =>
    let r := w.limiter.reserveAll reqs cost now
    some { w with
      limiter := r.limiter
      clock := now
      reservations := w.reservations ++ [⟨now, r.delay, r.held, false⟩] }
  | .cancel i =>
    match w.reservations[i]? with
    | some r => some { w with
        limiter := if r.cancelled then w.limiter else w.limiter.cancel r.held
        reservations := w.reservations.set i { r with cancelled := true } }
    | none => none
  | .forget key => some { w with limiter := w.limiter.forget key }

end Panmail.RateLimit
