import Quorum.Term
import Quorum.Time

/-!
# Leader leases

A leader answers reads from its own store only while it holds a lease. Its
first window is given to it with its office and lasts for a fixed time from
the barrier on; each heartbeat round that a quorum acknowledges makes the
lease last for that time from the start of the round. A follower remembers until when a leader that it
acknowledged may go on like that, and tells it to the candidates it votes
for; the winner waits this time out before it serves anyone.
-/

namespace Quorum

structure LeaderLease where
  duration : Duration
  /-- Before this instant the lease of an earlier leader may still run, and no
  client is served. -/
  barrier : Instant
  expiresAt : Instant
  /-- A quorum has acknowledged some heartbeat round of this term. -/
  confirmed : Bool
  /-- The number of the latest heartbeat round. -/
  round : Nat
  roundStartedAt : Instant
  /-- The peers that have acknowledged the latest round, each once. -/
  acks : List NodeId
  deriving DecidableEq, Repr

namespace LeaderLease

/-- The lease of a leader elected at `now`, when an earlier lease may still
run for `prior`. It gives the new leader its first window before any round
is acknowledged, so that it is not expired from the start. -/
def grant (now : Instant) (duration prior : Duration) : Except ClockOverflow LeaderLease := do
  let barrier ← Instant.after now prior
  let expiresAt ← Instant.after barrier duration
  return {
    duration, barrier, expiresAt
    confirmed := false
    round := 0
    roundStartedAt := now
    acks := [] }

/-- Renews the lease if a quorum, this leader included, has acknowledged the
latest round, and tells whether it did. The new window is counted from the
start of the round, which no peer can have seen earlier. -/
def renew (l : LeaderLease) (quorum : Nat) : Except ClockOverflow (LeaderLease × Bool) :=
  if l.acks.length + 1 < quorum then
    return (l, false)
  else do
    let renewed ← Instant.after l.roundStartedAt l.duration
    return ({ l with expiresAt := max l.expiresAt renewed, confirmed := true }, true)

/-- Starts the next heartbeat round. Where the leader alone is a quorum, this
renews the lease at once. -/
def beginRound (l : LeaderLease) (now : Instant) (quorum : Nat) :
    Except ClockOverflow LeaderLease := do
  let (l, _) ← { l with round := l.round + 1, roundStartedAt := now, acks := [] }.renew quorum
  return l

/-- Records that somebody acknowledged a round, and tells whether that renewed
the lease. Only the first acknowledgement of the latest round by each sender
counts. -/
def recordAck (l : LeaderLease) (peer : NodeId) (round quorum : Nat) :
    Except ClockOverflow (LeaderLease × Bool) :=
  if round = l.round ∧ peer ∉ l.acks then
    { l with acks := peer :: l.acks }.renew quorum
  else
    return (l, false)

/-- The lease has run out. -/
def isExpired (l : LeaderLease) (now : Instant) : Bool := l.expiresAt ≤ now

/-- Every earlier leader's lease has run out. -/
def isPastBarrier (l : LeaderLease) (now : Instant) : Bool := l.barrier ≤ now

/-- The leader may answer reads from its own store. -/
def allowsReads (l : LeaderLease) (now : Instant) : Bool :=
  l.confirmed && l.isPastBarrier now && now < l.expiresAt

end LeaderLease

/-- A node's estimate of when the lease of an earlier leader runs out. As
long as it knows of none the estimate is the start of the run, which never
lies ahead. -/
structure PriorLease where
  endsAt : Instant := 0
  deriving DecidableEq, Repr

namespace PriorLease

/-- The estimate that also covers a lease which ends at the given instant. -/
def extendUntil (p : PriorLease) (instant : Instant) : PriorLease :=
  ⟨max p.endsAt instant⟩

/-- The estimate after a leader that holds leases of the given duration was
acknowledged at `now`. -/
def observe (p : PriorLease) (now : Instant) (lease : Duration) :
    Except ClockOverflow PriorLease := do
  return p.extendUntil (← Instant.after now lease)

/-- How long the earlier lease may still run. -/
def remaining (p : PriorLease) (now : Instant) : Duration :=
  Instant.remaining now p.endsAt

end PriorLease

end Quorum
