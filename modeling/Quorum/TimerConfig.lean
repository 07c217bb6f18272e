import Quorum.Time

/-!
# Timer configuration

The times that govern elections, heartbeats and leases, and the conditions
they have to meet. `validate` is checked when a server starts; a node works
with whatever it is given.
-/

namespace Quorum

/-- The times a node works with. -/
structure TimerConfig where
  /-- The shortest time without a leader before a node stands for election. -/
  electionMin : Duration := Duration.ofSeconds 5
  /-- The longest such time. -/
  electionMax : Duration := Duration.ofSeconds 10
  /-- The time between two heartbeat rounds of a leader. -/
  heartbeat : Duration := Duration.ofSeconds 1
  /-- How long a leader may answer reads after a heartbeat round that a quorum
  acknowledged. -/
  lease : Duration := Duration.ofMilliseconds 2500
  /-- The longest time a candidate waits for votes. -/
  rpc : Duration := Duration.ofSeconds 1
  deriving DecidableEq, Repr

/-- Why a timer configuration is refused. -/
inductive ConfigError where
  | electionRange (min max : Duration)
  | zeroHeartbeat
  | leaseTooShort (lease heartbeat : Duration)
  deriving DecidableEq, Repr

/-- The text that describes a refused configuration. -/
def ConfigError.message : ConfigError → String
  | .electionRange min max =>
    "election timeout range is empty (" ++ min.text ++ "..=" ++ max.text ++ ")"
  | .zeroHeartbeat => "heartbeat interval must be non-zero"
  | .leaseTooShort lease heartbeat =>
    "lease duration " ++ lease.text ++ " must exceed the heartbeat interval " ++ heartbeat.text

namespace TimerConfig

/-- The conditions on a configuration, the first one that fails being
reported. -/
def validate (c : TimerConfig) : Except ConfigError Unit :=
  if c.electionMin = 0 ∨ c.electionMax < c.electionMin then
    .error (.electionRange c.electionMin c.electionMax)
  else if c.heartbeat = 0 then
    .error .zeroHeartbeat
  else if c.lease ≤ c.heartbeat then
    .error (.leaseTooShort c.lease c.heartbeat)
  else
    .ok ()

/-- The election timeout that a random number selects. Every duration of the
range is selected by some number, and an empty range stands for its lower
end. -/
def electionTimeout (c : TimerConfig) (draw : Nat) : Duration :=
  if c.electionMax ≤ c.electionMin then c.electionMin
  else c.electionMin + draw % (c.electionMax - c.electionMin + 1)

end TimerConfig

end Quorum
