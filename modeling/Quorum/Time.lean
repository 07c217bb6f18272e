import Quorum.Text.Decimal

/-!
# Time

Durations and instants, both counted in nanoseconds. An instant is the time
since the start of the run. The clock of a node reaches a little beyond
`2 ^ 63` seconds; an instant past its end cannot be represented, and the
attempt to compute one is an error of its own, never a wrapped or clamped
value.
-/

namespace Quorum

/-- A length of time, in nanoseconds. -/
abbrev Duration := Nat

/-- A point in time, in nanoseconds since the start of the run. -/
abbrev Instant := Nat

namespace Duration

def second : Duration := 1000000000

def millisecond : Duration := 1000000

/-- A number of whole seconds. -/
def ofSeconds (n : Nat) : Duration := n * second

/-- A number of whole milliseconds. -/
def ofMilliseconds (n : Nat) : Duration := n * millisecond

def seconds (d : Duration) : Nat := d / second

/-- What a duration has beyond its whole seconds, in nanoseconds. -/
def subsecond (d : Duration) : Nat := d % second

/-- The longest representable duration: the last nanosecond before `2 ^ 64`
seconds. -/
def max : Duration := Word.size * second - 1

/-- The digits of a fraction with the given number of places, its trailing
zeros dropped. -/
def fractionDigits (places fraction : Nat) : List Char :=
  let written := Text.digits fraction
  let padded := List.replicate (places - written.length) '0' ++ written
  (padded.reverse.dropWhile (· == '0')).reverse

/-- A whole part and a fraction, the point left out where the fraction is
zero. -/
def decimalText (whole places fraction : Nat) (unit : String) : String :=
  let digits := fractionDigits places fraction
  let point := if digits.isEmpty then "" else "."
  Text.decimal whole ++ point ++ String.ofList digits ++ unit

/-- The text of a duration: in the largest unit of `s`, `ms`, `µs` and `ns`
of which it holds a whole one, with an exact fraction. -/
def text (d : Duration) : String :=
  let nanos := subsecond d
  if 0 < seconds d then decimalText (seconds d) 9 nanos "s"
  else if millisecond ≤ nanos then decimalText (nanos / millisecond) 6 (nanos % millisecond) "ms"
  else if 1000 ≤ nanos then decimalText (nanos / 1000) 3 (nanos % 1000) "µs"
  else decimalText nanos 0 0 "ns"

end Duration

/-- The sum of an instant and a duration lies past the end of the clock. -/
inductive ClockOverflow where
  | instantPlusDuration
  deriving DecidableEq, Repr

/-- What a node reports when it stops because of a clock overflow. -/
def ClockOverflow.message : ClockOverflow → String
  | .instantPlusDuration => "overflow when adding duration to instant"

namespace Instant

/-- The first instant that the clock cannot represent: half of all words, in
seconds. -/
def limit : Instant := Duration.ofSeconds (Word.size / 2)

/-- The instant that lies a duration after another one. -/
def after (start : Instant) (d : Duration) : Except ClockOverflow Instant :=
  if start + d < limit then .ok (start + d) else .error .instantPlusDuration

/-- How long it is from `now` until a deadline; nothing once it has passed. -/
def remaining (now deadline : Instant) : Duration := deadline - now

end Instant

end Quorum
