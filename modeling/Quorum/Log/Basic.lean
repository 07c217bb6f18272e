import Quorum.Log.Entry
import Quorum.Log.Index

/-!
# Logs

A log is the list of its entries. This module holds the questions that the
protocol asks of a log and the one way in which a follower's log changes:
`splice` puts a leader's entries behind a shared beginning, keeps every
entry that the two logs already agree on, and drops the old suffix only
where a term differs.
-/

namespace Quorum

/-- A replicated log, first entry first. -/
abbrev Log := List LogEntry

namespace Log

def entry? (log : Log) (i : LogIndex) : Option LogEntry :=
  if i = 0 then none else log[i - 1]?

/-- The term of the entry at an index, and zero where there is none. -/
def termAt (log : Log) (i : LogIndex) : Term :=
  ((log.entry? i).map (·.term)).getD 0

/-- The term of the last entry, and zero for the empty log. -/
def lastTerm (log : Log) : Term :=
  (log.getLast?.map (·.term)).getD 0

/-- A log that ends in the given term and length holds everything this log
may have committed: its last term is later, or the terms are equal and it is
no shorter. -/
def isCoveredBy (log : Log) (length : LogIndex) (term : Term) : Bool :=
  log.lastTerm < term || (term == log.lastTerm && log.length ≤ length)

/-- The log holds an entry of the given term at the given index, or the
index is zero: what a leader's entries behind that index need in order to
fit. -/
def holds (log : Log) (i : LogIndex) (term : Term) : Bool :=
  i ≤ log.length && (i == 0 || log.termAt i == term)

/-- A suffix replaced by the entries that a leader sends for its place. As
long as the terms agree the old entries stay; from the first difference on
the new ones take over. A suffix that goes on behind the new entries
stays. -/
def graft : Log → List LogEntry → Log
  | old, [] => old
  | [], new => new
  | o :: old, e :: new => if o.term = e.term then o :: graft old new else e :: new

/-- The log after a leader's entries for the places behind `prev`. -/
def splice (log : Log) (prev : LogIndex) (entries : List LogEntry) : Log :=
  log.take prev ++ graft (log.drop prev) entries

/-- The last index of the given term that is above `floor` and at most
`top`, or `floor` if there is none. -/
def lastOfTerm (log : Log) (term : Term) (floor : LogIndex) : LogIndex → LogIndex
  | 0 => floor
  | i + 1 =>
    if i + 1 ≤ floor then floor
    else if log.termAt (i + 1) = term then i + 1
    else log.lastOfTerm term floor i

/-- How far a leader in `term` may commit when a quorum holds the first
`held` entries and `committed` of them are committed already: up to the last
of them that has the leader's own term. Where there is no entry the term
counts as zero, so only in term zero can the answer lie past the end of the
log. -/
def commitPoint (log : Log) (term : Term) (committed held : LogIndex) : LogIndex :=
  log.lastOfTerm term committed (if term = 0 then held else min held log.length)

end Log

end Quorum
