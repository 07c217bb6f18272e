import Mathlib.Logic.Relation
import Mathlib.Tactic.Simps.Basic
import Quorum.Proofs.Run.Basic

/-!
# Chronicles

What the safety of the protocol rests on, and nothing else. A *chronicle*
holds of every node its record and its standing, and besides the messages
ever sent it remembers what a cluster forgets: whom each node voted for in
each term, with which log it stood for election, and who won the term with
what log.

Whatever a handler does is a sequence of *moves*, each of which changes one
thing. Clocks, leases and deadlines decide when a move is made and have no
part in it, so a move is free to happen at any time. What holds of every
sequence of moves is shown move by move.
-/

namespace Quorum

/-- The part of a role that safety rests on. -/
inductive Standing where
  /-- A follower, a candidate whose tally is closed, or a node that is down. -/
  | passive
  /-- A candidate that still counts, with the votes it has. -/
  | counting (votes : List NodeId)
  /-- A leader, with what each peer has confirmed. -/
  | leading (acked : List (NodeId × LogIndex))

/-- The part of a node that safety rests on. -/
structure Core where
  record : Record
  standing : Standing

def Role.standing : Role → Standing
  | .follower _ => .passive
  | .candidate c => if c.tallying then .counting c.votes else .passive
  | .leader l => .leading (l.progress.map fun row => (row.peer, row.acked))

def Node.core (n : Node) : Core := ⟨n.record, n.role.standing⟩

def Slot.core : Slot → Core
  | .up replica => replica.node.core
  | .down storage => ⟨storage.record, .passive⟩

/-- A term that was won: by whom, and all that the winner's log has held
since. -/
structure Reign where
  winner : NodeId
  log : Log

/-- The nodes of a cluster, the messages between them, and what was settled
on the way. -/
structure Chronicle where
  core : NodeId → Core
  sent : List InFlight
  /-- Whom a node voted for in a term. -/
  ballot : NodeId → Term → Option NodeId
  /-- The log with which a node stood for election in a term. -/
  stood : NodeId → Term → Log
  reign : Term → Option Reign

namespace Chronicle

/-- Nothing has happened yet. -/
def start : Chronicle where
  core _ := ⟨{}, .passive⟩
  sent := []
  ballot _ _ := none
  stood _ _ := []
  reign _ := none

@[simp] def term (s : Chronicle) (i : NodeId) : Nat := (s.core i).record.currentTerm
@[simp] def log (s : Chronicle) (i : NodeId) : Log := (s.core i).record.log
@[simp] def vote (s : Chronicle) (i : NodeId) : Option NodeId := (s.core i).record.votedFor
@[simp] def commit (s : Chronicle) (i : NodeId) : Nat := (s.core i).record.commitLength
@[simp] def standing (s : Chronicle) (i : NodeId) : Standing := (s.core i).standing

/-! ## Changes of one thing -/

/-- A node has a new record and a new standing. -/
@[simps] def put (s : Chronicle) (i : NodeId) (record : Record) (standing : Standing) : Chronicle :=
  { s with core := Function.update s.core i ⟨record, standing⟩ }

section put

variable {s : Chronicle} {i : NodeId} {record : Record} {standing : Standing}

theorem put_term (h : record.currentTerm = s.term i) :
    (s.put i record standing).term = s.term := by
  funext j
  by_cases hj : j = i
  · subst hj; simpa using h
  · simp [hj]

theorem put_vote (h : record.votedFor = s.vote i) :
    (s.put i record standing).vote = s.vote := by
  funext j
  by_cases hj : j = i
  · subst hj; simpa using h
  · simp [hj]

theorem put_standing : (s.put i record (s.standing i)).standing = s.standing := by
  funext j
  by_cases hj : j = i
  · subst hj; simp
  · simp [hj]

theorem le_put_term (h : s.term i ≤ record.currentTerm) (j : NodeId) :
    s.term j ≤ (s.put i record standing).term j := by
  by_cases hj : j = i
  · subst hj; simpa using h
  · simp [hj]

end put

/-- A message is sent. -/
@[simps] def say (s : Chronicle) (sender receiver : NodeId) (message : Message) : Chronicle :=
  { s with sent := s.sent ++ [⟨sender, receiver, message⟩] }

theorem mem_say {s : Chronicle} {sender receiver : NodeId} {message : Message} {m : InFlight} :
    m ∈ (s.say sender receiver message).sent ↔ m ∈ s.sent ∨ m = ⟨sender, receiver, message⟩ := by
  rw [say_sent, List.mem_append, List.mem_singleton]

/-- A node votes in a term. -/
@[simps] def cast (s : Chronicle) (i : NodeId) (t : Term) (candidate : NodeId) : Chronicle :=
  { s with ballot := fun j u => if j = i ∧ u = t then some candidate else s.ballot j u }

/-- A node stands for election in a term, with its log. -/
@[simps] def enter (s : Chronicle) (i : NodeId) (t : Term) (log : Log) : Chronicle :=
  { s with stood := fun j u => if j = i ∧ u = t then log else s.stood j u }

/-- A term is won, or its winner's log has grown. -/
@[simps] def crown (s : Chronicle) (t : Term) (winner : NodeId) (log : Log) : Chronicle :=
  { s with reign := fun u => if u = t then some ⟨winner, log⟩ else s.reign u }

/-- What a node may send at any time without changing: refusals, and the
requests of a candidate and of a leader. -/
def MaySay (s : Chronicle) (i : NodeId) : Message → Prop
  | .voteRequest q =>
      (∃ votes, s.standing i = .counting votes) ∧ q.term = s.term i ∧ q.candidate = i ∧
        q.lastIndex = (s.log i).length ∧ q.lastTerm = (s.log i).lastTerm
  | .voteReply r => r.granted = false
  | .appendRequest q =>
      (∃ acked, s.standing i = .leading acked) ∧ q.term = s.term i ∧
        q.leader = i ∧ q.prevIndex ≤ (s.log i).length ∧
        q.prevTerm = (s.log i).termAt q.prevIndex ∧
        q.entries = (s.log i).drop q.prevIndex ∧ q.commit = s.commit i
  | .appendReply r => r.success = false

/-! ## Moves -/

/-- What node `i` can do in one move. -/
inductive Move (M : Roster) (i : NodeId) (s : Chronicle) : Chronicle → Prop
  /-- It moves to a newer term. -/
  | adopt {t : Term} (newer : s.term i < t) :
      Move M i s
        (s.put i { (s.core i).record with currentTerm := t, votedFor := none } .passive)
  /-- It gives up what it was doing. -/
  | retire : Move M i s (s.put i (s.core i).record .passive)
  /-- It stands for election in the next term. -/
  | stand :
      Move M i s
        (((s.put i
          { (s.core i).record with currentTerm := s.term i + 1, votedFor := some i }
          (.counting [i])).cast i (s.term i + 1) i).enter i (s.term i + 1) (s.log i))
  /-- It counts a vote that was granted to it. -/
  | count {votes : List NodeId} {voter : NodeId} {r : VoteReply}
      (counting : s.standing i = .counting votes)
      (arrived : ⟨voter, i, .voteReply r⟩ ∈ s.sent) (granted : r.granted = true)
      (current : r.term = s.term i) :
      Move M i s (s.put i (s.core i).record (.counting (votes.insert voter)))
  /-- It wins its term and opens it. -/
  | win {votes : List NodeId} {acked : List (NodeId × LogIndex)}
      (counting : s.standing i = .counting votes) (majority : M.quorum ≤ votes.length)
      (rows : (acked.map (·.1)).Nodup)
      (fresh : ∀ row ∈ acked, row.1 ∈ M.ids ∧ row.1 ≠ i ∧ row.2 = 0) :
      Move M i s
        ((s.put i { (s.core i).record with log := s.log i ++ [.noOp (s.term i)] }
          (.leading acked)).crown (s.term i) i (s.log i ++ [.noOp (s.term i)]))
  /-- As a leader it appends an operation. -/
  | append {acked : List (NodeId × LogIndex)} (operation : Operation)
      (leading : s.standing i = .leading acked) :
      Move M i s
        ((s.put i { (s.core i).record with log := s.log i ++ [⟨s.term i, operation⟩] }
          (.leading acked)).crown (s.term i) i (s.log i ++ [⟨s.term i, operation⟩]))
  /-- As a leader it notes what a peer has confirmed. -/
  | note {acked : List (NodeId × LogIndex)} {peer : NodeId} {r : AppendReply}
      (leading : s.standing i = .leading acked)
      (arrived : ⟨peer, i, .appendReply r⟩ ∈ s.sent) (success : r.success = true)
      (current : r.term = s.term i) :
      Move M i s
        (s.put i (s.core i).record (.leading (acked.map fun row =>
          if row.1 = peer then (row.1, max row.2 r.acked) else row)))
  /-- As a leader it commits what a quorum holds, up to an entry of its own
  term. -/
  | advance {acked : List (NodeId × LogIndex)} {n : LogIndex}
      (leading : s.standing i = .leading acked) (further : s.commit i < n)
      (own : (s.log i).termAt n = s.term i)
      (held : M.quorum ≤ ((s.log i).length :: acked.map (·.2)).countP (n ≤ ·)) :
      Move M i s (s.put i { (s.core i).record with commitLength := n } (.leading acked))
  /-- It grants a vote that it was asked for. -/
  | grant {candidate : NodeId} {q : VoteRequest} {prior : Duration}
      (arrived : ⟨candidate, i, .voteRequest q⟩ ∈ s.sent) (current : q.term = s.term i)
      (free : s.vote i = none ∨ s.vote i = some q.candidate)
      (covered : (s.log i).isCoveredBy q.lastIndex q.lastTerm = true) :
      Move M i s
        (((s.put i { (s.core i).record with votedFor := some q.candidate } (s.standing i)).cast
          i (s.term i) q.candidate).say i candidate
            (.voteReply ⟨s.term i, true, prior⟩))
  /-- It takes over the entries of a leader and confirms them. -/
  | accept {leader : NodeId} {q : AppendRequest}
      (arrived : ⟨leader, i, .appendRequest q⟩ ∈ s.sent) (current : q.term = s.term i)
      (fits : (s.log i).holds q.prevIndex q.prevTerm = true) :
      Move M i s
        ((s.put i
          { (s.core i).record with
            log := (s.log i).splice q.prevIndex q.entries
            commitLength := max (s.commit i) (min q.commit (q.prevIndex + q.entries.length)) }
          .passive).say i leader
            (.appendReply ⟨s.term i, true, q.prevIndex + q.entries.length, q.round⟩))
  /-- It sends a message that reports what it is. -/
  | tell {receiver : NodeId} {message : Message} (truthful : s.MaySay i message) :
      Move M i s (s.say i receiver message)

/-- A sequence of moves of node `i`. -/
abbrev Moves (M : Roster) (i : NodeId) : Chronicle → Chronicle → Prop :=
  Relation.ReflTransGen (Move M i)

end Chronicle

end Quorum
