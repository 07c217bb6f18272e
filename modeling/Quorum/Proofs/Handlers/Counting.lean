import Quorum.Proofs.Handlers.Barriers
import Quorum.Proofs.Handlers.Rounds
import Quorum.Proofs.Handlers.Tallies

/-!
# Counting votes

What a candidate does with a reply, as equations: a reply that counts is tallied
(`voteReply_counts`), and the tally is won, lost or left open by what it has
counted then. With them go the deadlines that a winner sets, which have to lie
within the clock (`becomeLeader_returns_iff`), and the record it starts with
(`won_record`).
-/

namespace Quorum

namespace Candidate

variable {c : Candidate} {voter x : NodeId} {granted : Bool} {prior : Duration}

theorem mem_answered_record :
    x ∈ (c.record voter granted prior).answered ↔ x ∈ c.answered ∨ x = voter := by
  unfold record
  cases granted <;> simp [or_comm]

theorem nodup_votes_record (h : c.votes.Nodup) :
    (c.record voter granted prior).votes.Nodup := by
  unfold record
  cases granted with
  | true => exact h.insert
  | false => exact h

theorem nodup_answered_record (h : c.answered.Nodup) :
    (c.record voter granted prior).answered.Nodup := by
  unfold record
  cases granted <;> exact h.insert

/-- Counting a vote does not move the deadline. -/
theorem record_deadline (c : Candidate) (voter : NodeId) (granted : Bool) (prior : Duration) :
    (c.record voter granted prior).deadline = c.deadline := by
  unfold record
  cases granted <;> rfl

theorem record_priorLease_le {bound : Duration} (h : c.priorLease ≤ bound)
    (hprior : prior ≤ bound) : (c.record voter granted prior).priorLease ≤ bound := by
  unfold record
  cases granted with
  | true => exact Nat.max_le.mpr ⟨h, hprior⟩
  | false => exact h

end Candidate

/-- Where only one server holds anything, several servers hold nothing. -/
theorem quorumLength_zeros {own : LogIndex} {acked : List LogIndex} {quorum : Nat}
    (zeros : ∀ a ∈ acked, a = 0) (several : 1 < quorum) :
    quorumLength (own :: acked) quorum = 0 := by
  by_contra hpos
  have hreached := quorum_le_countP (Nat.pos_of_ne_zero hpos)
  have hnone : acked.countP (quorumLength (own :: acked) quorum ≤ ·) = 0 := by
    rw [List.countP_eq_zero]
    intro a ha hle
    rw [zeros a ha, decide_eq_true_eq] at hle
    exact hpos (Nat.le_zero.mp hle)
  rw [List.countP_cons, hnone] at hreached
  split at hreached <;> omega

theorem Log.commitPoint_zero (log : Log) (term : Term) (committed : LogIndex) :
    log.commitPoint term committed 0 = committed := by
  unfold commitPoint
  split
  · rfl
  · rw [Nat.zero_min]
    rfl

namespace Node

variable {now : Instant} {draw : Nat} {n n' : Node} {c : Candidate} {sender : NodeId}
  {r : VoteReply} {commands : List Command} {prior : Duration}

/-! ## Replies -/

theorem adoptTerm_eq {term : Term} (older : term ≤ n.record.currentTerm) :
    n.adoptTerm term now draw = .ok (n, []) :=
  if_neg (Nat.not_lt.mpr older)

/-- A reply in the term of an open tally is counted. -/
theorem voteReply_counts (role : n.role = .candidate c) (tallying : c.tallying = true)
    (current : r.term = n.record.currentTerm) :
    n.handle (.message sender (.voteReply r)) now draw =
      n.tally (c.record sender r.granted r.priorLease) now draw := by
  show n.handleVoteReply sender r now draw = _
  unfold handleVoteReply
  rw [adoptTerm_eq (Nat.le_of_eq current)]
  show (if r.term ≠ n.record.currentTerm then _ else _) = _
  rw [if_neg (not_not.mpr current), role]
  simp only [tallying, if_true]
  cases n.tally (c.record sender r.granted r.priorLease) now draw <;> rfl

/-- Where nothing is counted a reply changes nothing. -/
theorem voteReply_ignored (current : r.term = n.record.currentTerm)
    (closed : ∀ c, n.role = .candidate c → c.tallying = false) :
    n.handle (.message sender (.voteReply r)) now draw = .ok (n, []) := by
  show n.handleVoteReply sender r now draw = _
  unfold handleVoteReply
  rw [adoptTerm_eq (Nat.le_of_eq current)]
  show (if r.term ≠ n.record.currentTerm then _ else _) = _
  rw [if_neg (not_not.mpr current)]
  cases role : n.role with
  | candidate c =>
      simp only [closed c role, Bool.false_eq_true, if_false]
      rfl
  | follower f => rfl
  | leader l => rfl

/-! ## The tally -/

theorem tally_wins (majority : c.hasMajority n.clusterSize = true) :
    n.tally c now draw =
      ({ n with role := .candidate c } : Node).becomeLeader c.priorLease now :=
  if_pos majority

theorem tally_loses (short : c.hasMajority n.clusterSize = false)
    (full : c.allAnswered n.peers.length = true) :
    n.tally c now draw = (n.loseElection c now draw).map fun n' => (n', []) := by
  have htally : n.tally c now draw = (do return (← n.loseElection c now draw, [])) :=
    (if_neg (Bool.eq_false_iff.mp short)).trans (if_pos full)
  rw [htally]
  cases n.loseElection c now draw <;> rfl

theorem tally_waits (short : c.hasMajority n.clusterSize = false)
    (missing : c.allAnswered n.peers.length = false) :
    n.tally c now draw = .ok ({ n with role := .candidate c }, []) :=
  (if_neg (Bool.eq_false_iff.mp short)).trans (if_neg (Bool.eq_false_iff.mp missing))

/-- A tally is won by a majority, lost when everybody has answered, and left open
otherwise. -/
theorem tally_outcome (h : n.tally c now draw = .ok (n', commands)) :
    (c.hasMajority n.clusterSize = true ∧ n'.isLeader = true ∧ ∃ lease,
      n' = (n.crowned lease now).advanceCommit
        (.start n.peers n.lastIndex (now + n.config.heartbeat) lease)) ∨
    (c.hasMajority n.clusterSize = false ∧ c.allAnswered n.peers.length = true ∧
      n' = { n with role := .candidate (c.conclude (now + n.config.electionTimeout draw)) }) ∨
    (c.hasMajority n.clusterSize = false ∧ c.allAnswered n.peers.length = false ∧
      n' = { n with role := .candidate c }) := by
  cases majority : c.hasMajority n.clusterSize with
  | true =>
      rw [tally_wins majority] at h
      obtain ⟨_, lease, _, _, rfl, _⟩ := becomeLeader_eq h
      refine .inl ⟨rfl, isLeader_iff.mpr ⟨_, (advanceCommit_same _ _).1⟩, lease, rfl⟩
  | false =>
      cases full : c.allAnswered n.peers.length with
      | true =>
          rw [tally_loses majority full] at h
          cases hlost : n.loseElection c now draw with
          | error e =>
              rw [hlost] at h
              exact nomatch h
          | ok lost =>
              rw [hlost] at h
              obtain ⟨rfl, rfl⟩ := Prod.mk.inj (Except.ok.inj h)
              exact .inr (.inl ⟨rfl, rfl, loseElection_eq hlost⟩)
      | false =>
          rw [tally_waits majority full] at h
          obtain ⟨rfl, rfl⟩ := Prod.mk.inj (Except.ok.inj h)
          exact .inr (.inr ⟨rfl, rfl, rfl⟩)

/-! ## Winning -/

/-- A winner starts if its first window ends within the clock. -/
theorem becomeLeader_returns_iff (reach : now + n.config.longest < Instant.limit) :
    (∃ result, n.becomeLeader prior now = .ok result) ↔
      now + prior + n.config.lease < Instant.limit := by
  constructor
  · rintro ⟨result, h⟩
    obtain ⟨lease, hgranted, _⟩ := exists_of_bind_ok h
    obtain ⟨barrier, hbarrier, hgranted⟩ := exists_of_bind_ok hgranted
    obtain ⟨expiresAt, hexpires, _⟩ := exists_of_bind_ok hgranted
    obtain ⟨rfl, _⟩ := Instant.after_ok hbarrier
    obtain ⟨rfl, hlimit⟩ := Instant.after_ok hexpires
    exact hlimit
  · intro hlimit
    have hbarrier : now + prior < Instant.limit := Nat.lt_of_le_of_lt (Nat.le_add_right _ _) hlimit
    have hheartbeat : now + n.config.heartbeat < Instant.limit :=
      Nat.lt_of_le_of_lt (Nat.add_le_add_left n.config.heartbeat_le_longest _) reach
    obtain ⟨lease, hgranted⟩ : ∃ lease, LeaderLease.grant now n.config.lease prior = .ok lease := by
      unfold LeaderLease.grant
      rw [Instant.after_of_lt hbarrier]
      show ∃ lease, (Instant.after (now + prior) n.config.lease >>= _) = .ok lease
      rw [Instant.after_of_lt hlimit]
      exact ⟨_, rfl⟩
    -- the round that follows starts now, and the lease lasts no longer than configured
    obtain ⟨result, hsent⟩ := sendHeartbeats_returns (n := n.append (.noOp n.record.currentTerm))
      (l := .start n.peers n.lastIndex (now + n.config.heartbeat) lease) reach
      (.inl ((LeaderLease.grant_ok hgranted).2.1 ▸ lease_lt_limit reach))
    refine ⟨result, ?_⟩
    unfold becomeLeader
    rw [hgranted]
    show (Instant.after now n.config.heartbeat >>= _) = .ok result
    rw [Instant.after_of_lt hheartbeat]
    exact hsent

/-- Only a tally that is won can fail. -/
theorem tally_returns_iff (reach : now + n.config.longest < Instant.limit) :
    (∃ result, n.tally c now draw = .ok result) ↔
      (c.hasMajority n.clusterSize = true →
        now + c.priorLease + n.config.lease < Instant.limit) := by
  cases majority : c.hasMajority n.clusterSize with
  | true =>
      rw [tally_wins majority]
      exact (becomeLeader_returns_iff reach).trans ⟨fun hlimit _ => hlimit, fun h => h rfl⟩
  | false =>
      refine iff_of_true ?_ Bool.noConfusion
      cases full : c.allAnswered n.peers.length with
      | true =>
          obtain ⟨lost, hlost⟩ : ∃ lost, n.loseElection c now draw = .ok lost :=
            loseElection_returns reach
          rw [tally_loses majority full, hlost]
          exact ⟨_, rfl⟩
      | false => exact ⟨_, tally_waits majority full⟩

/-- Nobody but the winner itself holds its opening entry, so a winner with peers
has committed nothing yet. -/
theorem won_record {lease : LeaderLease} {heartbeatAt : Instant} (peers : n.peers ≠ []) :
    ((n.crowned lease now).advanceCommit (.start n.peers n.lastIndex heartbeatAt lease)).record =
      { n.record with log := n.record.log ++ [.noOp n.record.currentTerm] } := by
  have hquorum : 1 < (n.crowned lease now).quorum := one_lt_quorum peers
  have hzeros : ∀ acked ∈ (Leader.start n.peers n.lastIndex heartbeatAt lease).ackedLengths,
      acked = 0 := by
    intro acked h
    simp only [Leader.ackedLengths, Leader.start, List.mem_map] at h
    obtain ⟨row, ⟨peer, _, rfl⟩, rfl⟩ := h
    rfl
  unfold advanceCommit
  simp only [Leader.replicatedOn, quorumLength_zeros hzeros hquorum, Log.commitPoint_zero]
  rw [commitTo, if_neg (Nat.lt_irrefl _)]
  rfl

/-! ## Standing for election -/

theorem electionTimeout_stands (free : n.Idle) :
    n.handle .electionTimeout now draw = n.startElection now draw := by
  show n.electionTimeout now draw = n.startElection now draw
  unfold electionTimeout
  cases role : n.role with
  | follower f => rfl
  | candidate c => simp only [free.2 c role, Bool.false_eq_true, if_false]
  | leader l => exact (free.not_leader role).elim

/-- Among several servers the candidate's own vote decides nothing. -/
theorem stand_open (free : n.Idle) (peers : n.peers ≠ [])
    (h : n.handle .electionTimeout now draw = .ok (n', commands)) : n' = n.candidacy now := by
  have hlength : 0 < n.peers.length := List.length_pos_iff.mpr peers
  rw [electionTimeout_stands free] at h
  obtain ⟨deadline, hafter, h⟩ := exists_of_bind_ok h
  obtain ⟨rfl, -⟩ := Instant.after_ok hafter
  obtain ⟨⟨elected, more⟩, htally, h⟩ := exists_of_bind_ok h
  obtain ⟨rfl, rfl⟩ := h
  have hwaits := htally.symm.trans (tally_waits ?short ?missing)
  case short =>
    show decide ((n.peers.length + 1) / 2 + 1 ≤ 1) = false
    exact decide_eq_false (by omega)
  case missing =>
    show decide (n.peers.length ≤ 0) = false
    exact decide_eq_false (by omega)
  exact congrArg Prod.fst (Except.ok.inj hwaits)

/-- Alone it decides everything. -/
theorem stand_alone (free : n.Idle) (alone : n.peers = [])
    (h : n.handle .electionTimeout now draw = .ok (n', commands)) : n'.isLeader = true := by
  rw [electionTimeout_stands free] at h
  obtain ⟨deadline, _, h⟩ := exists_of_bind_ok h
  obtain ⟨⟨elected, more⟩, htally, h⟩ := exists_of_bind_ok h
  obtain ⟨rfl, rfl⟩ := h
  rw [tally_wins ?majority] at htally
  case majority =>
    show decide ((n.peers.length + 1) / 2 + 1 ≤ 1) = true
    rw [alone]
    rfl
  obtain ⟨_, lease, _, _, rfl, _⟩ := becomeLeader_eq htally
  exact isLeader_iff.mpr ⟨_, (advanceCommit_same _ _).1⟩

end Node

end Quorum
