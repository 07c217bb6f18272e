import Quorum.Proofs.Handlers.Hearing

/-!
# What a timer that fires makes a node do

As a `Response` is for messages, an `Expiry` is for timers: one constructor for
each way through the handlers (`timer_expires`).
-/

namespace Quorum.Node

variable {now : Instant} {draw : Nat} {n n' : Node} {commands : List Command}

/-- What a node asks its peers when it stands for election. -/
def canvass (n : Node) (now : Instant) : List Command :=
  n.peers.map fun peer => .send peer (.voteRequest (n.candidacy now).voteRequest)

/-- What a node does when a timer of it fires. -/
inductive Expiry (now : Instant) (draw : Nat) (n : Node) : Timer → Node → List Command → Prop
  /-- The timer means nothing to the node. -/
  | idle (timer : Timer) : Expiry now draw n timer n []
  | stand (free : n.Idle) :
      Expiry now draw n .election (n.candidacy now) (n.canvass now)
  /-- It stands for election and has lost at once. -/
  | fail (free : n.Idle) :
      Expiry now draw n .election
        { n.candidacy now with
          role := .candidate ((Candidate.stand n.id (now + n.config.rpc)
            (n.priorLease.remaining now)).conclude (now + n.config.electionTimeout draw)) }
        (n.canvass now)
  /-- Its own vote is enough. -/
  | win {lease₀ lease : LeaderLease} (free : n.Idle)
      (granted : LeaderLease.grant now n.config.lease (n.priorLease.remaining now) = .ok lease₀)
      (begun : lease₀.beginRound now n.quorum = .ok lease) :
      Expiry now draw n .election
        (((n.candidacy now).crowned lease now).advanceCommit
          (.start n.peers n.lastIndex (now + n.config.heartbeat) lease))
        (n.canvass now ++ ((n.candidacy now).crowned lease now).roundRequests
          (.start n.peers n.lastIndex (now + n.config.heartbeat) lease))
  | lose {c : Candidate} (role : n.role = .candidate c) (tallying : c.tallying = true)
      (passed : c.deadline ≤ now) :
      Expiry now draw n .voteRound
        { n with role := .candidate (c.conclude (now + n.config.electionTimeout draw)) } []
  | round {l : Leader} {lease : LeaderLease} (role : n.role = .leader l)
      (begun : l.lease.beginRound now n.quorum = .ok lease) :
      Expiry now draw n .heartbeat
        ((n.inRound l lease now).advanceCommit
          { l with heartbeatAt := now + n.config.heartbeat, lease })
        ((n.inRound l lease now).roundRequests
          { l with heartbeatAt := now + n.config.heartbeat, lease })
  | resign {l : Leader} (role : n.role = .leader l) (expired : l.lease.isExpired now = true) :
      Expiry now draw n .leaseExpiry (n.asFollower none now draw) (n.farewell none)

theorem startElection_expires (free : n.Idle)
    (h : n.startElection now draw = .ok (n', commands)) :
    Expiry now draw n .election n' commands := by
  obtain ⟨deadline, hafter, h⟩ := exists_of_bind_ok h
  obtain ⟨rfl, -⟩ := Instant.after_ok hafter
  obtain ⟨⟨elected, more⟩, htally, h⟩ := exists_of_bind_ok h
  obtain ⟨rfl, rfl⟩ := h
  obtain ⟨lease₀, lease, _, granted, begun, rfl, rfl⟩ | ⟨rfl, rfl⟩ | ⟨rfl, rfl⟩ :=
    tally_cases htally
  · exact .win free granted begun
  · rw [List.append_nil]
    exact .fail free
  · rw [List.append_nil]
    exact .stand free

theorem timer_expires (timer : Timer) (h : n.handle timer.event now draw = .ok (n', commands)) :
    Expiry now draw n timer n' commands := by
  cases timer with
  | election =>
      have h : n.electionTimeout now draw = .ok (n', commands) := h
      unfold electionTimeout at h
      split at h
      · obtain ⟨rfl, rfl⟩ := h
        exact .idle _
      · next c role =>
          split at h
          · obtain ⟨rfl, rfl⟩ := h
            exact .idle _
          · next tallying =>
              exact startElection_expires
                (.of_candidate role (Bool.eq_false_iff.mpr tallying)) h
      · next f role => exact startElection_expires (.of_follower role) h
  | voteRound =>
      have h : n.voteRoundTimeout now draw = .ok (n', commands) := h
      unfold voteRoundTimeout at h
      split at h
      · next c role =>
          split at h
          · next hdue =>
              obtain ⟨tallying, passed⟩ := Bool.and_eq_true_iff.mp hdue
              obtain ⟨lost, hlost, h⟩ := exists_of_bind_ok h
              obtain ⟨rfl, rfl⟩ := h
              obtain rfl := loseElection_eq hlost
              exact .lose role tallying (of_decide_eq_true passed)
          · obtain ⟨rfl, rfl⟩ := h
            exact .idle _
      · obtain ⟨rfl, rfl⟩ := h
        exact .idle _
  | heartbeat =>
      have h : n.heartbeatTimeout now = .ok (n', commands) := h
      unfold heartbeatTimeout at h
      split at h
      · next l role =>
          obtain ⟨lease, begun, rfl, rfl⟩ := sendHeartbeats_eq h
          exact .round role begun
      · obtain ⟨rfl, rfl⟩ := h
        exact .idle _
  | leaseExpiry =>
      have h : n.leaseTimeout now draw = .ok (n', commands) := h
      unfold leaseTimeout at h
      split at h
      · next l role =>
          split at h
          · next expired =>
              obtain ⟨rfl, rfl⟩ := stepDown_eq h
              exact .resign role expired
          · obtain ⟨rfl, rfl⟩ := h
            exact .idle _
      · obtain ⟨rfl, rfl⟩ := h
        exact .idle _

end Quorum.Node
