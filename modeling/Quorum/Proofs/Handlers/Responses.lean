import Quorum.Proofs.Handlers.Frame

/-!
# What a message makes a node do

A message of a newer term first makes the node adopt that term. What is left
is a message of no newer term, and a `Response` is what a node does with it:
one constructor for each way through the handlers (`handleMessage_responds`).
-/

namespace Quorum

theorem Instant.after_ok {start stop : Instant} {d : Duration} (h : after start d = .ok stop) :
    stop = start + d ∧ stop < limit := by
  unfold after at h
  split at h
  · next hlt =>
      obtain rfl := Except.ok.inj h
      exact ⟨rfl, hlt⟩
  · exact nomatch h

namespace Node

/-! ## What a node becomes -/

/-- The node as a follower. A leader that becomes one keeps its own lease in
mind, and only who was none arms a new timer. -/
def asFollower (n : Node) (leader? : Option NodeId) (now : Instant) (draw : Nat) : Node :=
  match n.role with
  | .follower f => { n with role := .follower { f with leader? } }
  | .candidate _ => { n with role := .follower ⟨leader?, now + n.config.electionTimeout draw⟩ }
  | .leader l =>
    { n with
      role := .follower ⟨leader?, now + n.config.electionTimeout draw⟩
      priorLease := n.priorLease.extendUntil l.lease.expiresAt }

/-- What a node says when it gives up its role. -/
def farewell (n : Node) (leader? : Option NodeId) : List Command :=
  match n.role with
  | .leader _ => [.leadershipLost leader?]
  | _ => []

/-- The node in a newer term. -/
def inTerm (n : Node) (term : Term) (now : Instant) (draw : Nat) : Node :=
  (n.withRecord { n.record with currentTerm := term, votedFor := none }).asFollower none now draw

/-- The node as a follower of the leader that has sent a request. -/
def following (n : Node) (q : AppendRequest) (now : Instant) (draw : Nat) : Node :=
  { n.asFollower (some q.leader) now draw with
    role := .follower ⟨some q.leader, now + n.config.electionTimeout draw⟩
    priorLease := (n.asFollower (some q.leader) now draw).priorLease.extendUntil (now + q.lease) }

/-- The node as a candidate of the next term. -/
def candidacy (n : Node) (now : Instant) : Node :=
  { n.withRecord
      { n.record with currentTerm := n.record.currentTerm.next, votedFor := some n.id } with
    role := .candidate (.stand n.id (now + n.config.rpc) (n.priorLease.remaining now)) }

/-- The node as the winner of its term, before its first round. -/
def crowned (n : Node) (lease : LeaderLease) (now : Instant) : Node :=
  { n.append (.noOp n.record.currentTerm) with
    role := .leader (.start n.peers n.lastIndex (now + n.config.heartbeat) lease) }

/-- The node in a new heartbeat round. -/
def inRound (n : Node) (l : Leader) (lease : LeaderLease) (now : Instant) : Node :=
  { n with role := .leader { l with heartbeatAt := now + n.config.heartbeat, lease } }

/-- What a leader sends in its latest round. -/
def roundRequests (n : Node) (l : Leader) : List Command :=
  n.peers.filterMap fun peer =>
    (n.appendRequestFor? l peer).map fun request => .send peer (.appendRequest request)

/-- The node with the entries of a request, and what is committed by it. -/
def accepting (n : Node) (q : AppendRequest) : Node :=
  (n.takeEntriesBehind q.prevIndex q.entries).commitTo
    (min q.commit (q.prevIndex + q.entries.length))

variable {now : Instant} {draw : Nat} {n n' : Node} {l : Leader} {c : Candidate}
  {leader? : Option NodeId} {sender : NodeId} {message : Message} {commands : List Command}

/-! ## The transitions that handlers share -/

theorem stepDown_eq (h : n.stepDown leader? now draw = .ok (n', commands)) :
    n' = n.asFollower leader? now draw ∧ commands = n.farewell leader? := by
  unfold stepDown at h
  split at h
  · next f role =>
      obtain ⟨rfl, rfl⟩ := h
      simp only [asFollower, farewell, role, and_self]
  · next c role =>
      obtain ⟨electionAt, hafter, h⟩ := exists_of_bind_ok h
      obtain ⟨rfl, -⟩ := Instant.after_ok hafter
      obtain ⟨rfl, rfl⟩ := h
      simp only [asFollower, farewell, role, and_self]
  · next l role =>
      obtain ⟨electionAt, hafter, h⟩ := exists_of_bind_ok h
      obtain ⟨rfl, -⟩ := Instant.after_ok hafter
      obtain ⟨rfl, rfl⟩ := h
      simp only [asFollower, farewell, role, and_self]

theorem adoptTerm_cases {term : Term} (h : n.adoptTerm term now draw = .ok (n', commands)) :
    (n.record.currentTerm < term ∧ n' = n.inTerm term now draw ∧ commands = n.farewell none) ∨
      (term ≤ n.record.currentTerm ∧ n' = n ∧ commands = []) := by
  unfold adoptTerm at h
  split at h
  · next newer =>
      obtain ⟨rfl, rfl⟩ := stepDown_eq h
      exact .inl ⟨newer, rfl, rfl⟩
  · next newer =>
      obtain ⟨rfl, rfl⟩ := h
      exact .inr ⟨Nat.le_of_not_lt newer, rfl, rfl⟩

theorem asFollower_term (n : Node) (leader? : Option NodeId) (now : Instant) (draw : Nat) :
    (n.asFollower leader? now draw).record.currentTerm = n.record.currentTerm := by
  unfold asFollower
  split <;> rfl

theorem inTerm_term (n : Node) (term : Term) (now : Instant) (draw : Nat) :
    (n.inTerm term now draw).record.currentTerm = term :=
  asFollower_term _ none now draw

theorem le_adopted_term {term : Term} (h : n.adoptTerm term now draw = .ok (n', commands)) :
    term ≤ n'.record.currentTerm := by
  obtain ⟨_, rfl, _⟩ | ⟨older, rfl, _⟩ := adoptTerm_cases h
  · exact Nat.le_of_eq (inTerm_term n term now draw).symm
  · exact older

theorem sendHeartbeats_eq (h : n.sendHeartbeats l now = .ok (n', commands)) :
    ∃ lease, l.lease.beginRound now n.quorum = .ok lease ∧
      n' = (n.inRound l lease now).advanceCommit
        { l with heartbeatAt := now + n.config.heartbeat, lease } ∧
      commands = (n.inRound l lease now).roundRequests
        { l with heartbeatAt := now + n.config.heartbeat, lease } := by
  obtain ⟨heartbeatAt, hafter, h⟩ := exists_of_bind_ok h
  obtain ⟨lease, hbegun, h⟩ := exists_of_bind_ok h
  obtain ⟨rfl, -⟩ := Instant.after_ok hafter
  obtain ⟨rfl, rfl⟩ := h
  exact ⟨lease, hbegun, rfl, rfl⟩

/-- A candidate that wins takes office and starts its first round. -/
theorem becomeLeader_eq {prior : Duration} (h : n.becomeLeader prior now = .ok (n', commands)) :
    ∃ lease₀ lease, LeaderLease.grant now n.config.lease prior = .ok lease₀ ∧
      lease₀.beginRound now n.quorum = .ok lease ∧
      n' = (n.crowned lease now).advanceCommit
        (.start n.peers n.lastIndex (now + n.config.heartbeat) lease) ∧
      commands = (n.crowned lease now).roundRequests
        (.start n.peers n.lastIndex (now + n.config.heartbeat) lease) := by
  obtain ⟨lease₀, hgranted, h⟩ := exists_of_bind_ok h
  obtain ⟨heartbeatAt, hafter, h⟩ := exists_of_bind_ok h
  obtain ⟨rfl, -⟩ := Instant.after_ok hafter
  obtain ⟨lease, hbegun, rfl, rfl⟩ := sendHeartbeats_eq h
  exact ⟨lease₀, lease, hgranted, hbegun, rfl, rfl⟩

theorem loseElection_eq (h : n.loseElection c now draw = .ok n') :
    n' = { n with role := .candidate (c.conclude (now + n.config.electionTimeout draw)) } := by
  obtain ⟨electionAt, hafter, h⟩ := exists_of_bind_ok h
  obtain ⟨rfl, -⟩ := Instant.after_ok hafter
  exact (Except.ok.inj h).symm

/-- A tally is won, lost or left open. -/
theorem tally_cases (h : n.tally c now draw = .ok (n', commands)) :
    (∃ lease₀ lease, c.hasMajority n.clusterSize = true ∧
      LeaderLease.grant now n.config.lease c.priorLease = .ok lease₀ ∧
      lease₀.beginRound now n.quorum = .ok lease ∧
      n' = (n.crowned lease now).advanceCommit
        (.start n.peers n.lastIndex (now + n.config.heartbeat) lease) ∧
      commands = (n.crowned lease now).roundRequests
        (.start n.peers n.lastIndex (now + n.config.heartbeat) lease)) ∨
    (n' = { n with role := .candidate (c.conclude (now + n.config.electionTimeout draw)) } ∧
      commands = []) ∨
    (n' = { n with role := .candidate c } ∧ commands = []) := by
  unfold tally at h
  simp only [] at h
  split at h
  · next majority =>
      obtain ⟨lease₀, lease, granted, begun, rfl, rfl⟩ := becomeLeader_eq h
      exact .inl ⟨lease₀, lease, majority, granted, begun, rfl, rfl⟩
  · split at h
    · obtain ⟨lost, hlost, h⟩ := exists_of_bind_ok h
      obtain ⟨rfl, rfl⟩ := h
      obtain rfl := loseElection_eq hlost
      exact .inr (.inl ⟨rfl, rfl⟩)
    · obtain ⟨rfl, rfl⟩ := h
      exact .inr (.inr ⟨rfl, rfl⟩)

theorem follow_eq {q : AppendRequest} (h : n.follow q now draw = .ok (n', commands)) :
    n' = n.following q now draw ∧ commands = n.farewell (some q.leader) := by
  obtain ⟨⟨m, lost⟩, hdown, h⟩ := exists_of_bind_ok h
  obtain ⟨electionAt, hafter, h⟩ := exists_of_bind_ok h
  obtain ⟨priorLease, hobserve, h⟩ := exists_of_bind_ok h
  obtain ⟨endsAt, hlease, hobserve⟩ := exists_of_bind_ok hobserve
  obtain ⟨rfl, -⟩ := Instant.after_ok hafter
  obtain ⟨rfl, -⟩ := Instant.after_ok hlease
  obtain rfl := Except.ok.inj hobserve
  obtain ⟨rfl, rfl⟩ := stepDown_eq hdown
  obtain ⟨rfl, rfl⟩ := h
  refine ⟨?_, rfl⟩
  -- the timeout is drawn from the configuration, which no role change touches
  have hconfig : (n.asFollower (some q.leader) now draw).config = n.config := by
    unfold asFollower
    split <;> rfl
  rw [following, hconfig]

/-! ## Responses -/

/-- What a node does with a message whose term it has reached. -/
inductive Response (now : Instant) (draw : Nat) (n : Node) (sender : NodeId) :
    Message → Node → List Command → Prop
  | grant {q : VoteRequest} (grants : n.grants q = true) :
      Response now draw n sender (.voteRequest q) (n.voteFor q.candidate)
        [.send sender (.voteReply ⟨n.record.currentTerm, true, n.priorLease.remaining now⟩)]
  | deny {q : VoteRequest} (grants : n.grants q = false) :
      Response now draw n sender (.voteRequest q) n
        [.send sender (.voteReply ⟨n.record.currentTerm, false, n.priorLease.remaining now⟩)]
  /-- Nobody counts votes in the term of the reply. -/
  | discard {r : VoteReply}
      (idle : r.term = n.record.currentTerm → ∀ c, n.role = .candidate c → c.tallying = false) :
      Response now draw n sender (.voteReply r) n []
  /-- The tally stays open. -/
  | count {c : Candidate} {r : VoteReply} (role : n.role = .candidate c)
      (tallying : c.tallying = true) (current : r.term = n.record.currentTerm) :
      Response now draw n sender (.voteReply r)
        { n with role := .candidate (c.record sender r.granted r.priorLease) } []
  | lose {c : Candidate} {r : VoteReply} (role : n.role = .candidate c)
      (tallying : c.tallying = true) (current : r.term = n.record.currentTerm) :
      Response now draw n sender (.voteReply r)
        { n with
          role := .candidate ((c.record sender r.granted r.priorLease).conclude
            (now + n.config.electionTimeout draw)) } []
  | win {c : Candidate} {r : VoteReply} {lease₀ lease : LeaderLease}
      (role : n.role = .candidate c) (tallying : c.tallying = true)
      (current : r.term = n.record.currentTerm)
      (majority : (c.record sender r.granted r.priorLease).hasMajority n.clusterSize = true)
      (granted : LeaderLease.grant now n.config.lease
        (c.record sender r.granted r.priorLease).priorLease = .ok lease₀)
      (begun : lease₀.beginRound now n.quorum = .ok lease) :
      Response now draw n sender (.voteReply r)
        ((n.crowned lease now).advanceCommit
          (.start n.peers n.lastIndex (now + n.config.heartbeat) lease))
        ((n.crowned lease now).roundRequests
          (.start n.peers n.lastIndex (now + n.config.heartbeat) lease))
  /-- The request is of a leader of the past. -/
  | reject {q : AppendRequest} (stale : q.term < n.record.currentTerm) :
      Response now draw n sender (.appendRequest q) n
        [.send sender (.appendReply ⟨n.record.currentTerm, false, 0, q.round⟩)]
  /-- The request is of the leader of the term, but does not fit. -/
  | refuse {q : AppendRequest} (current : q.term = n.record.currentTerm)
      (accepts : (n.following q now draw).accepts q = false) :
      Response now draw n sender (.appendRequest q) (n.following q now draw)
        (n.farewell (some q.leader) ++
          [.send sender (.appendReply ⟨n.record.currentTerm, false, 0, q.round⟩)])
  | accept {q : AppendRequest} (current : q.term = n.record.currentTerm)
      (accepts : (n.following q now draw).accepts q = true) :
      Response now draw n sender (.appendRequest q) ((n.following q now draw).accepting q)
        (n.farewell (some q.leader) ++
          [.send sender (.appendReply
            ⟨n.record.currentTerm, true, q.prevIndex + q.entries.length, q.round⟩)])
  /-- Nobody leads in the term of the reply. -/
  | ignore {r : AppendReply}
      (idle : r.term = n.record.currentTerm → n.isLeader = false) :
      Response now draw n sender (.appendReply r) n []
  | note {l : Leader} {r : AppendReply} {lease : LeaderLease} {renewed : Bool}
      (role : n.role = .leader l) (current : r.term = n.record.currentTerm)
      (success : r.success = true)
      (recorded : l.lease.recordAck sender r.round n.quorum = .ok (lease, renewed)) :
      Response now draw n sender (.appendReply r)
        ({ n with role := .leader { l.recordSuccess sender r.acked with lease } }.advanceCommit
          { l.recordSuccess sender r.acked with lease }) []
  | lower {l : Leader} {r : AppendReply} (role : n.role = .leader l)
      (current : r.term = n.record.currentTerm) (failure : r.success = false) :
      Response now draw n sender (.appendReply r)
        { n with role := .leader (l.recordFailure sender) } []

theorem following_term (n : Node) (q : AppendRequest) (now : Instant) (draw : Nat) :
    (n.following q now draw).record.currentTerm = n.record.currentTerm :=
  asFollower_term n _ now draw

theorem handleVoteRequest_responds {q : VoteRequest}
    (h : n.handleVoteRequest sender q now draw = .ok (n', commands)) :
    ∃ n₁ lost said, n.adoptTerm q.term now draw = .ok (n₁, lost) ∧
      Response now draw n₁ sender (.voteRequest q) n' said ∧ commands = lost ++ said := by
  obtain ⟨⟨n₁, lost⟩, hadopt, h⟩ := exists_of_bind_ok h
  obtain ⟨rfl, rfl⟩ := h
  refine ⟨n₁, lost, _, hadopt, ?_, rfl⟩
  cases hgrants : n₁.grants q with
  | true => exact .grant hgrants
  | false => exact .deny hgrants

/-- A reply that is counted may decide the election. -/
theorem tally_responds {r : VoteReply} (role : n.role = .candidate c)
    (tallying : c.tallying = true) (current : r.term = n.record.currentTerm)
    (h : n.tally (c.record sender r.granted r.priorLease) now draw = .ok (n', commands)) :
    Response now draw n sender (.voteReply r) n' commands := by
  obtain ⟨lease₀, lease, majority, granted, begun, rfl, rfl⟩ | ⟨rfl, rfl⟩ | ⟨rfl, rfl⟩ :=
    tally_cases h
  · exact .win role tallying current majority granted begun
  · exact .lose role tallying current
  · exact .count role tallying current

theorem handleVoteReply_responds {r : VoteReply}
    (h : n.handleVoteReply sender r now draw = .ok (n', commands)) :
    ∃ n₁ lost said, n.adoptTerm r.term now draw = .ok (n₁, lost) ∧
      Response now draw n₁ sender (.voteReply r) n' said ∧ commands = lost ++ said := by
  obtain ⟨⟨n₁, lost⟩, hadopt, h⟩ := exists_of_bind_ok h
  simp only [] at h
  split at h
  · next hother =>
      obtain ⟨rfl, rfl⟩ := h
      exact ⟨n', commands, [], hadopt, .discard fun hsame => absurd hsame hother,
        (List.append_nil _).symm⟩
  · next hsame =>
      split at h
      · next c role =>
          split at h
          · next tallying =>
              obtain ⟨⟨m, more⟩, htally, h⟩ := exists_of_bind_ok h
              obtain ⟨rfl, rfl⟩ := h
              exact ⟨n₁, lost, more, hadopt,
                tally_responds role tallying (Decidable.not_not.mp hsame) htally, rfl⟩
          · next tallying =>
              obtain ⟨rfl, rfl⟩ := h
              refine ⟨n', commands, [], hadopt, .discard fun _ d hd => ?_, (List.append_nil _).symm⟩
              obtain rfl := Role.candidate.inj (role.symm.trans hd)
              exact Bool.eq_false_iff.mpr tallying
      · next hno =>
          obtain ⟨rfl, rfl⟩ := h
          exact ⟨n', commands, [], hadopt, .discard fun _ c hc => absurd hc (hno c),
            (List.append_nil _).symm⟩

theorem handleAppendRequest_responds {q : AppendRequest}
    (h : n.handleAppendRequest sender q now draw = .ok (n', commands)) :
    ∃ n₁ lost said, n.adoptTerm q.term now draw = .ok (n₁, lost) ∧
      Response now draw n₁ sender (.appendRequest q) n' said ∧ commands = lost ++ said := by
  obtain ⟨⟨n₁, lost⟩, hadopt, h⟩ := exists_of_bind_ok h
  simp only [] at h
  split at h
  · next hterm =>
      obtain ⟨⟨m, ousted⟩, hfollow, h⟩ := exists_of_bind_ok h
      obtain ⟨rfl, rfl⟩ := h
      obtain ⟨rfl, rfl⟩ := follow_eq hfollow
      refine ⟨n₁, lost, _, hadopt, ?_, List.append_assoc _ _ _⟩
      rw [following_term]
      cases haccepts : (n₁.following q now draw).accepts q with
      | true => exact .accept hterm haccepts
      | false => exact .refuse hterm haccepts
  · next hterm =>
      obtain ⟨rfl, rfl⟩ := h
      have hno : n₁.accepts q = false := by
        rw [accepts, beq_eq_false_iff_ne.mpr hterm, Bool.false_and]
      refine ⟨n₁, lost, _, hadopt, ?_, congrArg (· ++ _) (List.append_nil lost)⟩
      simp only [hno]
      exact .reject (Nat.lt_of_le_of_ne (le_adopted_term hadopt) hterm)

theorem handleAppendReply_responds {r : AppendReply}
    (h : n.handleAppendReply sender r now draw = .ok (n', commands)) :
    ∃ n₁ lost said, n.adoptTerm r.term now draw = .ok (n₁, lost) ∧
      Response now draw n₁ sender (.appendReply r) n' said ∧ commands = lost ++ said := by
  obtain ⟨⟨n₁, lost⟩, hadopt, h⟩ := exists_of_bind_ok h
  simp only [] at h
  split at h
  · next hother =>
      obtain ⟨rfl, rfl⟩ := h
      exact ⟨n', commands, [], hadopt, .ignore fun hsame => absurd hsame hother,
        (List.append_nil _).symm⟩
  · next hsame =>
      have hcurrent := Decidable.not_not.mp hsame
      split at h
      · next l role =>
          split at h
          · next success =>
              obtain ⟨⟨lease, renewed⟩, recorded, h⟩ := exists_of_bind_ok h
              obtain ⟨rfl, rfl⟩ := h
              exact ⟨n₁, commands, [], hadopt, .note role hcurrent success recorded,
                (List.append_nil _).symm⟩
          · next failure =>
              obtain ⟨rfl, rfl⟩ := h
              exact ⟨n₁, commands, [], hadopt,
                .lower role hcurrent (Bool.eq_false_iff.mpr failure), (List.append_nil _).symm⟩
      · next hno =>
          obtain ⟨rfl, rfl⟩ := h
          refine ⟨n', commands, [], hadopt, .ignore fun _ => ?_, (List.append_nil _).symm⟩
          exact Bool.eq_false_iff.mpr fun h => (isLeader_iff.mp h).elim hno

/-- A message is answered in the term of the message or a later one. -/
theorem handleMessage_responds (h : n.handleMessage sender message now draw = .ok (n', commands)) :
    ∃ n₁ lost said, n.adoptTerm message.term now draw = .ok (n₁, lost) ∧
      Response now draw n₁ sender message n' said ∧ commands = lost ++ said := by
  cases message with
  | voteRequest q => exact handleVoteRequest_responds h
  | voteReply r => exact handleVoteReply_responds h
  | appendRequest q => exact handleAppendRequest_responds h
  | appendReply r => exact handleAppendReply_responds h

end Node

end Quorum
