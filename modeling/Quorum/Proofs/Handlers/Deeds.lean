import Quorum.Proofs.Handlers.Responses

/-!
# Handlers as sequences of deeds

Everything that an event or a client can make a node do, cut into *deeds*:
what the node is after each, what it says, and under which conditions it does
it. Unlike the moves of a chronicle, deeds keep clocks, leases and deadlines,
and they ask nothing of the node or of the messages that reach it. Each
handler is a sequence of deeds (`handle_deeds`, `submit_deeds`), so what holds
of every deed holds of every node.
-/

namespace Quorum

namespace Node

/-! ## Deeds -/

/-- What a node can do at one go, when it has just been sent `heard?`. -/
inductive Deed (heard? : Option (NodeId × Message)) (now : Instant) (draw : Nat) (n : Node) :
    Node → List Command → Prop
  /-- It moves to the newer term of a message. -/
  | adopt {sender : NodeId} {message : Message} (heard : heard? = some (sender, message))
      (newer : n.record.currentTerm < message.term) :
      Deed heard? now draw n (n.inTerm message.term now draw) (n.farewell none)
  /-- As a leader it gives up because its lease has run out. -/
  | expire {l : Leader} (role : n.role = .leader l) (expired : l.lease.isExpired now = true) :
      Deed heard? now draw n (n.asFollower none now draw) (n.farewell none)
  | follow {sender : NodeId} {q : AppendRequest}
      (heard : heard? = some (sender, .appendRequest q))
      (current : q.term = n.record.currentTerm) :
      Deed heard? now draw n (n.following q now draw) (n.farewell (some q.leader))
  /-- It stands for election and asks its peers for their votes. -/
  | stand (free : n.isLeader = false ∧ ∀ c, n.role = .candidate c → c.tallying = false) :
      Deed heard? now draw n (n.candidacy now)
        (n.peers.map fun peer => .send peer (.voteRequest (n.candidacy now).voteRequest))
  | count {c : Candidate} {sender : NodeId} {r : VoteReply} (role : n.role = .candidate c)
      (tallying : c.tallying = true) (heard : heard? = some (sender, .voteReply r))
      (current : r.term = n.record.currentTerm) :
      Deed heard? now draw n
        { n with role := .candidate (c.record sender r.granted r.priorLease) } []
  /-- It closes its tally without a win. -/
  | lose {c : Candidate} (role : n.role = .candidate c) (tallying : c.tallying = true) :
      Deed heard? now draw n
        { n with role := .candidate (c.conclude (now + n.config.electionTimeout draw)) } []
  | win {c : Candidate} {lease : LeaderLease} (role : n.role = .candidate c)
      (tallying : c.tallying = true) (majority : c.hasMajority n.clusterSize = true)
      (granted : LeaderLease.grant now n.config.lease c.priorLease = .ok lease) :
      Deed heard? now draw n (n.crowned lease now) []
  /-- As a leader it starts a heartbeat round. -/
  | round {l : Leader} {lease : LeaderLease} (role : n.role = .leader l)
      (begun : l.lease.beginRound now n.quorum = .ok lease) :
      Deed heard? now draw n (n.inRound l lease now)
        ((n.inRound l lease now).roundRequests
          { l with heartbeatAt := now + n.config.heartbeat, lease })
  /-- As a leader it commits what a quorum holds. -/
  | advance {l : Leader} (role : n.role = .leader l) :
      Deed heard? now draw n (n.advanceCommit l) []
  /-- As a leader it appends what a client asks for. -/
  | append {l : Leader} (operation : Operation) (role : n.role = .leader l)
      (asked : heard? = none) :
      Deed heard? now draw n (n.append ⟨n.record.currentTerm, operation⟩) []
  | grant {sender : NodeId} {q : VoteRequest} (heard : heard? = some (sender, .voteRequest q))
      (grants : n.grants q = true) :
      Deed heard? now draw n (n.voteFor q.candidate)
        [.send sender (.voteReply ⟨n.record.currentTerm, true, n.priorLease.remaining now⟩)]
  | deny {sender : NodeId} {q : VoteRequest} (heard : heard? = some (sender, .voteRequest q))
      (grants : n.grants q = false) :
      Deed heard? now draw n n
        [.send sender (.voteReply ⟨n.record.currentTerm, false, n.priorLease.remaining now⟩)]
  /-- As a follower it takes a request over, whose leader's lease it has in
  mind. -/
  | accept {f : Follower} {sender : NodeId} {q : AppendRequest} (role : n.role = .follower f)
      (heard : heard? = some (sender, .appendRequest q)) (accepts : n.accepts q = true)
      (observed : now + q.lease ≤ n.priorLease.endsAt) :
      Deed heard? now draw n (n.accepting q)
        [.send sender (.appendReply
          ⟨n.record.currentTerm, true, q.prevIndex + q.entries.length, q.round⟩)]
  | refuse {sender : NodeId} {q : AppendRequest}
      (heard : heard? = some (sender, .appendRequest q)) (accepts : n.accepts q = false) :
      Deed heard? now draw n n
        [.send sender (.appendReply ⟨n.record.currentTerm, false, 0, q.round⟩)]
  /-- As a leader it notes what a peer has confirmed. -/
  | note {l : Leader} {sender : NodeId} {r : AppendReply} {lease : LeaderLease} {renewed : Bool}
      (role : n.role = .leader l) (heard : heard? = some (sender, .appendReply r))
      (current : r.term = n.record.currentTerm) (success : r.success = true)
      (recorded : l.lease.recordAck sender r.round n.quorum = .ok (lease, renewed)) :
      Deed heard? now draw n
        { n with role := .leader { l.recordSuccess sender r.acked with lease } } []
  /-- As a leader it goes one entry back for a peer that has refused. -/
  | lower {l : Leader} {sender : NodeId} {r : AppendReply} (role : n.role = .leader l)
      (heard : heard? = some (sender, .appendReply r)) (current : r.term = n.record.currentTerm)
      (failure : r.success = false) :
      Deed heard? now draw n { n with role := .leader (l.recordFailure sender) } []

/-- Deeds one after the other, with all that is said. -/
inductive Deeds (heard? : Option (NodeId × Message)) (now : Instant) (draw : Nat) :
    Node → Node → List Command → Prop
  | nil (n : Node) : Deeds heard? now draw n n []
  | cons {n₁ n₂ n₃ : Node} {said more : List Command} (first : Deed heard? now draw n₁ n₂ said)
      (rest : Deeds heard? now draw n₂ n₃ more) : Deeds heard? now draw n₁ n₃ (said ++ more)

variable {heard? : Option (NodeId × Message)} {now : Instant} {draw : Nat} {n n' n₁ n₂ n₃ : Node}
  {l : Leader} {c : Candidate} {leader? : Option NodeId} {sender : NodeId} {message : Message}
  {commands said more : List Command}

theorem Deeds.one (h : Deed heard? now draw n n' said) : Deeds heard? now draw n n' said := by
  have hone := Deeds.cons h (.nil n')
  rwa [List.append_nil] at hone

theorem Deeds.trans (h₁ : Deeds heard? now draw n₁ n₂ said)
    (h₂ : Deeds heard? now draw n₂ n₃ more) : Deeds heard? now draw n₁ n₃ (said ++ more) := by
  induction h₁ with
  | nil => exact h₂
  | cons first _ ih =>
      rw [List.append_assoc]
      exact .cons first (ih h₂)

/-- A deed after others that says nothing. -/
theorem Deeds.then (h₁ : Deeds heard? now draw n₁ n₂ said) (h₂ : Deed heard? now draw n₂ n₃ []) :
    Deeds heard? now draw n₁ n₃ said := by
  have hboth := h₁.trans (.one h₂)
  rwa [List.append_nil] at hboth

/-! ## What every deed leaves alone -/

theorem asFollower_frame (n : Node) (leader? : Option NodeId) (now : Instant) (draw : Nat) :
    n.Frame (n.asFollower leader? now draw) := by
  unfold asFollower
  split
  · exact .withRole n _ n.priorLease
  · exact .withRole n _ n.priorLease
  · exact .withRole n _ _

theorem voteFor_frame (n : Node) (candidate : NodeId) : n.Frame (n.voteFor candidate) := by
  unfold voteFor
  split
  · exact .refl n
  · exact .withRecord (Nat.le_refl _)

theorem Deed.frame (h : Deed heard? now draw n n' said) : n.Frame n' := by
  cases h with
  | adopt heard newer =>
      exact (Frame.withRecord (Nat.le_of_lt newer)).trans (asFollower_frame _ _ _ _)
  | expire role expired => exact asFollower_frame _ _ _ _
  | follow heard current => exact (asFollower_frame _ _ _ _).trans (.withRole _ _ _)
  | stand free => exact (Frame.withRecord (Term.le_next _)).trans (.withRole _ _ n.priorLease)
  | count role tallying heard current => exact .withRole n _ n.priorLease
  | lose role tallying => exact .withRole n _ n.priorLease
  | win role tallying majority granted => exact (append_frame _).trans (.withRole _ _ n.priorLease)
  | round role begun => exact .withRole n _ n.priorLease
  | advance role => exact commitTo_frame _
  | append operation role asked => exact append_frame _
  | grant heard grants => exact voteFor_frame n _
  | deny heard grants => exact .refl n
  | accept role heard accepts observed =>
      exact (takeEntriesBehind_frame _ _).trans (commitTo_frame _)
  | refuse heard accepts => exact .refl n
  | note role heard current success recorded => exact .withRole n _ n.priorLease
  | lower role heard current failure => exact .withRole n _ n.priorLease

theorem Deeds.frame (h : Deeds heard? now draw n n' said) : n.Frame n' := by
  induction h with
  | nil n => exact .refl n
  | cons first _ ih => exact first.frame.trans ih

/-! ## Leaders -/

theorem sendHeartbeats_deeds (role : n.role = .leader l)
    (h : n.sendHeartbeats l now = .ok (n', commands)) : Deeds heard? now draw n n' commands := by
  obtain ⟨lease, hbegun, rfl, rfl⟩ := sendHeartbeats_eq h
  exact (Deeds.one (.round role hbegun)).then (.advance rfl)

/-- Winning, the first round and what it commits. -/
theorem won_deeds {lease₀ lease : LeaderLease} (role : n.role = .candidate c)
    (tallying : c.tallying = true) (majority : c.hasMajority n.clusterSize = true)
    (granted : LeaderLease.grant now n.config.lease c.priorLease = .ok lease₀)
    (begun : lease₀.beginRound now n.quorum = .ok lease) :
    Deeds heard? now draw n
      ((n.crowned lease now).advanceCommit
        (.start n.peers n.lastIndex (now + n.config.heartbeat) lease))
      ((n.crowned lease now).roundRequests
        (.start n.peers n.lastIndex (now + n.config.heartbeat) lease)) := by
  -- the round begins in the lease that was granted and leaves the rows as they are
  have hround : Deed heard? now draw (n.crowned lease₀ now)
      ((n.crowned lease₀ now).inRound
        (.start n.peers n.lastIndex (now + n.config.heartbeat) lease₀) lease now) _ :=
    .round rfl begun
  exact .cons (.win role tallying majority granted) ((Deeds.one hround).then (.advance rfl))

theorem heartbeatTimeout_deeds (h : n.heartbeatTimeout now = .ok (n', commands)) :
    Deeds heard? now draw n n' commands := by
  unfold heartbeatTimeout at h
  split at h
  · next l role => exact sendHeartbeats_deeds role h
  · obtain ⟨rfl, rfl⟩ := h
    exact .nil n

theorem leaseTimeout_deeds (h : n.leaseTimeout now draw = .ok (n', commands)) :
    Deeds heard? now draw n n' commands := by
  unfold leaseTimeout at h
  split at h
  · next l role =>
      split at h
      · next expired =>
          obtain ⟨rfl, rfl⟩ := stepDown_eq h
          exact .one (.expire role expired)
      · obtain ⟨rfl, rfl⟩ := h
        exact .nil n
  · obtain ⟨rfl, rfl⟩ := h
    exact .nil n

theorem submit_deeds (n : Node) (operation : Operation) (now : Instant) (draw : Nat) :
    Deeds none now draw n (n.submit operation).1 [] := by
  unfold submit
  split
  · next l role => exact (Deeds.one (.append operation role rfl)).then (.advance role)
  · exact .nil n

/-! ## Candidates and voters -/

theorem tally_deeds (tallying : c.tallying = true)
    (h : n.tally c now draw = .ok (n', commands)) :
    Deeds heard? now draw { n with role := .candidate c } n' commands := by
  obtain ⟨lease₀, lease, majority, granted, begun, rfl, rfl⟩ | ⟨rfl, rfl⟩ | ⟨rfl, rfl⟩ :=
    tally_cases h
  · exact won_deeds rfl tallying majority granted begun
  · exact .one (.lose rfl tallying)
  · exact .nil _

theorem startElection_deeds (free : n.isLeader = false ∧
      ∀ c, n.role = .candidate c → c.tallying = false)
    (h : n.startElection now draw = .ok (n', commands)) : Deeds heard? now draw n n' commands := by
  obtain ⟨deadline, hafter, h⟩ := exists_of_bind_ok h
  obtain ⟨rfl, -⟩ := Instant.after_ok hafter
  obtain ⟨⟨elected, more⟩, htally, h⟩ := exists_of_bind_ok h
  obtain ⟨rfl, rfl⟩ := h
  exact .cons (.stand free) (tally_deeds rfl htally)

theorem electionTimeout_deeds (h : n.electionTimeout now draw = .ok (n', commands)) :
    Deeds heard? now draw n n' commands := by
  unfold electionTimeout at h
  split at h
  · obtain ⟨rfl, rfl⟩ := h
    exact .nil n
  · next c role =>
      split at h
      · obtain ⟨rfl, rfl⟩ := h
        exact .nil n
      · next tallying =>
          refine startElection_deeds ⟨isLeader_of_candidate role, fun d hd => ?_⟩ h
          rw [role] at hd
          exact Role.candidate.inj hd ▸ Bool.eq_false_iff.mpr tallying
  · next f role =>
      refine startElection_deeds ⟨isLeader_of_follower role, fun d hd => ?_⟩ h
      rw [role] at hd
      exact nomatch hd

theorem voteRoundTimeout_deeds (h : n.voteRoundTimeout now draw = .ok (n', commands)) :
    Deeds heard? now draw n n' commands := by
  unfold voteRoundTimeout at h
  split at h
  · next c role =>
      split at h
      · next hdue =>
          obtain ⟨lost, hlost, h⟩ := exists_of_bind_ok h
          obtain ⟨rfl, rfl⟩ := h
          obtain rfl := loseElection_eq hlost
          exact .one (.lose role (Bool.and_eq_true_iff.mp hdue).1)
      · obtain ⟨rfl, rfl⟩ := h
        exact .nil n
  · obtain ⟨rfl, rfl⟩ := h
    exact .nil n

/-! ## Messages -/

theorem Response.deeds (h : Response now draw n sender message n' said) :
    Deeds (some (sender, message)) now draw n n' said := by
  cases h with
  | grant grants => exact .one (.grant rfl grants)
  | deny grants => exact .one (.deny rfl grants)
  | discard idle => exact .nil n
  | count role tallying current => exact .one (.count role tallying rfl current)
  | @lose c r role tallying current =>
      exact (Deeds.one (.count role tallying rfl current)).then
        (.lose rfl ((c.record_tallying _ _ _).trans tallying))
  | @win c r lease₀ lease role tallying current majority granted begun =>
      exact .cons (.count role tallying rfl current)
        (won_deeds rfl ((c.record_tallying _ _ _).trans tallying) majority granted begun)
  | reject stale =>
      refine .one (.refuse rfl ?_)
      rw [accepts, beq_eq_false_iff_ne.mpr (Nat.ne_of_lt stale), Bool.false_and]
  | @refuse q current accepts =>
      rw [← following_term n q now draw]
      exact .cons (.follow rfl current) (.one (.refuse rfl accepts))
  | @accept q current accepts =>
      rw [← following_term n q now draw]
      exact .cons (.follow rfl current) (.one (.accept rfl rfl accepts (Nat.le_max_right _ _)))
  | ignore idle => exact .nil n
  | note role current success recorded =>
      exact (Deeds.one (.note role rfl current success recorded)).then (.advance rfl)
  | lower role current failure => exact .one (.lower role rfl current failure)

theorem handleMessage_deeds (h : n.handleMessage sender message now draw = .ok (n', commands)) :
    Deeds (some (sender, message)) now draw n n' commands := by
  obtain ⟨n₁, lost, said, hadopt, hresponse, rfl⟩ := handleMessage_responds h
  obtain ⟨newer, rfl, rfl⟩ | ⟨_, rfl, rfl⟩ := adoptTerm_cases hadopt
  · exact .cons (.adopt rfl newer) hresponse.deeds
  · exact hresponse.deeds

/-! ## All events -/

end Node

/-- The message that an event brings, with its sender. -/
def Event.heard? : Event → Option (NodeId × Message)
  | .message sender m => some (sender, m)
  | _ => none

namespace Node

/-- Whatever happens to a node makes it do a sequence of deeds. -/
theorem handle_deeds {event : Event} {now : Instant} {draw : Nat} {n n' : Node}
    {commands : List Command} (h : n.handle event now draw = .ok (n', commands)) :
    Deeds event.heard? now draw n n' commands := by
  cases event with
  | electionTimeout => exact electionTimeout_deeds h
  | voteRoundTimeout => exact voteRoundTimeout_deeds h
  | heartbeatTimeout => exact heartbeatTimeout_deeds h
  | leaseTimeout => exact leaseTimeout_deeds h
  | message sender message => exact handleMessage_deeds h

end Node

end Quorum
