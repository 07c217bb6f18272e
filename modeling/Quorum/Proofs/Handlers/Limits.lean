import Quorum.Proofs.Handlers.Counting

/-!
# Messages at the end of the clock

A message makes a node fail only where a deadline that it sets would lie past
the end of the clock. As long as the clock itself is far from its end, two kinds
of messages can do so, each by a duration that it brings along
(`handleMessage_returns_iff`): a request of a leader by its lease, and the vote
that wins an election by the earlier lease that it reports.
-/

namespace Quorum.Node

variable {now limit : Instant} {draw : Nat} {n n' : Node} {l : Leader} {c : Candidate}
  {sender : NodeId} {message : Message} {q : AppendRequest} {v : VoteReply} {a : AppendReply}
  {commands : List Command}

/-- Every deadline that the durations of a message lead to is within the clock:
that of a leader's lease, and that of the first window of an election that is
won. -/
def Bears (n : Node) (sender : NodeId) (now : Instant) : Message → Prop
  | .appendRequest q => n.record.currentTerm ≤ q.term → now + q.lease < Instant.limit
  | .voteReply v => v.term = n.record.currentTerm → ∀ c, n.role = .candidate c →
      c.tallying = true →
      (c.record sender v.granted v.priorLease).hasMajority n.clusterSize = true →
      now + (c.record sender v.granted v.priorLease).priorLease + n.config.lease < Instant.limit
  | _ => True

/-- The latest round of a leader began no later than `limit`, and its lease lasts
as long as it was configured. -/
def OnTime (limit : Instant) (n : Node) : Prop :=
  ∀ l, n.role = .leader l → l.lease.roundStartedAt ≤ limit ∧ l.lease.duration = n.config.lease

/-! ## Adopting a term -/

theorem adoptTerm_returns (reach : now + n.config.longest < Instant.limit) (term : Term)
    (draw : Nat) : ∃ n₁ lost, n.adoptTerm term now draw = .ok (n₁, lost) := by
  unfold adoptTerm
  split
  · obtain ⟨⟨n₁, lost⟩, hdown⟩ : ∃ result, (n.withRecord
        { n.record with currentTerm := term, votedFor := none }).stepDown none now draw =
          .ok result := stepDown_returns reach
    exact ⟨n₁, lost, hdown⟩
  · exact ⟨n, [], rfl⟩

/-- Who does not follow after adopting a term has adopted none. -/
theorem adoptTerm_busy {n₁ : Node} {term : Term} {lost : List Command}
    (h : n.adoptTerm term now draw = .ok (n₁, lost)) (busy : ∀ f, n₁.role ≠ .follower f) :
    n₁ = n := by
  obtain ⟨_, rfl, _⟩ | ⟨_, rfl, _⟩ := adoptTerm_cases h
  · obtain ⟨f, role⟩ := n.inTerm_role term now draw
    exact absurd role (busy f)
  · rfl

/-! ## Each kind of message -/

theorem voteRequest_returns (reach : now + n.config.longest < Instant.limit) (q : VoteRequest) :
    ∃ result, n.handleVoteRequest sender q now draw = .ok result := by
  obtain ⟨n₁, lost, hadopt⟩ := adoptTerm_returns reach q.term draw
  unfold handleVoteRequest
  rw [hadopt]
  exact ⟨_, rfl⟩

theorem appendReply_returns (reach : now + n.config.longest < Instant.limit)
    (timely : ∀ l, n.role = .leader l →
      l.lease.roundStartedAt + l.lease.duration < Instant.limit) (a : AppendReply) :
    ∃ result, n.handleAppendReply sender a now draw = .ok result := by
  obtain ⟨n₁, lost, hadopt⟩ := adoptTerm_returns reach a.term draw
  have hrecords : ∀ l, n₁.role = .leader l →
      ∃ result, l.lease.recordAck sender a.round n₁.quorum = .ok result := by
    intro l role
    have hsame := adoptTerm_busy hadopt fun f hf => nomatch role.symm.trans hf
    exact LeaderLease.recordAck_returns (timely l (hsame ▸ role))
  unfold handleAppendReply
  rw [hadopt]
  simp only [bind, Except.bind]
  split
  · exact ⟨_, rfl⟩
  · split
    · next l role =>
        split
        · obtain ⟨recorded, hrecorded⟩ := hrecords l role
          rw [hrecorded]
          exact ⟨_, rfl⟩
        · exact ⟨_, rfl⟩
    · exact ⟨_, rfl⟩

/-- A request of a past term is refused in any case. One that is followed sets
the end of its leader's lease. -/
theorem appendRequest_returns_iff (reach : now + n.config.longest < Instant.limit) :
    (∃ result, n.handleAppendRequest sender q now draw = .ok result) ↔
      n.Bears sender now (.appendRequest q) := by
  constructor
  · rintro ⟨result, h⟩ current
    obtain ⟨⟨n₁, lost⟩, hadopt, h⟩ := exists_of_bind_ok h
    have hterm : q.term = n₁.record.currentTerm := by
      obtain ⟨_, rfl, _⟩ | ⟨older, rfl, _⟩ := adoptTerm_cases hadopt
      · exact (inTerm_term n q.term now draw).symm
      · exact Nat.le_antisymm older current
    simp only [hterm, if_true] at h
    obtain ⟨followed, hfollow, _⟩ := exists_of_bind_ok h
    obtain ⟨_, _, hfollow⟩ := exists_of_bind_ok hfollow
    obtain ⟨_, _, hfollow⟩ := exists_of_bind_ok hfollow
    obtain ⟨_, hobserve, _⟩ := exists_of_bind_ok hfollow
    obtain ⟨endsAt, hlease, _⟩ := exists_of_bind_ok hobserve
    obtain ⟨rfl, hlimit⟩ := Instant.after_ok hlease
    exact hlimit
  · intro bears
    exact handleAppendRequest_returns fun current =>
      ⟨electionTimeout_lt_limit reach draw, bears current⟩

/-- A vote sets deadlines only where it wins the election. -/
theorem voteReply_returns_iff (reach : now + n.config.longest < Instant.limit) :
    (∃ result, n.handleVoteReply sender v now draw = .ok result) ↔
      n.Bears sender now (.voteReply v) := by
  by_cases counting : v.term = n.record.currentTerm ∧
      ∃ c, n.role = .candidate c ∧ c.tallying = true
  · obtain ⟨current, c, role, tallying⟩ := counting
    have hcounts : n.handleVoteReply sender v now draw =
        n.tally (c.record sender v.granted v.priorLease) now draw :=
      voteReply_counts role tallying current
    rw [hcounts, tally_returns_iff reach]
    constructor
    · intro hwin _ d hd _
      obtain rfl := Role.candidate.inj (role.symm.trans hd)
      exact hwin
    · exact fun bears => bears current c role tallying
  · refine iff_of_true ?_ fun current c role tallying =>
      absurd ⟨current, c, role, tallying⟩ counting
    obtain ⟨n₁, lost, hadopt⟩ := adoptTerm_returns reach v.term draw
    unfold handleVoteReply
    rw [hadopt]
    simp only [bind, Except.bind]
    split
    · exact ⟨_, rfl⟩
    · next current =>
        split
        · next c role =>
            split
            · next tallying =>
                obtain rfl := adoptTerm_busy hadopt fun f hf => nomatch role.symm.trans hf
                exact absurd ⟨not_not.mp current, c, role, tallying⟩ counting
            · exact ⟨_, rfl⟩
        · exact ⟨_, rfl⟩

/-- Whether a message can be handled is a matter of the durations that it
brings. -/
theorem handleMessage_returns_iff (reach : now + n.config.longest < Instant.limit)
    (timely : ∀ l, n.role = .leader l →
      l.lease.roundStartedAt + l.lease.duration < Instant.limit) :
    (∃ result, n.handle (.message sender message) now draw = .ok result) ↔
      n.Bears sender now message := by
  cases message with
  | voteRequest q => exact iff_of_true (voteRequest_returns reach q) trivial
  | voteReply v => exact voteReply_returns_iff reach
  | appendRequest q => exact appendRequest_returns_iff reach
  | appendReply a => exact iff_of_true (appendReply_returns reach timely a) trivial

end Quorum.Node
