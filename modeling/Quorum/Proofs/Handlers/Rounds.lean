import Quorum.Proofs.Handlers.Hearing
import Quorum.Proofs.Cluster.Outcome

/-!
# Heartbeat rounds

What starting a round, answering a request of it and noting the answer come
to, and that none of them fails while the clock reaches far enough beyond the
present (`TimerConfig.longest`).
-/

namespace Quorum

/-- The longest time by which a deadline ever lies ahead. -/
def TimerConfig.longest (c : TimerConfig) : Duration :=
  max (max c.electionMin c.electionMax) (max c.heartbeat (max c.lease c.rpc))

namespace TimerConfig

theorem validate_ok_iff {config : TimerConfig} : config.validate = .ok () ↔
    (0 < config.electionMin ∧ config.electionMin ≤ config.electionMax) ∧
      0 < config.heartbeat ∧ config.heartbeat < config.lease := by
  unfold validate
  split
  · next range =>
      refine iff_of_false (fun h => nomatch h) fun ⟨⟨hmin, hrange⟩, _⟩ => ?_
      exact range.elim (Nat.ne_of_gt hmin) (Nat.not_lt.mpr hrange)
  · next range =>
      obtain ⟨hmin, hrange⟩ := not_or.mp range
      rw [and_iff_right ⟨Nat.pos_of_ne_zero hmin, Nat.not_lt.mp hrange⟩]
      split
      · next zero => exact iff_of_false (fun h => nomatch h) fun h => Nat.ne_of_gt h.1 zero
      · next beats =>
          rw [and_iff_right (Nat.pos_of_ne_zero beats)]
          split
          · next short => exact iff_of_false (fun h => nomatch h) (Nat.not_lt.mpr short)
          · next long => exact iff_of_true rfl (Nat.not_le.mp long)

theorem electionTimeout_le_longest (c : TimerConfig) (draw : Nat) :
    c.electionTimeout draw ≤ c.longest := by
  have hmax : c.electionTimeout draw ≤ max c.electionMin c.electionMax := by
    unfold electionTimeout
    split
    · exact Nat.le_max_left _ _
    · next hrange =>
        have hrest : draw % (c.electionMax - c.electionMin + 1) ≤ c.electionMax - c.electionMin :=
          Nat.lt_succ_iff.mp (Nat.mod_lt _ (Nat.succ_pos _))
        refine Nat.le_trans (Nat.add_le_add_left hrest _) ?_
        rw [Nat.add_sub_cancel' (Nat.le_of_not_le hrange)]
        exact Nat.le_max_right _ _
  exact Nat.le_trans hmax (Nat.le_max_left _ _)

theorem heartbeat_le_longest (c : TimerConfig) : c.heartbeat ≤ c.longest :=
  Nat.le_trans (Nat.le_max_left _ _) (Nat.le_max_right _ _)

theorem lease_le_longest (c : TimerConfig) : c.lease ≤ c.longest :=
  Nat.le_trans (Nat.le_trans (Nat.le_max_left _ _) (Nat.le_max_right _ _)) (Nat.le_max_right _ _)

theorem rpc_le_longest (c : TimerConfig) : c.rpc ≤ c.longest :=
  Nat.le_trans (Nat.le_trans (Nat.le_max_right _ _) (Nat.le_max_right _ _)) (Nat.le_max_right _ _)

end TimerConfig

theorem Instant.after_of_lt {start : Instant} {d : Duration} (h : start + d < limit) :
    after start d = .ok (start + d) := if_pos h

/-! ## Leases -/

namespace LeaderLease

variable {l : LeaderLease} {now : Instant} {peer : NodeId} {round quorum : Nat}

theorem renew_returns
    (h : l.roundStartedAt + l.duration < Instant.limit ∨ l.acks.length + 1 < quorum) :
    ∃ result, l.renew quorum = .ok result := by
  unfold renew
  split
  · exact ⟨_, rfl⟩
  · next hfew =>
      rw [Instant.after_of_lt (h.resolve_right hfew)]
      exact ⟨_, rfl⟩

theorem beginRound_returns (h : now + l.duration < Instant.limit ∨ 1 < quorum) :
    ∃ lease, l.beginRound now quorum = .ok lease := by
  have hrenew : ∃ result, ({ l with round := l.round + 1, roundStartedAt := now, acks := [] } :
      LeaderLease).renew quorum = .ok result := renew_returns h
  obtain ⟨⟨lease, renewed⟩, hrenew⟩ := hrenew
  exact ⟨lease, by rw [beginRound, hrenew]; rfl⟩

theorem recordAck_returns (h : l.roundStartedAt + l.duration < Instant.limit) :
    ∃ result, l.recordAck peer round quorum = .ok result := by
  unfold recordAck
  split
  · exact renew_returns (.inl h)
  · exact ⟨_, rfl⟩

end LeaderLease

/-- How a follower in the term of a request answers it: it refuses and keeps
its log, or it takes the entries in and confirms them. -/
inductive AppendRequest.Answered (q : AppendRequest) (log : Log) : Log → AppendReply → Prop
  | refused {r : AppendReply} (misfit : log.holds q.prevIndex q.prevTerm = false)
      (failure : r.success = false) : Answered q log log r
  | confirmed {r : AppendReply} (fits : log.holds q.prevIndex q.prevTerm = true)
      (success : r.success = true) (acked : r.acked = q.prevIndex + q.entries.length)
      (round : r.round = q.round) : Answered q log (log.splice q.prevIndex q.entries) r

namespace Node

variable {now start : Instant} {draw : Nat} {n n' : Node} {sender : NodeId}
  {commands : List Command} {l : Leader} {c : Candidate} {f : Follower} {leader? : Option NodeId}

theorem adoptTerm_ensures {safe : Prop} {term : Term} (older : term ≤ n.record.currentTerm) :
    Ensures safe (n.adoptTerm term now draw) (· = (n, [])) := by
  rw [adoptTerm, if_neg (Nat.not_lt.mpr older)]
  exact .pure rfl

/-! ## Requests within reach of the clock -/

theorem stepDown_ensures :
    Ensures (now + n.config.electionTimeout draw < Instant.limit) (n.stepDown leader? now draw)
      (· = (n.asFollower leader? now draw, n.farewell leader?)) := by
  refine ⟨fun (n', lost) h => ?_, fun inTime => ?_⟩
  · obtain ⟨rfl, rfl⟩ := stepDown_eq h
    rfl
  · have hafter := Instant.after_of_lt inTime
    unfold stepDown
    split
    · exact ⟨_, rfl⟩
    · exact ⟨_, by rw [hafter]; rfl⟩
    · exact ⟨_, by rw [hafter]; rfl⟩

theorem follow_ensures {q : AppendRequest} :
    Ensures (now + n.config.electionTimeout draw < Instant.limit ∧ now + q.lease < Instant.limit)
      (n.follow q now draw) fun _ => True := by
  refine (stepDown_ensures.weaken And.left).bind fun downed hdowned => ?_
  subst hdowned
  have hconfig : (n.asFollower (some q.leader) now draw).config = n.config :=
    (asFollower_frame n _ now draw).config
  refine ((Instant.after_ensures now _).weaken fun inTime => ?_).bind fun electionAt _ => ?_
  · show now + (n.asFollower (some q.leader) now draw).config.electionTimeout draw < Instant.limit
    rw [hconfig]
    exact inTime.1
  · have hobserve : ∀ prior : PriorLease, Ensures (now + n.config.electionTimeout draw <
        Instant.limit ∧ now + q.lease < Instant.limit) (prior.observe now q.lease) fun _ => True :=
      fun _ => ((Instant.after_ensures now q.lease).weaken And.right).bind fun _ _ => .pure trivial
    exact (hobserve _).bind fun _ _ => .pure trivial

/-- A request is taken if the deadlines that it sets are within reach. One of
an earlier term sets none. -/
theorem handleAppendRequest_returns {q : AppendRequest}
    (inTime : n.record.currentTerm ≤ q.term →
      now + n.config.electionTimeout draw < Instant.limit ∧ now + q.lease < Instant.limit) :
    ∃ result, n.handleAppendRequest sender q now draw = .ok result := by
  have hadopted : Ensures True (n.adoptTerm q.term now draw) fun adopted =>
      adopted.1.config = n.config ∧
        (q.term = adopted.1.record.currentTerm → n.record.currentTerm ≤ q.term) := by
    constructor
    · intro (n₁, lost) hadopt
      obtain ⟨newer, rfl, _⟩ | ⟨_, rfl, _⟩ := adoptTerm_cases hadopt
      · exact ⟨(asFollower_frame _ none now draw).config, fun _ => Nat.le_of_lt newer⟩
      · exact ⟨rfl, fun current => Nat.le_of_eq current.symm⟩
    · intro _
      unfold adoptTerm
      split
      · next newer => exact stepDown_ensures.returns (inTime (Nat.le_of_lt newer)).1
      · exact ⟨_, rfl⟩
  have hrequest : Ensures True (n.handleAppendRequest sender q now draw) fun _ => True := by
    refine hadopted.bind fun (n₁, lost) ⟨hconfig, hterm⟩ => ?_
    have hconfig : n₁.config = n.config := hconfig
    simp only []
    split
    · next current =>
        have hreach := inTime (hterm current)
        rw [← hconfig] at hreach
        exact (follow_ensures.weaken fun _ => hreach).bind fun _ _ => .pure trivial
    · exact .pure trivial
  exact hrequest.returns trivial

/-! ## Timers within reach of the clock -/

theorem one_lt_quorum (peers : n.peers ≠ []) : 1 < n.quorum := by
  have hlength : 0 < n.peers.length := List.length_pos_iff.mpr peers
  unfold quorum clusterSize
  omega

section returns

variable (reach : now + n.config.longest < Instant.limit)

include reach

theorem electionTimeout_lt_limit (draw : Nat) :
    now + n.config.electionTimeout draw < Instant.limit :=
  Nat.lt_of_le_of_lt (Nat.add_le_add_left (n.config.electionTimeout_le_longest draw) _) reach

theorem lease_lt_limit : now + n.config.lease < Instant.limit :=
  Nat.lt_of_le_of_lt (Nat.add_le_add_left n.config.lease_le_longest _) reach

theorem stepDown_returns : ∃ result, n.stepDown leader? now draw = .ok result :=
  stepDown_ensures.returns (electionTimeout_lt_limit reach draw)

theorem loseElection_returns : ∃ result, n.loseElection c now draw = .ok result :=
  ⟨_, by rw [loseElection, Instant.after_of_lt (electionTimeout_lt_limit reach draw)]; rfl⟩

theorem sendHeartbeats_returns
    (h : now + l.lease.duration < Instant.limit ∨ 1 < n.quorum) :
    ∃ result, n.sendHeartbeats l now = .ok result := by
  have hheartbeat : now + n.config.heartbeat < Instant.limit :=
    Nat.lt_of_le_of_lt (Nat.add_le_add_left n.config.heartbeat_le_longest _) reach
  obtain ⟨lease, hlease⟩ := LeaderLease.beginRound_returns h
  exact ⟨_, by rw [sendHeartbeats, Instant.after_of_lt hheartbeat, hlease]; rfl⟩

theorem startElection_returns (peers : n.peers ≠ []) :
    ∃ result, n.startElection now draw = .ok result := by
  have hrpc : now + n.config.rpc < Instant.limit :=
    Nat.lt_of_le_of_lt (Nat.add_le_add_left n.config.rpc_le_longest _) reach
  have hlength : 0 < n.peers.length := List.length_pos_iff.mpr peers
  -- its own vote decides nothing, so the tally stays open
  have hopen : ∀ k : Node, k.peers = n.peers → ∀ deadline lease,
      ∃ result, k.tally (.stand n.id deadline lease) now draw = .ok result := by
    intro k hk deadline lease
    have hmajority : (Candidate.stand n.id deadline lease).hasMajority k.clusterSize = false := by
      simp only [Candidate.hasMajority, Candidate.stand, clusterSize, hk, List.length_singleton]
      exact decide_eq_false (by omega)
    have hanswers : (Candidate.stand n.id deadline lease).allAnswered k.peers.length = false := by
      simp only [Candidate.allAnswered, Candidate.stand, hk, List.length_nil]
      exact decide_eq_false (by omega)
    have hsame : ({ k with role := .candidate (.stand n.id deadline lease) } : Node).clusterSize =
        k.clusterSize := rfl
    rw [tally]
    simp only [hsame, hmajority, hanswers]
    exact ⟨_, rfl⟩
  have hstart : Ensures True (n.startElection now draw) fun _ => True :=
    ((Instant.after_ensures now n.config.rpc).weaken fun _ => hrpc).bind fun deadline _ =>
      Ensures.bind ⟨fun _ _ => trivial, fun _ => hopen (n.withRecord _) rfl deadline _⟩
        fun _ _ => .pure trivial
  exact hstart.returns trivial

/-- Whichever timer fires, a node with peers takes it. -/
theorem timer_returns (timer : Timer) (peers : n.peers ≠ []) :
    ∃ result, n.handle timer.event now draw = .ok result := by
  have hquorum : 1 < n.quorum := one_lt_quorum peers
  cases timer with
  | election =>
      show ∃ result, n.electionTimeout now draw = .ok result
      unfold electionTimeout
      split
      · exact ⟨_, rfl⟩
      · split
        · exact ⟨_, rfl⟩
        · exact startElection_returns reach peers
      · exact startElection_returns reach peers
  | voteRound =>
      show ∃ result, n.voteRoundTimeout now draw = .ok result
      unfold voteRoundTimeout
      split
      · split
        · next c _ _ =>
            obtain ⟨lost, hlost⟩ : ∃ lost, n.loseElection c now draw = .ok lost :=
              loseElection_returns reach
            exact ⟨_, by rw [hlost]; rfl⟩
        · exact ⟨_, rfl⟩
      · exact ⟨_, rfl⟩
  | heartbeat =>
      show ∃ result, n.heartbeatTimeout now = .ok result
      unfold heartbeatTimeout
      split
      · exact sendHeartbeats_returns reach (.inr hquorum)
      · exact ⟨_, rfl⟩
  | leaseExpiry =>
      show ∃ result, n.leaseTimeout now draw = .ok result
      unfold leaseTimeout
      split
      · split
        · exact stepDown_returns reach
        · exact ⟨_, rfl⟩
      · exact ⟨_, rfl⟩

theorem heartbeat_returns (office : n.InOffice l start) :
    ∃ result, n.handle .heartbeatTimeout now draw = .ok result := by
  show ∃ result, n.heartbeatTimeout now = .ok result
  unfold heartbeatTimeout
  rw [office.role]
  exact sendHeartbeats_returns reach (.inl (office.duration ▸ lease_lt_limit reach))

/-- A request with the lease that the node itself is set to is taken. -/
theorem request_returns {q : AppendRequest} (lease : q.lease = n.config.lease) :
    ∃ result, n.handleMessage sender (.appendRequest q) now draw = .ok result :=
  handleAppendRequest_returns fun _ =>
    ⟨electionTimeout_lt_limit reach draw, lease ▸ lease_lt_limit reach⟩

end returns

/-- A reply of the node's own term is taken. -/
theorem reply_returns {r : AppendReply} (role : n.role = .leader l)
    (reach : l.lease.roundStartedAt + l.lease.duration < Instant.limit)
    (current : r.term = n.record.currentTerm) :
    ∃ result, n.handleMessage sender (.appendReply r) now draw = .ok result := by
  have hreply : Ensures True (n.handleAppendReply sender r now draw) fun _ => True := by
    refine (adoptTerm_ensures (Nat.le_of_eq current)).bind fun adopted hadopted => ?_
    subst hadopted
    simp only [current, ne_eq, not_true_eq_false, if_false, role]
    split
    · exact Ensures.bind (P := fun _ => True)
        ⟨fun _ _ => trivial, fun _ => LeaderLease.recordAck_returns reach⟩ fun _ _ => .pure trivial
    · exact .pure trivial
  exact hreply.returns trivial

/-! ## What a request leaves of the record -/

theorem asFollower_record (n : Node) (leader? : Option NodeId) (now : Instant) (draw : Nat) :
    (n.asFollower leader? now draw).record = n.record := by
  unfold asFollower
  split <;> rfl

theorem following_record (n : Node) (q : AppendRequest) (now : Instant) (draw : Nat) :
    (n.following q now draw).record = n.record :=
  asFollower_record n _ now draw

/-- Following a leader changes nothing about what fits. -/
theorem accepts_following {q : AppendRequest} (current : q.term = n.record.currentTerm)
    (now : Instant) (draw : Nat) :
    (n.following q now draw).accepts q = n.record.log.holds q.prevIndex q.prevTerm := by
  rw [accepts, following_record, current, beq_self_eq_true, Bool.true_and]

theorem commitTo_record (n : Node) (length : LogIndex) :
    (n.commitTo length).record =
      { n.record with commitLength := max n.record.commitLength length } := by
  unfold commitTo
  split
  · next more => rw [Nat.max_eq_right (Nat.le_of_lt more)]; rfl
  · next less => rw [Nat.max_eq_left (Nat.le_of_not_lt less)]

theorem takeEntriesBehind_record (n : Node) (prev : LogIndex) (entries : List LogEntry) :
    (n.takeEntriesBehind prev entries).record =
      { n.record with log := n.record.log.splice prev entries } := by
  unfold takeEntriesBehind
  simp only []
  split
  · next same => rw [same]
  · rfl

theorem accepting_record (n : Node) (q : AppendRequest) :
    (n.accepting q).record = { n.record with
      log := n.record.log.splice q.prevIndex q.entries
      commitLength :=
        max n.record.commitLength (min q.commit (q.prevIndex + q.entries.length)) } := by
  unfold accepting
  rw [commitTo_record, takeEntriesBehind_record]

/-! ## A round, request and answer -/

/-- What a leader becomes when it starts a round, and what it sends. -/
theorem heartbeat_cases (office : n.InOffice l start)
    (h : n.handle .heartbeatTimeout now draw = .ok (n', commands)) :
    ∃ l', n'.InOffice l' now ∧ l'.lease.RenewedBy n.quorum ∧
      l.lease.expiresAt ≤ l'.lease.expiresAt ∧ (∀ p, l'.sentTo? p = l.sentTo? p) ∧
      n'.record.currentTerm = n.record.currentTerm ∧ n'.record.log = n.record.log ∧
      commands = n.roundRequests l' := by
  have hsend : n.sendHeartbeats l now = .ok (n', commands) := by
    rw [handle, heartbeatTimeout, office.role] at h
    exact h
  have hframe := (handle_deeds h).frame
  obtain ⟨lease, hbegun, rfl, rfl⟩ := sendHeartbeats_eq hsend
  obtain ⟨_, hduration, _, hstart, _⟩ := LeaderLease.beginRound_ok hbegun
  obtain ⟨hrole, _, hterm, hlog⟩ := (n.inRound l lease now).commitTo_same
    ((n.inRound l lease now).record.log.commitPoint _ _ _)
  refine ⟨_, ⟨hrole, ?_, hstart, ?_, fun p hp => office.rows p (hframe.peers ▸ hp)⟩,
    LeaderLease.beginRound_renewedBy hbegun, (LeaderLease.beginRound_expiresAt hbegun).1,
    fun _ => rfl, hterm, hlog, rfl⟩
  · rw [hframe.config]
  · rw [hframe.config]
    exact hduration.trans office.duration

/-- A follower tells the leader of its term whether the entries fit. -/
theorem answer_cases {q : AppendRequest} (role : n.role = .follower f)
    (current : q.term = n.record.currentTerm)
    (h : n.handleMessage sender (.appendRequest q) now draw = .ok (n', commands)) :
    ∃ r : AppendReply, commands = [.send sender (.appendReply r)] ∧ r.term = q.term ∧
      q.Answered n.record.log n'.record.log r := by
  have hrecord := n.following_record q now draw
  have haccepts := accepts_following current now draw
  have hsilent : ∀ leader?, n.farewell leader? = [] := fun _ => by rw [farewell, role]
  cases handleMessage_response h (Nat.le_of_eq current) with
  | reject stale => exact absurd current (Nat.ne_of_lt stale)
  | refuse _ refused =>
      rw [hsilent, List.nil_append]
      refine ⟨_, rfl, current.symm, ?_⟩
      rw [hrecord]
      exact .refused (haccepts ▸ refused) rfl
  | accept _ accepted =>
      rw [hsilent, List.nil_append, accepting_record, hrecord]
      exact ⟨_, rfl, current.symm, .confirmed (haccepts ▸ accepted) rfl rfl rfl⟩

/-- A leader goes on where the answer of a peer tells it to. -/
theorem note_cases {r : AppendReply} (role : n.role = .leader l)
    (current : r.term = n.record.currentTerm)
    (h : n.handleMessage sender (.appendReply r) now draw = .ok (n', commands)) :
    n'.record.log = n.record.log ∧ commands = [] ∧
      ∃ l', n'.role = .leader l' ∧ l.Kept n.quorum l' ∧
        (∀ p, p ≠ sender → l'.sentTo? p = l.sentTo? p) ∧
        (∀ sent, l.sentTo? sender = some sent →
          l'.sentTo? sender = some (if r.success then r.acked else sent - 1)) ∧
        (r.success = true → r.round = l.lease.round → sender ∈ l'.lease.acks) := by
  cases handleMessage_response h (Nat.le_of_eq current) with
  | ignore idle =>
      exact nomatch (idle current).symm.trans (isLeader_iff.mpr ⟨l, role⟩)
  | @note l₀ _ lease renewed role' _ success recorded =>
      obtain rfl := Role.leader.inj (role.symm.trans role')
      obtain ⟨hrole, _, _, hlog⟩ := commitTo_same
        ({ n with role := .leader { l.recordSuccess sender r.acked with lease } })
        (n.record.log.commitPoint _ _ _)
      refine ⟨hlog, rfl, _, hrole, kept_of_recordAck recorded, fun p hp => ?_, fun sent hsent => ?_,
        fun _ hround => LeaderLease.mem_acks_of_recordAck recorded hround⟩
      · exact Leader.sentTo?_recordSuccess_of_ne hp r.acked
      · rw [success]
        exact Leader.sentTo?_recordSuccess hsent r.acked
  | @lower l₀ _ role' _ failure =>
      obtain rfl := Role.leader.inj (role.symm.trans role')
      refine ⟨rfl, rfl, _, rfl, .of_recordFailure _ l sender, fun p hp => ?_, fun sent hsent => ?_,
        fun success => (nomatch success.symm.trans failure)⟩
      · exact Leader.sentTo?_recordFailure_of_ne hp
      · rw [failure]
        exact Leader.sentTo?_recordFailure hsent

end Node

end Quorum
