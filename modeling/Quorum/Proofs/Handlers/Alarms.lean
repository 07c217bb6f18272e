import Quorum.Proofs.Handlers.Counting

/-!
# Timers that are due

A timer that fires may arm one that is due at once: standing for election arms
the timer of a vote round, which may have no length at all. Every other deadline
lies ahead by at least the configuration's `respite`. So within any shorter time
few timers fire, however much is due at its start (`Node.Fired.alarms_lt`).
-/

namespace Quorum

namespace TimerConfig

variable {config : TimerConfig}

/-- The least time by which any deadline but that of a vote round lies ahead when
it is set. -/
def respite (config : TimerConfig) : Duration := min config.electionMin config.heartbeat

theorem respite_pos (valid : config.validate = .ok ()) : 0 < config.respite := by
  obtain ⟨⟨helection, _⟩, hheartbeat, _⟩ := validate_ok_iff.mp valid
  exact Nat.lt_min.mpr ⟨helection, hheartbeat⟩

theorem respite_le_electionTimeout (config : TimerConfig) (draw : Nat) :
    config.respite ≤ config.electionTimeout draw :=
  Nat.le_trans (Nat.min_le_left _ _) (config.electionMin_le draw)

theorem respite_le_heartbeat (config : TimerConfig) : config.respite ≤ config.heartbeat :=
  Nat.min_le_right _ _

theorem respite_le_lease (valid : config.validate = .ok ()) : config.respite ≤ config.lease := by
  obtain ⟨_, _, hlease⟩ := validate_ok_iff.mp valid
  exact Nat.le_trans config.respite_le_heartbeat (Nat.le_of_lt hlease)

end TimerConfig

namespace Node

variable {now last : Instant} {draw : Nat} {n n' n₁ : Node} {f : Follower} {c : Candidate}
  {l : Leader} {timer : Timer}

/-! ## Deadlines -/

theorem nextDeadline_follower (role : n.role = .follower f) : n.nextDeadline = f.electionAt := by
  rw [nextDeadline, role]

theorem nextDeadline_candidate (role : n.role = .candidate c) : n.nextDeadline = c.deadline := by
  rw [nextDeadline, role]

theorem nextDeadline_leader (role : n.role = .leader l) :
    n.nextDeadline = min l.heartbeatAt l.lease.expiresAt := by
  rw [nextDeadline, role]

theorem dueTimer?_eq_none_iff : n.dueTimer? now = none ↔ now < n.nextDeadline := by
  cases role : n.role with
  | follower f =>
      rw [dueTimer?, role, nextDeadline_follower role]
      simp
  | candidate c =>
      rw [dueTimer?, role, nextDeadline_candidate role]
      simp
  | leader l =>
      rw [dueTimer?, role, nextDeadline_leader role, Nat.lt_min]
      simp only [LeaderLease.isExpired, decide_eq_true_eq]
      split
      · next expired =>
          exact iff_of_false (fun h => nomatch h) fun h => Nat.not_le.mpr h.2 expired
      · next lasts =>
          split
          · next beats =>
              exact iff_of_false (fun h => nomatch h) fun h => Nat.not_le.mpr h.1 beats
          · next waits => exact iff_of_true rfl ⟨Nat.not_le.mp waits, Nat.not_le.mp lasts⟩

/-- Some timer is due once the next deadline has come. -/
theorem dueTimer?_isSome_iff : (n.dueTimer? now).isSome = true ↔ n.nextDeadline ≤ now := by
  rw [← Nat.not_lt, ← dueTimer?_eq_none_iff, ← Option.not_isSome_iff_eq_none, Decidable.not_not]

theorem nextDeadline_le (due : n.dueTimer? now = some timer) : n.nextDeadline ≤ now :=
  dueTimer?_isSome_iff.mp (Option.isSome_of_eq_some due)

theorem nextDeadline_of_role (role : n'.role = n.role) : n'.nextDeadline = n.nextDeadline := by
  rw [nextDeadline, role, nextDeadline]

/-! ## How many timers can fire -/

/-- How many timers can still fire until `last`, if that is soon. Whoever neither
leads nor counts votes may stand for election and see the vote round end. -/
def alarms (n : Node) (last : Instant) : Nat :=
  match n.role with
  | .follower f => if f.electionAt ≤ last then 2 else 0
  | .candidate c => if c.deadline ≤ last then if c.tallying then 1 else 2 else 0
  | .leader l =>
    (if l.heartbeatAt ≤ last then 1 else 0) + if l.lease.expiresAt ≤ last then 1 else 0

theorem alarms_le_two (n : Node) (last : Instant) : n.alarms last ≤ 2 := by
  unfold alarms
  split
  · split <;> omega
  · split
    · split <;> omega
    · omega
  · split <;> split <;> omega

theorem alarms_leader (role : n.role = .leader l) (last : Instant) : n.alarms last =
    (if l.heartbeatAt ≤ last then 1 else 0) + if l.lease.expiresAt ≤ last then 1 else 0 := by
  rw [alarms, role]

theorem alarms_of_counting (role : n.role = .candidate c) (tallying : c.tallying = true)
    (last : Instant) : n.alarms last ≤ 1 := by
  rw [alarms, role]
  simp only [tallying, if_true]
  split <;> omega

theorem alarms_of_idle (free : n.Idle) (due : n.nextDeadline ≤ last) : n.alarms last = 2 := by
  cases role : n.role with
  | follower f =>
      rw [nextDeadline_follower role] at due
      simp only [alarms, role, if_pos due]
  | candidate c =>
      rw [nextDeadline_candidate role] at due
      simp only [alarms, role, if_pos due, free.2 c role, Bool.false_eq_true, if_false]
  | leader l => exact (free.not_leader role).elim

theorem alarms_eq_zero_iff : n.alarms last = 0 ↔ last < n.nextDeadline := by
  cases role : n.role with
  | follower f =>
      rw [alarms, role, nextDeadline_follower role]
      simp
  | candidate c =>
      rw [alarms, role, nextDeadline_candidate role, ← Nat.not_le]
      cases hc : c.tallying <;> simp [hc]
  | leader l =>
      rw [alarms_leader role, nextDeadline_leader role, Nat.lt_min]
      simp

theorem lt_nextDeadline (spent : n.alarms last ≤ 0) : last < n.nextDeadline :=
  alarms_eq_zero_iff.mp (Nat.le_zero.mp spent)

/-! ## What a timer leaves behind -/

/-- What a timer that was due at `now` has made of a node. -/
inductive Rearmed (now : Instant) (n n' : Node) : Prop
  /-- It counts votes of others, in a round that may be over at once. -/
  | counting {c : Candidate} (free : n.Idle) (others : n.peers ≠ [])
      (role : n'.role = .candidate c) (tallying : c.tallying = true)
  /-- It is left in peace for a while. -/
  | rested (later : now + n.config.respite ≤ n'.nextDeadline)
  /-- It goes on leading. Its next round lies ahead, and its lease, which has not
  run out, ends no sooner than before. -/
  | leading {l l' : Leader} (role : n.role = .leader l) (beats : l.heartbeatAt ≤ now)
      (holds : now < l.lease.expiresAt) (role' : n'.role = .leader l')
      (later : now + n.config.respite ≤ l'.heartbeatAt)
      (lasts : l.lease.expiresAt ≤ l'.lease.expiresAt)

theorem Rearmed.of_role (h : Rearmed now n n₁) (same : n'.role = n₁.role) : Rearmed now n n' := by
  cases h with
  | counting free others role tallying =>
      exact .counting free others (same.trans role) tallying
  | rested later => exact .rested (nextDeadline_of_role same ▸ later)
  | leading role beats holds role' later lasts =>
      exact .leading role beats holds (same.trans role') later lasts

/-- A timer that was due at `now` has fired. -/
structure Fired (now : Instant) (n n' : Node) : Prop where
  config : n'.config = n.config
  peers : n'.peers = n.peers
  rearmed : Rearmed now n n'

/-- Before the respite after it is over, each timer that fires leaves fewer to
fire. -/
theorem Fired.alarms_lt (h : Fired now n n') (due : n.nextDeadline ≤ now)
    (timely : now ≤ last) (soon : last < now + n.config.respite) :
    n'.alarms last < n.alarms last := by
  have hdue : n.nextDeadline ≤ last := Nat.le_trans due timely
  cases h.rearmed with
  | counting free others role tallying =>
      rw [alarms_of_idle free hdue]
      exact Nat.lt_succ_of_le (alarms_of_counting role tallying last)
  | rested later =>
      rw [alarms_eq_zero_iff.mpr (Nat.lt_of_lt_of_le soon later)]
      refine Nat.pos_of_ne_zero fun hzero => ?_
      exact Nat.not_le.mpr (alarms_eq_zero_iff.mp hzero) hdue
  | @leading l l' role beats holds role' later lasts =>
      -- The round that was due is gone; the lease runs out no sooner than before.
      have hlease : (if l'.lease.expiresAt ≤ last then 1 else 0) ≤
          if l.lease.expiresAt ≤ last then 1 else 0 := by
        split
        · next ends => exact Nat.le_of_eq (if_pos (Nat.le_trans lasts ends)).symm
        · exact Nat.zero_le _
      rw [alarms_leader role, alarms_leader role', if_pos (Nat.le_trans beats timely),
        if_neg (Nat.not_le.mpr (Nat.lt_of_lt_of_le soon later)), Nat.zero_add, Nat.add_comm]
      exact Nat.lt_succ_of_le hlease

theorem Fired.alarms_le {count : Nat} (h : Fired now n n') (valid : n.config.validate = .ok ())
    (due : n.nextDeadline ≤ now) (bound : n.alarms now ≤ count + 1) : n'.alarms now ≤ count := by
  have hlt := h.alarms_lt due (Nat.le_refl now)
    (Nat.lt_add_of_pos_right (TimerConfig.respite_pos valid))
  exact Nat.le_of_lt_succ (Nat.lt_of_lt_of_le hlt bound)

/-! ## Firing -/

/-- No deadline that a timer of the node sets at `now` lies past the end of the
clock. Only a node without peers looks further ahead than the longest configured
time: it wins as soon as it stands, and then waits for earlier leases. -/
structure InReach (n : Node) (now : Instant) : Prop where
  longest : now + n.config.longest < Instant.limit
  window : n.peers = [] → max now n.priorLease.endsAt + n.config.lease < Instant.limit
  renewal : n.peers = [] → ∀ l, n.role = .leader l → now + l.lease.duration < Instant.limit

theorem InReach.of_peers (longest : now + n.config.longest < Instant.limit)
    (peers : n.peers ≠ []) : n.InReach now :=
  ⟨longest, fun alone => absurd alone peers, fun alone => absurd alone peers⟩

/-- What is due right after a timer has fired can fire as well. -/
theorem Fired.inReach (h : Fired now n n') (valid : n.config.validate = .ok ())
    (reach : n.InReach now) (due : n'.nextDeadline ≤ now) : n'.InReach now := by
  have hrespite : now < now + n.config.respite :=
    Nat.lt_add_of_pos_right (TimerConfig.respite_pos valid)
  cases h.rearmed with
  | counting free others role tallying =>
      exact .of_peers (h.config ▸ reach.longest) (h.peers ▸ others)
  | rested later => exact absurd due (Nat.not_le.mpr (Nat.lt_of_lt_of_le hrespite later))
  | leading role beats holds role' later lasts =>
      rw [nextDeadline_leader role'] at due
      refine absurd due (Nat.not_le.mpr (Nat.lt_min.mpr ⟨?_, ?_⟩))
      · exact Nat.lt_of_lt_of_le hrespite later
      · exact Nat.lt_of_lt_of_le holds lasts

theorem rested_of_lead (n : Node) (role : n'.role = .leader l)
    (beats : now + n.config.respite ≤ l.heartbeatAt)
    (lasts : now + n.config.respite ≤ l.lease.expiresAt) : Rearmed now n n' := by
  refine .rested ?_
  rw [nextDeadline_leader role]
  exact Nat.le_min.mpr ⟨beats, lasts⟩

theorem loseElection_ensures (n : Node) (c : Candidate) (now : Instant) (draw : Nat) :
    Ensures (now + n.config.longest < Instant.limit) (n.loseElection c now draw)
      fun n' => Rearmed now n n' := by
  refine ⟨fun n' h => ?_, loseElection_returns⟩
  obtain rfl := loseElection_eq h
  exact .rested (Nat.add_le_add_left (n.config.respite_le_electionTimeout draw) _)

/-- A candidate's own vote is a majority only where there is nobody else. -/
theorem alone_of_majority {id : NodeId} {deadline : Instant} {prior : Duration}
    (majority : (Candidate.stand id deadline prior).hasMajority n.clusterSize = true) :
    n.peers = [] := by
  have hvotes : (n.peers.length + 1) / 2 + 1 ≤ 1 := of_decide_eq_true majority
  exact List.eq_nil_of_length_eq_zero (by omega)

theorem startElection_ensures (valid : n.config.validate = .ok ()) (free : n.Idle) :
    Ensures (n.InReach now) (n.startElection now draw) fun (n', _) => Rearmed now n n' := by
  constructor
  · intro (n', commands) hstart
    obtain ⟨deadline, _, h⟩ := exists_of_bind_ok hstart
    obtain ⟨⟨elected, more⟩, htally, h⟩ := exists_of_bind_ok h
    obtain ⟨rfl, rfl⟩ := h
    obtain ⟨lease₀, lease, _, granted, begun, rfl, _⟩ | ⟨rfl, _⟩ | ⟨rfl, _⟩ := tally_cases htally
    · have hlasts : now + n.config.respite ≤ lease.expiresAt := by
        refine Nat.le_trans ?_ (LeaderLease.beginRound_expiresAt begun).1
        rw [LeaderLease.grant_expiresAt granted]
        exact Nat.add_le_add (Nat.le_add_right _ _) (TimerConfig.respite_le_lease valid)
      exact rested_of_lead n (advanceCommit_same _ _).1
        (Nat.add_le_add_left n.config.respite_le_heartbeat _) hlasts
    · exact .rested (Nat.add_le_add_left (n.config.respite_le_electionTimeout draw) _)
    -- Without peers the own vote would have been enough, and nothing is tallied.
    · refine .counting free (fun alone => ?_) rfl rfl
      exact Bool.false_ne_true (stand_alone free alone ((electionTimeout_stands free).trans hstart))
  · intro reach
    have hrpc : now + n.config.rpc < Instant.limit :=
      Nat.lt_of_le_of_lt (Nat.add_le_add_left n.config.rpc_le_longest _) reach.longest
    have hdecides : ∀ k : Node, k.peers = n.peers → k.config = n.config → ∀ deadline,
        ∃ result, k.tally (.stand n.id deadline (n.priorLease.remaining now)) now draw =
          .ok result := by
      intro k hpeers hconfig deadline
      refine (tally_returns_iff (hconfig ▸ reach.longest)).mpr fun majority => ?_
      have hwindow := reach.window (hpeers ▸ alone_of_majority majority)
      rw [hconfig]
      exact PriorLease.add_remaining n.priorLease now ▸ hwindow
    have hstart : Ensures True (n.startElection now draw) fun _ => True :=
      ((Instant.after_ensures now n.config.rpc).weaken fun _ => hrpc).bind fun deadline _ =>
        Ensures.bind ⟨fun _ _ => trivial, fun _ => hdecides (n.withRecord _) rfl rfl deadline⟩
          fun _ _ => .pure trivial
    exact hstart.returns trivial

theorem sendHeartbeats_ensures (role : n.role = .leader l) (beats : l.heartbeatAt ≤ now)
    (holds : now < l.lease.expiresAt) :
    Ensures (n.InReach now) (n.sendHeartbeats l now) fun (n', _) => Rearmed now n n' := by
  refine ⟨fun (n', commands) h => ?_, fun reach => sendHeartbeats_returns reach.longest ?_⟩
  · obtain ⟨lease, begun, rfl, _⟩ := sendHeartbeats_eq h
    exact .leading role beats holds (advanceCommit_same _ _).1
      (Nat.add_le_add_left n.config.respite_le_heartbeat _)
      (LeaderLease.beginRound_expiresAt begun).1
  · by_cases peers : n.peers = []
    · exact .inl (reach.renewal peers l role)
    · exact .inr (one_lt_quorum peers)

theorem voteRoundTimeout_ensures (role : n.role = .candidate c) (tallying : c.tallying = true)
    (passed : c.deadline ≤ now) :
    Ensures (n.InReach now) (n.voteRoundTimeout now draw) fun (n', _) => Rearmed now n n' := by
  have hpassed : (c.tallying && decide (c.deadline ≤ now)) = true := by
    rw [tallying, Bool.true_and]
    exact decide_eq_true passed
  rw [voteRoundTimeout, role]
  simp only [hpassed, if_true]
  exact ((loseElection_ensures n c now draw).weaken InReach.longest).bind fun lost h => .pure h

theorem leaseTimeout_ensures (role : n.role = .leader l) (expired : l.lease.isExpired now = true) :
    Ensures (n.InReach now) (n.leaseTimeout now draw) fun (n', _) => Rearmed now n n' := by
  rw [leaseTimeout, role]
  simp only [expired, if_true]
  refine ⟨fun (n', commands) h => ?_, fun reach => stepDown_returns reach.longest⟩
  obtain ⟨rfl, _⟩ := stepDown_eq h
  refine .rested ?_
  rw [nextDeadline, asFollower, role]
  exact Nat.add_le_add_left (n.config.respite_le_electionTimeout draw) _

/-- A timer that is due does what it is there for. -/
theorem due_ensures (valid : n.config.validate = .ok ()) (due : n.dueTimer? now = some timer) :
    Ensures (n.InReach now) (n.handle timer.event now draw) fun (n', _) => Rearmed now n n' := by
  have hstands : n.Idle → Ensures (n.InReach now) (n.handle Timer.election.event now draw)
      fun (n', _) => Rearmed now n n' := fun free =>
    (electionTimeout_stands free).symm ▸ startElection_ensures valid free
  cases role : n.role with
  | follower f =>
      rw [dueTimer?, role] at due
      obtain ⟨_, rfl⟩ := Option.ite_some_none_eq_some.mp due
      exact hstands (.of_follower role)
  | candidate c =>
      rw [dueTimer?, role] at due
      obtain ⟨passed, rfl⟩ := Option.ite_some_none_eq_some.mp due
      cases tallying : c.tallying with
      | false => exact hstands (.of_candidate role tallying)
      | true => exact voteRoundTimeout_ensures role tallying passed
  | leader l =>
      rw [dueTimer?, role] at due
      simp only [] at due
      split at due
      · next expired =>
          obtain rfl := Option.some.inj due
          exact leaseTimeout_ensures role expired
      · next holds =>
          obtain ⟨beats, rfl⟩ := Option.ite_some_none_eq_some.mp due
          have hholds : now < l.lease.expiresAt := by
            rw [LeaderLease.isExpired, decide_eq_true_eq] at holds
            exact Nat.not_le.mp holds
          show Ensures _ (n.heartbeatTimeout now) _
          rw [heartbeatTimeout, role]
          exact sendHeartbeats_ensures role beats hholds

theorem fire_ensures (valid : n.config.validate = .ok ()) (due : n.dueTimer? now = some timer) :
    Ensures (n.InReach now) (n.handle timer.event now draw) fun (n', _) => Fired now n n' :=
  (due_ensures valid due).self.mono fun _ ⟨hnode, hrearmed⟩ =>
    ⟨(handle_deeds hnode).frame.config, (handle_deeds hnode).frame.peers, hrearmed⟩

end Node

end Quorum
