import Quorum.Proofs.Handlers.Timing
import Quorum.Proofs.Run.Basic

/-!
# What hearing a message does to each role

No message makes a leader of a node that stands for nothing. A follower that
hears from the leader of its term waits anew, a leader stays one unless
somebody else leads its term, and a candidate wins at most by a reply.
-/

namespace Quorum

theorem TimerConfig.electionMin_le (config : TimerConfig) (draw : Nat) :
    config.electionMin ≤ config.electionTimeout draw := by
  unfold electionTimeout
  split
  · exact Nat.le_refl _
  · exact Nat.le_add_right _ _

/-! ## What stays of a lease -/

namespace LeaderLease

variable {l l' : LeaderLease} {now : Instant} {duration prior : Duration} {quorum round : Nat}
  {peer : NodeId} {renewed : Bool}

theorem grant_expiresAt (h : grant now duration prior = .ok l) :
    l.expiresAt = now + prior + duration := by
  obtain ⟨barrier, hbarrier, h⟩ := exists_of_bind_ok h
  obtain ⟨expiresAt, hexpires, h⟩ := exists_of_bind_ok h
  obtain ⟨rfl, _⟩ := Instant.after_ok hbarrier
  obtain ⟨rfl, _⟩ := Instant.after_ok hexpires
  obtain rfl := Except.ok.inj h
  rfl

/-- A renewal by a quorum reaches a whole lease behind the start of the round,
and none takes anything away. -/
theorem renew_expiresAt (h : l.renew quorum = .ok (l', renewed)) :
    l.expiresAt ≤ l'.expiresAt ∧
      (quorum ≤ l.acks.length + 1 → l.roundStartedAt + l.duration ≤ l'.expiresAt) := by
  unfold renew at h
  split at h
  · next hfew =>
      obtain ⟨rfl, rfl⟩ := h
      exact ⟨Nat.le_refl _, fun h => absurd hfew (Nat.not_lt.mpr h)⟩
  · obtain ⟨expiresAt, hexpires, h⟩ := exists_of_bind_ok h
    obtain ⟨rfl, _⟩ := Instant.after_ok hexpires
    obtain ⟨rfl, rfl⟩ := h
    exact ⟨Nat.le_max_left _ _, fun _ => Nat.le_max_right _ _⟩

theorem beginRound_expiresAt (h : l.beginRound now quorum = .ok l') :
    l.expiresAt ≤ l'.expiresAt ∧ (quorum ≤ 1 → now + l.duration ≤ l'.expiresAt) := by
  obtain ⟨⟨l'', renewed⟩, hrenew, h⟩ := exists_of_bind_ok h
  obtain rfl := Except.ok.inj h
  exact renew_expiresAt hrenew

/-- Once a quorum has acknowledged the latest round, the lease reaches as far
as that round carries it. -/
def RenewedBy (l : LeaderLease) (quorum : Nat) : Prop :=
  quorum ≤ l.acks.length + 1 → l.roundStartedAt + l.duration ≤ l.expiresAt

theorem beginRound_renewedBy (h : l.beginRound now quorum = .ok l') : l'.RenewedBy quorum := by
  intro hquorum
  obtain ⟨_, hduration, _, hstart, hacks⟩ := beginRound_ok h
  rw [hacks] at hquorum
  rw [hduration, hstart]
  exact (beginRound_expiresAt h).2 hquorum

theorem recordAck_expiresAt (h : l.recordAck peer round quorum = .ok (l', renewed)) :
    l.expiresAt ≤ l'.expiresAt := by
  unfold recordAck at h
  split at h
  · exact (renew_expiresAt h).1
  · obtain ⟨rfl, rfl⟩ := h
    exact Nat.le_refl _

theorem RenewedBy.recordAck (hl : l.RenewedBy quorum)
    (h : l.recordAck peer round quorum = .ok (l', renewed)) : l'.RenewedBy quorum := by
  unfold LeaderLease.recordAck at h
  split at h
  · intro hquorum
    obtain ⟨_, hduration, _, hstart, hacks⟩ := renew_ok h
    rw [hacks] at hquorum
    rw [hduration, hstart]
    exact (renew_expiresAt h).2 hquorum
  · obtain ⟨rfl, rfl⟩ := h
    exact hl

/-- Who acknowledges the latest round has acknowledged it. -/
theorem mem_acks_of_recordAck (h : l.recordAck peer round quorum = .ok (l', renewed))
    (latest : round = l.round) : peer ∈ l'.acks := by
  unfold LeaderLease.recordAck at h
  split at h
  · rw [(renew_ok h).2.2.2.2]
    exact List.mem_cons_self
  · next hno =>
      obtain ⟨rfl, rfl⟩ := h
      exact Decidable.not_not.mp fun hnew => hno ⟨latest, hnew⟩

end LeaderLease

/-! ## The rows of a leader -/

namespace Leader

variable {l l' : Leader} {p peer : NodeId} {sent : LogIndex} {quorum : Nat}

theorem sentTo?_updatePeer {change : PeerProgress → PeerProgress}
    (same : ∀ row, (change row).peer = row.peer) :
    (l.updatePeer peer change).sentTo? p =
      (l.progress.find? (·.peer == p)).map fun row =>
        (if row.peer = peer then change row else row).sent := by
  have hpeer : ((fun row : PeerProgress => row.peer == p) ∘
      fun row => if row.peer = peer then change row else row) = (·.peer == p) := by
    funext row
    show ((if row.peer = peer then change row else row).peer == p) = (row.peer == p)
    split
    · rw [same]
    · rfl
  unfold sentTo? updatePeer
  rw [List.find?_map, hpeer, Option.map_map]
  rfl

theorem sentTo?_updatePeer_of_ne {change : PeerProgress → PeerProgress}
    (same : ∀ row, (change row).peer = row.peer) (hne : p ≠ peer) :
    (l.updatePeer peer change).sentTo? p = l.sentTo? p := by
  rw [sentTo?_updatePeer same, sentTo?]
  cases hrow : l.progress.find? (·.peer == p) with
  | none => rfl
  | some row =>
      have hp : row.peer = p := by simpa using List.find?_some hrow
      rw [Option.map_some, Option.map_some, if_neg (hp ▸ hne)]

theorem sentTo?_updatePeer_self (change : PeerProgress → PeerProgress)
    (same : ∀ row, (change row).peer = row.peer) (h : l.sentTo? p = some sent) :
    ∃ row : PeerProgress, row.sent = sent ∧
      (l.updatePeer p change).sentTo? p = some (change row).sent := by
  obtain ⟨row, hrow, hsent⟩ := Option.map_eq_some_iff.mp h
  have hp : row.peer = p := by simpa using List.find?_some hrow
  refine ⟨row, hsent, ?_⟩
  rw [sentTo?_updatePeer same, hrow, Option.map_some, if_pos hp]

theorem sentTo?_recordSuccess (h : l.sentTo? p = some sent) (length : LogIndex) :
    (l.recordSuccess p length).sentTo? p = some length := by
  obtain ⟨row, _, hrow⟩ := sentTo?_updatePeer_self
    (fun row => { row with sent := length, acked := max row.acked length }) (fun _ => rfl) h
  exact hrow

theorem sentTo?_recordFailure (h : l.sentTo? p = some sent) :
    (l.recordFailure p).sentTo? p = some (sent - 1) := by
  obtain ⟨row, rfl, hrow⟩ := sentTo?_updatePeer_self
    (fun row => { row with sent := row.sent - 1 }) (fun _ => rfl) h
  exact hrow

theorem sentTo?_recordSuccess_of_ne (hne : p ≠ peer) (length : LogIndex) :
    (l.recordSuccess peer length).sentTo? p = l.sentTo? p :=
  sentTo?_updatePeer_of_ne (fun _ => rfl) hne

theorem sentTo?_recordFailure_of_ne (hne : p ≠ peer) :
    (l.recordFailure peer).sentTo? p = l.sentTo? p :=
  sentTo?_updatePeer_of_ne (fun _ => rfl) hne

theorem sentTo?_start {peers : List NodeId} {length : LogIndex} {heartbeatAt : Instant}
    {lease : LeaderLease} (h : p ∈ peers) :
    (start peers length heartbeatAt lease).sentTo? p = some length := by
  have hrow : ((distinct peers).map fun peer => (⟨peer, length, 0⟩ : PeerProgress)).find?
      (·.peer == p) = some ⟨p, length, 0⟩ := by
    rw [List.find?_map]
    cases hfound : (distinct peers).find? ((·.peer == p) ∘ fun peer =>
        (⟨peer, length, 0⟩ : PeerProgress)) with
    | none => exact absurd (List.find?_eq_none.mp hfound p (mem_distinct.mpr h)) (by simp)
    | some a =>
        obtain rfl : a = p := by simpa using List.find?_some hfound
        rfl
  rw [sentTo?, start, hrow]
  rfl

/-- What a leader keeps while it hears from its peers. -/
structure Kept (quorum : Nat) (l l' : Leader) : Prop where
  heartbeatAt : l'.heartbeatAt = l.heartbeatAt
  roundStartedAt : l'.lease.roundStartedAt = l.lease.roundStartedAt
  duration : l'.lease.duration = l.lease.duration
  round : l'.lease.round = l.lease.round
  expiresAt : l.lease.expiresAt ≤ l'.lease.expiresAt
  acks : l.lease.acks ⊆ l'.lease.acks
  renewed : l.lease.RenewedBy quorum → l'.lease.RenewedBy quorum

theorem Kept.refl (quorum : Nat) (l : Leader) : l.Kept quorum l :=
  ⟨rfl, rfl, rfl, rfl, Nat.le_refl _, List.Subset.refl _, id⟩

theorem Kept.of_recordFailure (quorum : Nat) (l : Leader) (peer : NodeId) :
    l.Kept quorum (l.recordFailure peer) :=
  ⟨rfl, rfl, rfl, rfl, Nat.le_refl _, List.Subset.refl _, id⟩

end Leader

namespace Node

variable {now start : Instant} {draw : Nat} {n n' : Node} {sender : NodeId} {message : Message}
  {commands said : List Command} {l : Leader} {c : Candidate} {f : Follower} {p : NodeId}
  {sent : LogIndex} {i : NodeId}

/-! ## Roles and terms -/

/-- The node neither leads nor counts votes. -/
def Idle (n : Node) : Prop :=
  n.isLeader = false ∧ ∀ c, n.role = .candidate c → c.tallying = false

theorem Idle.of_follower (role : n.role = .follower f) : n.Idle := by
  exact ⟨isLeader_of_follower role, fun c hc => nomatch role.symm.trans hc⟩

theorem Idle.of_candidate (role : n.role = .candidate c) (closed : c.tallying = false) :
    n.Idle := by
  refine ⟨isLeader_of_candidate role, fun d hd => ?_⟩
  obtain rfl := Role.candidate.inj (role.symm.trans hd)
  exact closed

theorem Idle.not_leader (h : n.Idle) (role : n.role = .leader l) : False :=
  nomatch h.1.symm.trans (isLeader_iff.mpr ⟨l, role⟩)

theorem Idle.of_role (h : n.Idle) (role : n'.role = n.role) : n'.Idle := by
  unfold Idle isLeader at *
  rw [role]
  exact h

theorem Response.term (h : Response now draw n sender message n' said) :
    n'.record.currentTerm = n.record.currentTerm := by
  cases h with
  | grant grants => exact voteFor_term n _
  | deny grants => rfl
  | discard idle => rfl
  | count role tallying current => rfl
  | lose role tallying current => rfl
  | win role tallying current majority granted begun => exact (commitTo_same _ _).2.2.1
  | reject stale => rfl
  | refuse current accepts => exact following_term n _ now draw
  | accept current accepts => exact (accepting_same _ _).2.2.trans (following_term n _ now draw)
  | ignore idle => rfl
  | note role current success recorded => exact (commitTo_same _ _).2.2.1
  | lower role current failure => rfl

/-- A node is in the newer of its own term and that of the message. -/
theorem handleMessage_term (h : n.handleMessage sender message now draw = .ok (n', commands)) :
    n'.record.currentTerm = max n.record.currentTerm message.term := by
  obtain ⟨n₁, lost, said, hadopt, hresponse, rfl⟩ := handleMessage_responds h
  rw [hresponse.term]
  obtain ⟨newer, rfl, _⟩ | ⟨older, rfl, _⟩ := adoptTerm_cases hadopt
  · rw [inTerm_term, Nat.max_eq_right (Nat.le_of_lt newer)]
  · rw [Nat.max_eq_left older]

theorem le_term_of_handleMessage
    (h : n.handleMessage sender message now draw = .ok (n', commands)) :
    n.record.currentTerm ≤ n'.record.currentTerm :=
  handleMessage_term h ▸ Nat.le_max_left _ _

theorem term_eq_of_handleMessage
    (h : n.handleMessage sender message now draw = .ok (n', commands))
    (older : message.term ≤ n.record.currentTerm) :
    n'.record.currentTerm = n.record.currentTerm :=
  (handleMessage_term h).trans (Nat.max_eq_left older)

theorem handleMessage_response (h : n.handleMessage sender message now draw = .ok (n', commands))
    (older : message.term ≤ n.record.currentTerm) :
    Response now draw n sender message n' commands := by
  obtain ⟨n₁, lost, said, hadopt, hresponse, rfl⟩ := handleMessage_responds h
  obtain ⟨newer, _, _⟩ | ⟨_, rfl, rfl⟩ := adoptTerm_cases hadopt
  · exact absurd older (Nat.not_le.mpr newer)
  · exact hresponse

/-! ## Rounds -/

/-- The request for a peer that is believed to hold `sent` entries. -/
def requestBehind (n : Node) (l : Leader) (sent : LogIndex) : AppendRequest where
  term := n.record.currentTerm
  leader := n.id
  prevIndex := min sent n.lastIndex
  prevTerm := n.record.log.termAt (min sent n.lastIndex)
  entries := n.record.log.drop (min sent n.lastIndex)
  commit := n.record.commitLength
  lease := n.config.lease
  round := l.lease.round

theorem appendRequestFor?_eq (h : l.sentTo? p = some sent) :
    n.appendRequestFor? l p = some (n.requestBehind l sent) := by
  rw [appendRequestFor?, h]
  rfl

theorem mem_roundRequests (hp : p ∈ n.peers) (h : l.sentTo? p = some sent) :
    .send p (.appendRequest (n.requestBehind l sent)) ∈ n.roundRequests l := by
  refine List.mem_filterMap.mpr ⟨p, hp, ?_⟩
  rw [appendRequestFor?_eq h]
  rfl

theorem exists_of_mem_roundRequests {m : InFlight} (hm : m ∈ sends i (n.roundRequests l)) :
    ∃ p ∈ n.peers, ∃ sent, l.sentTo? p = some sent ∧
      m = ⟨i, p, .appendRequest (n.requestBehind l sent)⟩ := by
  obtain ⟨command, hcommand, hsent⟩ := List.mem_filterMap.mp hm
  obtain ⟨p, hp, hmade⟩ := List.mem_filterMap.mp hcommand
  obtain ⟨q, hq, rfl⟩ := Option.map_eq_some_iff.mp hmade
  obtain ⟨sent, hrow, hmade⟩ := Option.bind_eq_some_iff.mp hq
  obtain rfl := Option.some.inj hmade
  obtain rfl := Option.some.inj hsent
  exact ⟨p, hp, sent, hrow, rfl⟩

/-- The node leads, and its latest round began at the given instant. -/
structure InOffice (n : Node) (l : Leader) (start : Instant) : Prop where
  role : n.role = .leader l
  heartbeatAt : l.heartbeatAt = start + n.config.heartbeat
  roundStartedAt : l.lease.roundStartedAt = start
  duration : l.lease.duration = n.config.lease
  rows : ∀ p ∈ n.peers, ∃ sent, l.sentTo? p = some sent

/-! ## Leaders -/

/-- What a leader becomes when a peer confirms what it was sent. -/
theorem kept_of_recordAck {lease : LeaderLease} {renewed : Bool} {r : AppendReply}
    (recorded : l.lease.recordAck sender r.round n.quorum = .ok (lease, renewed)) :
    l.Kept n.quorum { l.recordSuccess sender r.acked with lease } := by
  obtain ⟨_, hduration, hround, hstart, hacks⟩ := LeaderLease.recordAck_ok recorded
  refine ⟨rfl, hstart, hduration, hround, LeaderLease.recordAck_expiresAt recorded,
    fun p hp => ?_, fun h => h.recordAck recorded⟩
  rcases hacks with hsame | ⟨hcons, _⟩
  · exact hsame ▸ hp
  · exact hcons ▸ List.mem_cons_of_mem _ hp

/-- A leader goes on as one, unless it hears of another leader of its term. -/
theorem Response.leader (h : Response now draw n sender message n' said)
    (role : n.role = .leader l) :
    n'.Idle ∨ ∃ l', n'.role = .leader l' ∧ l.Kept n.quorum l' ∧
      ∀ p sent, l.sentTo? p = some sent → ∃ sent', l'.sentTo? p = some sent' := by
  have hsame : n'.role = n.role → n'.Idle ∨ ∃ l', n'.role = .leader l' ∧ l.Kept n.quorum l' ∧
      ∀ p sent, l.sentTo? p = some sent → ∃ sent', l'.sentTo? p = some sent' :=
    fun hrole => .inr ⟨l, hrole.trans role, .refl _ l, fun _ sent hsent => ⟨sent, hsent⟩⟩
  cases h with
  | grant grants => exact hsame (voteFor_role n _)
  | deny grants => exact hsame rfl
  | discard idle => exact hsame rfl
  | count role' tallying current => exact nomatch role.symm.trans role'
  | lose role' tallying current => exact nomatch role.symm.trans role'
  | win role' tallying current majority granted begun => exact nomatch role.symm.trans role'
  | reject stale => exact hsame rfl
  | refuse current accepts => exact .inl (.of_follower rfl)
  | accept current accepts => exact .inl (.of_follower (accepting_same _ _).1)
  | ignore idle => exact hsame rfl
  | @note l₀ r lease renewed role' current success recorded =>
      obtain rfl := Role.leader.inj (role.symm.trans role')
      refine .inr ⟨_, (commitTo_same _ _).1, kept_of_recordAck recorded, fun p sent hsent => ?_⟩
      by_cases hp : p = sender
      · subst hp
        exact ⟨r.acked, Leader.sentTo?_recordSuccess hsent r.acked⟩
      · exact ⟨sent, (Leader.sentTo?_recordSuccess_of_ne hp r.acked).trans hsent⟩
  | @lower l₀ r role' current failure =>
      obtain rfl := Role.leader.inj (role.symm.trans role')
      refine .inr ⟨_, rfl, .of_recordFailure _ l sender, fun p sent hsent => ?_⟩
      by_cases hp : p = sender
      · subst hp
        exact ⟨sent - 1, Leader.sentTo?_recordFailure hsent⟩
      · exact ⟨sent, (Leader.sentTo?_recordFailure_of_ne hp).trans hsent⟩

theorem InOffice.kept {quorum : Nat} {l' : Leader} (office : n.InOffice l start)
    (frame : n.Frame n') (role : n'.role = .leader l') (kept : l.Kept quorum l')
    (rows : ∀ p sent, l.sentTo? p = some sent → ∃ sent', l'.sentTo? p = some sent') :
    n'.InOffice l' start where
  role := role
  heartbeatAt := by rw [kept.heartbeatAt, frame.config]; exact office.heartbeatAt
  roundStartedAt := kept.roundStartedAt.trans office.roundStartedAt
  duration := by rw [kept.duration, frame.config]; exact office.duration
  rows p hp := by
    obtain ⟨sent, hsent⟩ := office.rows p (frame.peers ▸ hp)
    exact rows p sent hsent

/-! ## Nodes that stand for nothing -/

theorem Response.idle (h : Response now draw n sender message n' said) (hidle : n.Idle) :
    n'.Idle := by
  have hno : ∀ {c : Candidate}, n.role = .candidate c → c.tallying = true → n'.Idle :=
    fun hrole htallying => nomatch (hidle.2 _ hrole).symm.trans htallying
  cases h with
  | grant grants => exact hidle.of_role (voteFor_role n _)
  | deny grants => exact hidle
  | discard idle => exact hidle
  | count role tallying current => exact hno role tallying
  | lose role tallying current => exact hno role tallying
  | win role tallying current majority granted begun => exact hno role tallying
  | reject stale => exact hidle
  | refuse current accepts => exact .of_follower rfl
  | accept current accepts => exact .of_follower (accepting_same _ _).1
  | ignore idle => exact hidle
  | note role current success recorded => exact (hidle.not_leader role).elim
  | lower role current failure => exact (hidle.not_leader role).elim

/-- No message makes a node stand for anything, and one of a newer term ends
whatever it stood for. -/
theorem handleMessage_idle (h : n.handleMessage sender message now draw = .ok (n', commands))
    (hidle : n.Idle ∨ n.record.currentTerm < message.term) : n'.Idle := by
  obtain ⟨n₁, lost, said, hadopt, hresponse, rfl⟩ := handleMessage_responds h
  refine hresponse.idle ?_
  obtain ⟨_, rfl, _⟩ | ⟨older, rfl, _⟩ := adoptTerm_cases hadopt
  · obtain ⟨f, hf⟩ := n.inTerm_role message.term now draw
    exact .of_follower hf
  · exact hidle.resolve_right (Nat.not_lt.mpr older)

/-! ## Candidates -/

/-- A candidate has just won and started its first round. -/
structure Won (n : Node) (now : Instant) (n' : Node) (said : List Command) : Prop where
  inOffice : ∃ l, n'.InOffice l now ∧ now + n.config.lease ≤ l.lease.expiresAt
  term : n'.record.currentTerm = n.record.currentTerm
  requests : ∀ p ∈ n.peers, ∃ q : AppendRequest, q.term = n.record.currentTerm ∧
    .send p (.appendRequest q) ∈ said

theorem won_of_granted {lease₀ lease : LeaderLease} {prior : Duration}
    (granted : LeaderLease.grant now n.config.lease prior = .ok lease₀)
    (begun : lease₀.beginRound now n.quorum = .ok lease) :
    n.Won now
      ((n.crowned lease now).advanceCommit
        (.start n.peers n.lastIndex (now + n.config.heartbeat) lease))
      ((n.crowned lease now).roundRequests
        (.start n.peers n.lastIndex (now + n.config.heartbeat) lease)) := by
  obtain ⟨_, hduration₀, _, _⟩ := LeaderLease.grant_ok granted
  obtain ⟨_, hduration, _, hstart, _⟩ := LeaderLease.beginRound_ok begun
  obtain ⟨hrole, _, hterm, _⟩ := (n.crowned lease now).commitTo_same
    ((n.crowned lease now).record.log.commitPoint _ _ _)
  have hframe : (n.crowned lease now).Frame ((n.crowned lease now).advanceCommit
      (.start n.peers n.lastIndex (now + n.config.heartbeat) lease)) := commitTo_frame _
  refine ⟨⟨_, ⟨hrole, ?_, hstart, ?_, fun p hp => ?_⟩, ?_⟩, hterm, fun p hp => ?_⟩
  · rw [hframe.config]
    rfl
  · rw [hframe.config]
    exact hduration.trans hduration₀
  · rw [hframe.peers] at hp
    exact ⟨n.lastIndex, Leader.sentTo?_start hp⟩
  · refine Nat.le_trans ?_ (LeaderLease.beginRound_expiresAt begun).1
    rw [LeaderLease.grant_expiresAt granted]
    exact Nat.add_le_add_right (Nat.le_add_right now prior) _
  · exact ⟨_, rfl, mem_roundRequests hp (Leader.sentTo?_start hp)⟩

theorem Response.candidate (h : Response now draw n sender message n' said)
    (role : n.role = .candidate c) (tallying : c.tallying = true) :
    n'.Idle ∨ (∃ c', n'.role = .candidate c' ∧ c'.tallying = true) ∨ n.Won now n' said := by
  have hsame : n'.role = n.role →
      n'.Idle ∨ (∃ c', n'.role = .candidate c' ∧ c'.tallying = true) ∨ n.Won now n' said :=
    fun hrole => .inr (.inl ⟨c, hrole.trans role, tallying⟩)
  cases h with
  | grant grants => exact hsame (voteFor_role n _)
  | deny grants => exact hsame rfl
  | discard idle => exact hsame rfl
  | @count c₀ r role' tallying' current =>
      exact .inr (.inl ⟨_, rfl, (c₀.record_tallying _ _ _).trans tallying'⟩)
  | lose role' tallying' current => exact .inl (.of_candidate rfl rfl)
  | win role' tallying' current majority granted begun =>
      exact .inr (.inr (won_of_granted granted begun))
  | reject stale => exact hsame rfl
  | refuse current accepts => exact .inl (.of_follower rfl)
  | accept current accepts => exact .inl (.of_follower (accepting_same _ _).1)
  | ignore idle => exact hsame rfl
  | note role' current success recorded => exact nomatch role.symm.trans role'
  | lower role' current failure => exact nomatch role.symm.trans role'

/-! ## Followers -/

/-- The node follows in a term, and does not stand for election before an
instant. -/
structure Calm (n : Node) (term : Term) (dawn : Instant) : Prop where
  term : n.record.currentTerm = term
  follows : ∃ f, n.role = .follower f ∧ dawn ≤ f.electionAt

theorem following_calm (n : Node) (q : AppendRequest) (now : Instant) (draw : Nat) :
    (n.following q now draw).Calm n.record.currentTerm (now + n.config.electionMin) :=
  ⟨following_term n q now draw, _, rfl, Nat.add_le_add_left (n.config.electionMin_le draw) now⟩

theorem Calm.of_same {term : Term} {dawn : Instant} (h : n.Calm term dawn)
    (role : n'.role = n.role) (same : n'.record.currentTerm = n.record.currentTerm) :
    n'.Calm term dawn := by
  obtain ⟨f, hrole, hdawn⟩ := h.follows
  exact ⟨same.trans h.term, f, role.trans hrole, hdawn⟩

theorem Calm.mono {term : Term} {dawn dawn' : Instant} (h : n.Calm term dawn)
    (hle : dawn' ≤ dawn) : n.Calm term dawn' := by
  obtain ⟨f, hrole, hdawn⟩ := h.follows
  exact ⟨h.term, f, hrole, Nat.le_trans hle hdawn⟩

theorem Response.calm {term : Term} {dawn : Instant}
    (h : Response now draw n sender message n' said) (calm : n.Calm term dawn)
    (hdawn : dawn ≤ now + n.config.electionMin) : n'.Calm term dawn := by
  obtain ⟨f, role, _⟩ := calm.follows
  have hfollowing : ∀ q, (n.following q now draw).Calm term dawn := fun q =>
    calm.term ▸ (n.following_calm q now draw).mono hdawn
  cases h with
  | grant grants => exact calm.of_same (voteFor_role n _) (voteFor_term n _)
  | deny grants => exact calm
  | discard idle => exact calm
  | count role' tallying current => exact nomatch role.symm.trans role'
  | lose role' tallying current => exact nomatch role.symm.trans role'
  | win role' tallying current majority granted begun => exact nomatch role.symm.trans role'
  | reject stale => exact calm
  | refuse current accepts => exact hfollowing _
  | accept current accepts =>
      obtain ⟨hrole, _, hterm⟩ := (n.following _ now draw).accepting_same _
      exact (hfollowing _).of_same hrole hterm
  | ignore idle => exact calm
  | note role' current success recorded => exact nomatch role.symm.trans role'
  | lower role' current failure => exact nomatch role.symm.trans role'

/-- Who hears from a leader of no older term follows it, and waits anew. -/
theorem handleMessage_calm {q : AppendRequest}
    (h : n.handleMessage sender (.appendRequest q) now draw = .ok (n', commands))
    (current : n.record.currentTerm ≤ q.term) :
    n'.Calm q.term (now + n.config.electionMin) := by
  obtain ⟨n₁, lost, said, hadopt, hresponse, rfl⟩ := handleMessage_responds h
  have hframe : n₁.config = n.config ∧ n₁.record.currentTerm = q.term := by
    obtain ⟨newer, rfl, _⟩ | ⟨older, rfl, _⟩ := adoptTerm_cases hadopt
    · exact ⟨(asFollower_frame _ none now draw).config, inTerm_term n _ now draw⟩
    · exact ⟨rfl, Nat.le_antisymm current older⟩
  obtain ⟨hconfig, hterm⟩ := hframe
  have hfollowing := n₁.following_calm q now draw
  rw [hterm, hconfig] at hfollowing
  cases hresponse with
  | reject stale => exact absurd hterm (Nat.ne_of_gt stale)
  | refuse current accepts => exact hfollowing
  | accept current accepts =>
      obtain ⟨hrole, _, hsame⟩ := (n₁.following q now draw).accepting_same q
      exact hfollowing.of_same hrole hsame

/-! ## What is said -/

theorem sends_farewell (i : NodeId) (n : Node) (leader? : Option NodeId) :
    sends i (n.farewell leader?) = [] := by
  unfold farewell
  split <;> rfl

/-- Whatever is sent is of the term that the node is then in. -/
theorem Response.said_term (h : Response now draw n sender message n' said) {m : InFlight}
    (hm : m ∈ sends i said) : m.sender = i ∧ m.message.term = n'.record.currentTerm := by
  have hone : ∀ {message : Message}, message.term = n.record.currentTerm →
      m ∈ sends i [.send sender message] →
        m.sender = i ∧ m.message.term = n.record.currentTerm := by
    intro message hterm hm
    obtain rfl := List.mem_singleton.mp hm
    exact ⟨rfl, hterm⟩
  rw [h.term]
  cases h with
  | grant grants => exact hone rfl hm
  | deny grants => exact hone rfl hm
  | discard idle => exact nomatch hm
  | count role tallying current => exact nomatch hm
  | lose role tallying current => exact nomatch hm
  | win role tallying current majority granted begun =>
      obtain ⟨p, _, sent, _, rfl⟩ := exists_of_mem_roundRequests hm
      exact ⟨rfl, rfl⟩
  | reject stale => exact hone rfl hm
  | refuse current accepts =>
      rw [sends_append, sends_farewell, List.nil_append] at hm
      exact hone rfl hm
  | accept current accepts =>
      rw [sends_append, sends_farewell, List.nil_append] at hm
      exact hone rfl hm
  | ignore idle => exact nomatch hm
  | note role current success recorded => exact nomatch hm
  | lower role current failure => exact nomatch hm

theorem handleMessage_said_term
    (h : n.handleMessage sender message now draw = .ok (n', commands)) {m : InFlight}
    (hm : m ∈ sends i commands) : m.sender = i ∧ m.message.term = n'.record.currentTerm := by
  obtain ⟨n₁, lost, said, hadopt, hresponse, rfl⟩ := handleMessage_responds h
  have hlost : sends i lost = [] := by
    obtain ⟨_, _, rfl⟩ | ⟨_, _, rfl⟩ := adoptTerm_cases hadopt
    · exact sends_farewell i n none
    · rfl
  rw [sends_append, hlost, List.nil_append] at hm
  exact hresponse.said_term hm

/-- Every request is answered. -/
theorem exists_appendReply {q : AppendRequest}
    (h : n.handleMessage sender (.appendRequest q) now draw = .ok (n', commands)) :
    ∃ r : AppendReply, ⟨i, sender, .appendReply r⟩ ∈ sends i commands := by
  obtain ⟨n₁, lost, said, hadopt, hresponse, rfl⟩ := handleMessage_responds h
  rw [sends_append]
  cases hresponse with
  | reject stale => exact ⟨_, List.mem_append_right _ List.mem_cons_self⟩
  | refuse current accepts =>
      rw [sends_append]
      exact ⟨_, List.mem_append_right _ (List.mem_append_right _ List.mem_cons_self)⟩
  | accept current accepts =>
      rw [sends_append]
      exact ⟨_, List.mem_append_right _ (List.mem_append_right _ List.mem_cons_self)⟩

/-! ## Standing for election -/

/-- An election timer that fires does nothing, or the node stands in the next
term; if its own vote decides the election, it is won or lost at once. -/
theorem electionTimeout_cases (h : n.electionTimeout now draw = .ok (n', commands)) :
    (n' = n ∧ commands = []) ∨
    (n'.record.currentTerm = n.record.currentTerm.next ∧
      (∀ m ∈ sends i commands, m.sender = i ∧ m.message.term = n'.record.currentTerm) ∧
      (n'.Idle ∨ (∃ c, n'.role = .candidate c ∧ c.tallying = true) ∨
        (n.candidacy now).Won now n' commands)) := by
  have hstand : n.startElection now draw = .ok (n', commands) →
      n'.record.currentTerm = n.record.currentTerm.next ∧
      (∀ m ∈ sends i commands, m.sender = i ∧ m.message.term = n'.record.currentTerm) ∧
      (n'.Idle ∨ (∃ c, n'.role = .candidate c ∧ c.tallying = true) ∨
        (n.candidacy now).Won now n' commands) := by
    intro h
    obtain ⟨deadline, hafter, h⟩ := exists_of_bind_ok h
    obtain ⟨rfl, -⟩ := Instant.after_ok hafter
    obtain ⟨⟨elected, more⟩, htally, h⟩ := exists_of_bind_ok h
    obtain ⟨rfl, rfl⟩ := h
    have hasked : ∀ m ∈ sends i (n.peers.map fun peer =>
        Command.send peer (.voteRequest (n.candidacy now).voteRequest)),
        m.sender = i ∧ m.message.term = n.record.currentTerm.next := by
      intro m hm
      obtain ⟨command, hcommand, hsent⟩ := List.mem_filterMap.mp hm
      obtain ⟨peer, _, rfl⟩ := List.mem_map.mp hcommand
      obtain rfl := Option.some.inj hsent
      exact ⟨rfl, rfl⟩
    obtain ⟨lease₀, lease, _, granted, begun, rfl, rfl⟩ | ⟨rfl, rfl⟩ | ⟨rfl, rfl⟩ :=
      tally_cases htally
    · have hwon : (n.candidacy now).Won now _ _ := won_of_granted granted begun
      refine ⟨hwon.term, fun m hm => ?_, .inr (.inr ⟨hwon.inOffice, hwon.term, fun p hp => ?_⟩)⟩
      · rw [sends_append] at hm
        rcases List.mem_append.mp hm with hm | hm
        · exact hwon.term ▸ hasked m hm
        · obtain ⟨p, _, sent, _, rfl⟩ := exists_of_mem_roundRequests hm
          exact ⟨rfl, hwon.term.symm⟩
      · obtain ⟨q, hterm, hq⟩ := hwon.requests p hp
        exact ⟨q, hterm, List.mem_append_right _ hq⟩
    · rw [List.append_nil]
      exact ⟨rfl, hasked, .inl (.of_candidate rfl rfl)⟩
    · rw [List.append_nil]
      exact ⟨rfl, hasked, .inr (.inl ⟨_, rfl, rfl⟩)⟩
  unfold electionTimeout at h
  split at h
  · obtain ⟨rfl, rfl⟩ := h
    exact .inl ⟨rfl, rfl⟩
  · split at h
    · obtain ⟨rfl, rfl⟩ := h
      exact .inl ⟨rfl, rfl⟩
    · exact .inr (hstand h)
  · exact .inr (hstand h)

end Node

end Quorum
