import Mathlib.Data.List.Nodup
import Quorum.Proofs.Handlers.Steps
import Quorum.Proofs.Log.CommitPoint

/-!
# Steps of leaders and followers

A leader reports itself to its peers, appends, notes what they confirm and
commits; a follower takes over what it is sent and confirms it, or refuses.
-/

namespace Quorum.Node

open Chronicle

variable {M : Roster} {heard : List InFlight} {n n' : Node} {l : Leader} {c : Candidate}
  {sender peer : NodeId} {prior : Duration} {now : Instant} {draw : Nat}
  {commands : List Command}

/-! ## Leaders -/

theorem standing_eq_leading {s : Chronicle} (hs : s.core n.id = n.core)
    (hrole : n.role = .leader l) :
    s.standing n.id = .leading (l.progress.map fun row => (row.peer, row.acked)) := by
  rw [Chronicle.standing, hs, core, hrole]
  rfl

/-- What a leader's commit rule finds is held by a majority of the nodes. -/
theorem quorum_le_countP_commitPoint
    (h : n.record.commitLength < n.record.log.commitPoint n.record.currentTerm
      n.record.commitLength (l.replicatedOn n.lastIndex n.quorum)) :
    n.quorum ≤ (n.lastIndex :: l.ackedLengths).countP
      (n.record.log.commitPoint n.record.currentTerm n.record.commitLength
        (l.replicatedOn n.lastIndex n.quorum) ≤ ·) := by
  have hheld := (Log.commitPoint_spec h).2
  have hpos : 0 < quorumLength (n.lastIndex :: l.ackedLengths) n.quorum :=
    Nat.lt_of_lt_of_le (Nat.zero_lt_of_lt h) hheld
  exact Nat.le_trans (quorum_le_countP hpos) (countP_le_anti hheld)

/-- Moving the commit length forward is an advance, or nothing. -/
theorem advanceCommit_steps (hrole : n.role = .leader l) (hq : n.quorum = M.quorum) :
    Steps M heard n (n.advanceCommit l) [] := by
  unfold advanceCommit commitTo
  simp only []
  split
  · next hlt =>
      refine .of_move (.withRecord (Nat.le_refl _)) fun s hs _ => ?_
      have hrecord : (s.core n.id).record = n.record := congrArg Core.record hs
      refine ⟨_, .advance (standing_eq_leading hs hrole) (hrecord ▸ hlt) ?_ ?_, ?_,
        (List.append_nil _).symm⟩
      · rw [Chronicle.log, Chronicle.term, hrecord]
        exact (Log.commitPoint_spec hlt).1
      · rw [Chronicle.log, hrecord, List.map_map, ← hq]
        exact quorum_le_countP_commitPoint hlt
      · show Function.update s.core n.id _ = Function.update s.core n.id _
        rw [core, withRecord]
        simp only [hrole, hrecord]
        rfl
  · exact .refl n

theorem appendRequestFor?_maySay {q : AppendRequest} (hrole : n.role = .leader l)
    (hq : n.appendRequestFor? l peer = some q) (s : Chronicle) (hs : s.core n.id = n.core) :
    s.MaySay n.id (.appendRequest q) := by
  obtain ⟨sent, _, hq⟩ := Option.bind_eq_some_iff.mp hq
  have hrecord : (s.core n.id).record = n.record := congrArg Core.record hs
  obtain rfl := Option.some.inj hq
  refine ⟨⟨_, standing_eq_leading hs hrole⟩, ?_⟩
  simp only [Chronicle.term, Chronicle.log, Chronicle.commit, hrecord, lastIndex, true_and,
    and_true]
  exact Nat.min_le_right _ _

/-- A leader that sends its heartbeats reports itself to its peers, and then
moves its commit length forward. -/
theorem heartbeats_steps (hseat : n.Seated M) (hrole : n.role = .leader l) :
    Steps M heard n (n.advanceCommit l)
      (n.peers.filterMap fun peer =>
        (n.appendRequestFor? l peer).map fun request => .send peer (.appendRequest request)) := by
  have htell : Steps M heard n n (n.peers.filterMap fun peer =>
      (n.appendRequestFor? l peer).map fun request => .send peer (.appendRequest request)) := by
    refine tell_steps fun command hc => ?_
    obtain ⟨peer, _, hmap⟩ := List.mem_filterMap.mp hc
    obtain ⟨q, hq, rfl⟩ := Option.map_eq_some_iff.mp hmap
    exact ⟨peer, _, rfl, appendRequestFor?_maySay hrole hq⟩
  simpa using htell.trans (advanceCommit_steps hrole hseat.quorum_eq)

theorem sendHeartbeats_ok (h : n.sendHeartbeats l now = .ok (n', commands)) :
    ∃ l' : Leader, l'.progress = l.progress ∧
      n' = { n with role := .leader l' }.advanceCommit l' ∧
      commands = n.peers.filterMap fun peer =>
        ({ n with role := .leader l' }.appendRequestFor? l' peer).map fun request =>
          .send peer (.appendRequest request) := by
  obtain ⟨heartbeatAt, _, h⟩ := exists_of_bind_ok h
  obtain ⟨lease, _, h⟩ := exists_of_bind_ok h
  obtain ⟨rfl, rfl⟩ := h
  exact ⟨{ l with heartbeatAt, lease }, rfl, rfl, rfl⟩

theorem heartbeatTimeout_steps (hseat : n.Seated M)
    (h : n.heartbeatTimeout now = .ok (n', commands)) : Steps M heard n n' commands := by
  unfold heartbeatTimeout at h
  split at h
  · next l hrole =>
      obtain ⟨l', hprogress, rfl, rfl⟩ := sendHeartbeats_ok h
      have hsame : Steps M heard n { n with role := .leader l' } [] :=
        .of_core_eq (.withRole n _ _)
          (by rw [core, core, hrole, Role.standing, Role.standing, hprogress]) rfl
      exact hsame.trans (heartbeats_steps (hseat.of_frame hsame.frame) rfl)
  · obtain ⟨rfl, rfl⟩ := h
    exact .refl n

theorem leaseTimeout_steps (h : n.leaseTimeout now draw = .ok (n', commands)) :
    Steps M heard n n' commands := by
  unfold leaseTimeout at h
  split at h
  · split at h
    · exact stepDown_steps h
    · obtain ⟨rfl, rfl⟩ := h
      exact .refl n
  · obtain ⟨rfl, rfl⟩ := h
    exact .refl n

/-- A client's operation is appended, and committed at once where the leader
alone is a quorum. -/
theorem submit_steps {operation : Operation} (hseat : n.Seated M) :
    Steps M heard n (n.submit operation).1 [] := by
  unfold submit
  split
  · next l hrole =>
      have happend : Steps M heard n (n.append ⟨n.record.currentTerm, operation⟩) [] := by
        refine .of_move (append_frame _) fun s hs _ => ?_
        refine ⟨_, .append operation (standing_eq_leading hs hrole), ?_, (List.append_nil _).symm⟩
        show Function.update s.core n.id _ = Function.update s.core n.id _
        rw [core, append, withRecord]
        simp only [hrole, Chronicle.log, Chronicle.term, hs]
        rfl
      exact happend.trans (advanceCommit_steps hrole (hseat.of_frame happend.frame).quorum_eq)
  · exact .refl n

/-! ## Taking office -/

theorem nodup_distinct (peers : List NodeId) : (distinct peers).Nodup := by
  induction peers with
  | nil => exact List.nodup_nil
  | cons p rest ih => exact List.Nodup.insert ih

/-- A candidate with a majority of the votes wins, and sends its first
heartbeats. -/
theorem becomeLeader_steps (hseat : n.Seated M) (hrole : n.role = .candidate c)
    (hcount : c.tallying = true) (hmajority : c.hasMajority n.clusterSize = true)
    (h : n.becomeLeader prior now = .ok (n', commands)) : Steps M heard n n' commands := by
  obtain ⟨lease, _, h⟩ := exists_of_bind_ok h
  obtain ⟨heartbeatAt, _, h⟩ := exists_of_bind_ok h
  obtain ⟨l', hprogress, rfl, rfl⟩ := sendHeartbeats_ok h
  have hrows : l'.progress.map (fun row => (row.peer, row.acked)) =
      (distinct n.peers).map fun peer => (peer, 0) := by
    rw [hprogress, Leader.start, List.map_map]
    rfl
  -- the new role and the entry that opens the term are one move
  have hwin : Steps M heard n
      { n.append (.noOp n.record.currentTerm) with role := .leader l' } [] := by
    refine .of_move ((append_frame _).trans (.withRole _ _ _)) fun s hs _ => ?_
    have hstanding : s.standing n.id = .counting c.votes := by
      rw [Chronicle.standing, hs, core, hrole, Role.standing, if_pos hcount]
    refine ⟨_, @Move.win M n.id s c.votes ((distinct n.peers).map fun peer => (peer, 0))
      hstanding ?_ ?_ ?_, ?_, (List.append_nil _).symm⟩
    · rw [← hseat.quorum_eq]
      exact of_decide_eq_true hmajority
    · rw [List.map_map]
      exact (List.map_id _).symm ▸ nodup_distinct n.peers
    · intro row hrow
      obtain ⟨peer, hpeer, rfl⟩ := List.mem_map.mp hrow
      obtain ⟨hmem, hne⟩ := hseat.mem_peers.mp (mem_distinct.mp hpeer)
      exact ⟨hmem, hne, rfl⟩
    · show Function.update s.core n.id _ = Function.update s.core n.id _
      rw [core, append, withRecord, Role.standing, hrows]
      simp only [Chronicle.log, Chronicle.term, hs]
      rfl
  exact hwin.trans (heartbeats_steps (hseat.of_frame hwin.frame) rfl)

/-! ## Followers -/

theorem takeEntriesBehind_core (prev : LogIndex) (entries : List LogEntry) :
    (n.takeEntriesBehind prev entries).core =
      ⟨{ n.record with log := n.record.log.splice prev entries }, n.role.standing⟩ := by
  unfold takeEntriesBehind
  simp only []
  split
  · next hsame => rw [hsame]; rfl
  · rfl

theorem commitTo_core (length : LogIndex) :
    (n.commitTo length).core =
      ⟨{ n.record with commitLength := max n.record.commitLength length }, n.role.standing⟩ := by
  unfold commitTo
  split
  · next hlt => rw [Nat.max_eq_right (Nat.le_of_lt hlt)]; rfl
  · next hle => rw [Nat.max_eq_left (Nat.le_of_not_lt hle)]; rfl

/-- Following a leader is a retirement. -/
theorem follow_steps {q : AppendRequest} (h : n.follow q now draw = .ok (n', commands)) :
    Steps M heard n n' commands := by
  obtain ⟨⟨m, lost⟩, hdown, h⟩ := exists_of_bind_ok h
  obtain ⟨electionAt, _, h⟩ := exists_of_bind_ok h
  obtain ⟨priorLease, _, h⟩ := exists_of_bind_ok h
  have hdowned : Steps M heard n m lost := stepDown_steps hdown
  obtain ⟨rfl, rfl⟩ := h
  obtain ⟨f, p, rfl, _⟩ := stepDown_ok hdown
  have hlearned : Steps M heard { n with role := .follower f, priorLease := p }
      { n with role := .follower ⟨some q.leader, electionAt⟩, priorLease } [] :=
    .of_core_eq (.withRole _ _ _) rfl rfl
  simpa using hdowned.trans hlearned

theorem follow_passive {q : AppendRequest} (h : n.follow q now draw = .ok (n', commands)) :
    n'.role.standing = .passive := by
  obtain ⟨⟨m, lost⟩, _, h⟩ := exists_of_bind_ok h
  obtain ⟨electionAt, _, h⟩ := exists_of_bind_ok h
  obtain ⟨priorLease, _, h⟩ := exists_of_bind_ok h
  obtain ⟨rfl, rfl⟩ := h
  rfl

/-- A follower takes over what it is sent and confirms it. -/
theorem accept_steps {q : AppendRequest} (hpassive : n.role.standing = .passive)
    (harrived : ⟨sender, n.id, .appendRequest q⟩ ∈ heard) (haccepts : n.accepts q = true) :
    Steps M heard n
      ((n.takeEntriesBehind q.prevIndex q.entries).commitTo
        (min q.commit (q.prevIndex + q.entries.length)))
      [.send sender (.appendReply
        ⟨n.record.currentTerm, true, q.prevIndex + q.entries.length, q.round⟩)] := by
  simp only [accepts, Bool.and_eq_true, beq_iff_eq] at haccepts
  have hcore := takeEntriesBehind_core (n := n) q.prevIndex q.entries
  have hrecord := congrArg Core.record hcore
  have hstanding := congrArg Core.standing hcore
  refine .of_move ((takeEntriesBehind_frame _ _).trans (commitTo_frame _)) fun s hs hheard => ?_
  have hsrecord : (s.core n.id).record = n.record := congrArg Core.record hs
  refine ⟨_, .accept (hheard harrived) ?_ ?_, ?_, ?_⟩
  · rw [Chronicle.term, hsrecord]; exact haccepts.1
  · rw [Chronicle.log, hsrecord]; exact haccepts.2
  · show Function.update s.core n.id _ = Function.update s.core n.id _
    rw [commitTo_core]
    simp only [core] at hrecord hstanding
    rw [hrecord, hstanding, hpassive]
    simp only [Chronicle.log, Chronicle.commit, hsrecord]
  · show s.sent ++ [_] = s.sent ++ sends n.id _
    rw [Chronicle.term, hsrecord, sends_send]

theorem refuse_steps {acked : LogIndex} {round : Nat} :
    Steps M heard n n
      [.send sender (.appendReply ⟨n.record.currentTerm, false, acked, round⟩)] :=
  tell_steps fun _ hc => ⟨sender, _, List.mem_singleton.mp hc, fun _ _ => rfl⟩

/-- A request is answered with a confirmation, or with a refusal. -/
theorem handleAppendRequest_steps {q : AppendRequest}
    (harrived : ⟨sender, n.id, .appendRequest q⟩ ∈ heard)
    (h : n.handleAppendRequest sender q now draw = .ok (n', commands)) :
    Steps M heard n n' commands := by
  obtain ⟨⟨m, lost⟩, hadopt, h⟩ := exists_of_bind_ok h
  have hadopted : Steps M heard n m lost := adoptTerm_steps hadopt
  simp only [] at h
  split at h
  · obtain ⟨⟨k, ousted⟩, hfollow, h⟩ := exists_of_bind_ok h
    obtain ⟨rfl, rfl⟩ := h
    have hpassive := follow_passive hfollow
    have hfollowed : Steps M heard m k ousted := follow_steps hfollow
    refine (hadopted.trans hfollowed).trans ?_
    rw [← hadopted.frame.id, ← hfollowed.frame.id] at harrived
    by_cases haccepts : k.accepts q = true
    · simp only [haccepts, if_true]
      exact accept_steps hpassive harrived haccepts
    · simp only [haccepts]
      exact refuse_steps
  · next hterm =>
      -- a request of another term is refused by a node in any role
      obtain ⟨rfl, rfl⟩ := h
      have hno : m.accepts q = false := by
        rw [accepts, beq_eq_false_iff_ne.mpr hterm, Bool.false_and]
      rw [List.append_nil]
      refine hadopted.trans ?_
      simp only [hno]
      exact refuse_steps

theorem note_steps {r : AppendReply} {lease : LeaderLease} (hrole : n.role = .leader l)
    (harrived : ⟨sender, n.id, .appendReply r⟩ ∈ heard) (hsuccess : r.success = true)
    (hcurrent : r.term = n.record.currentTerm) :
    Steps M heard n
      { n with role := .leader { l.recordSuccess sender r.acked with lease } } [] := by
  refine .of_move (.withRole n _ _) fun s hs hheard => ?_
  refine ⟨_, .note (standing_eq_leading hs hrole) (hheard harrived) hsuccess ?_, ?_,
    (List.append_nil _).symm⟩
  · rw [Chronicle.term, hs]; exact hcurrent
  · show Function.update s.core n.id _ = Function.update s.core n.id _
    rw [congrArg Core.record hs]
    show Function.update s.core n.id ⟨n.record, _⟩ = Function.update s.core n.id ⟨n.record, _⟩
    rw [Role.standing, Leader.recordSuccess, Leader.updatePeer, List.map_map, List.map_map]
    congr 3
    refine List.map_congr_left fun row _ => ?_
    simp only [Function.comp_apply]
    split <;> rfl

/-- Where the next request starts is of no matter for safety. -/
theorem recordFailure_core (hrole : n.role = .leader l) :
    { n with role := .leader (l.recordFailure sender) }.core = n.core := by
  show Core.mk n.record (.leading _) = Core.mk n.record n.role.standing
  rw [hrole, Role.standing, Leader.recordFailure, Leader.updatePeer, List.map_map]
  congr 2
  refine List.map_congr_left fun row _ => ?_
  simp only [Function.comp_apply]
  split <;> rfl

/-- What a peer confirmed is noted, and may let the leader commit more. -/
theorem handleAppendReply_steps {r : AppendReply} (hseat : n.Seated M)
    (harrived : ⟨sender, n.id, .appendReply r⟩ ∈ heard)
    (h : n.handleAppendReply sender r now draw = .ok (n', commands)) :
    Steps M heard n n' commands := by
  obtain ⟨⟨m, lost⟩, hadopt, h⟩ := exists_of_bind_ok h
  have hadopted : Steps M heard n m lost := adoptTerm_steps hadopt
  rw [← hadopted.frame.id] at harrived
  simp only [] at h
  split at h
  · obtain ⟨rfl, rfl⟩ := h
    exact hadopted
  · next hterm =>
      split at h
      · next l hrole =>
          split at h
          · next hsuccess =>
              obtain ⟨⟨lease, fresh⟩, _, h⟩ := exists_of_bind_ok h
              obtain ⟨rfl, rfl⟩ := h
              have hnoted : Steps M heard m
                  { m with role := .leader { l.recordSuccess sender r.acked with lease } } [] :=
                note_steps hrole harrived hsuccess (not_not.mp hterm)
              have hseat' := (hseat.of_frame hadopted.frame).of_frame hnoted.frame
              simpa using hadopted.trans (hnoted.trans (advanceCommit_steps rfl hseat'.quorum_eq))
          · obtain ⟨rfl, rfl⟩ := h
            have hlowered :
                Steps M heard m { m with role := .leader (l.recordFailure sender) } [] :=
              .of_core_eq (.withRole m _ _) (recordFailure_core hrole) rfl
            simpa using hadopted.trans hlowered
      · obtain ⟨rfl, rfl⟩ := h
        exact hadopted

end Quorum.Node
