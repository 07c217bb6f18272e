import Quorum.Proofs.Handlers.Replication

/-!
# Steps of candidates and voters

A candidate stands, counts the votes it gets and wins or gives up; a voter
grants its vote or refuses. With these every event of a node is a sequence of
moves (`handle_steps`).
-/

namespace Quorum.Node

open Chronicle

variable {M : Roster} {heard : List InFlight} {n n' : Node} {c : Candidate} {sender : NodeId}
  {prior : Duration} {now : Instant} {draw : Nat} {commands : List Command}

/-! ## Standing for election -/

/-- Closing a tally is a retirement. -/
theorem loseElection_steps (h : n.loseElection c now draw = .ok n') : Steps M heard n n' [] := by
  obtain ⟨electionAt, _, h⟩ := exists_of_bind_ok h
  obtain rfl := Except.ok.inj h
  refine .of_move (.withRole n _ _) fun s hs _ => ?_
  exact ⟨_, .retire, by rw [hs]; rfl, (List.append_nil _).symm⟩

/-- An open tally is won, lost or left open. -/
theorem tally_steps (hseat : n.Seated M) (hcount : c.tallying = true)
    (h : n.tally c now draw = .ok (n', commands)) :
    Steps M heard { n with role := .candidate c } n' commands := by
  have hseat' : Seated M { n with role := .candidate c } := ⟨hseat.member, hseat.peers⟩
  unfold tally at h
  simp only [] at h
  split at h
  · next hmajority => exact becomeLeader_steps hseat' rfl hcount hmajority h
  · split at h
    · obtain ⟨lost, hlost, h⟩ := exists_of_bind_ok h
      obtain ⟨rfl, rfl⟩ := h
      exact loseElection_steps hlost
    · obtain ⟨rfl, rfl⟩ := h
      exact .refl _

/-- A node that stands for election moves to the next term, asks its peers
for their votes, and counts its own. -/
theorem startElection_steps (hseat : n.Seated M)
    (h : n.startElection now draw = .ok (n', commands)) : Steps M heard n n' commands := by
  obtain ⟨deadline, _, h⟩ := exists_of_bind_ok h
  obtain ⟨⟨elected, more⟩, htally, h⟩ := exists_of_bind_ok h
  obtain ⟨rfl, rfl⟩ := h
  have hseat' : Seated M (n.withRecord
      { n.record with currentTerm := n.record.currentTerm.next, votedFor := some n.id }) :=
    ⟨hseat.member, hseat.peers⟩
  refine Steps.trans ?_ (tally_steps hseat' rfl htally)
  have hstand : Steps M heard n
      { n.withRecord { n.record with
          currentTerm := n.record.currentTerm.next, votedFor := some n.id } with
        role := .candidate (.stand n.id deadline (n.priorLease.remaining now)) } [] := by
    refine ⟨(Frame.withRecord (Term.le_next _)).trans (.withRole _ _ _),
      fun hrange s hs _ => ?_⟩
    -- a term in range is not the last, so the next one is greater
    have hnext : n.record.currentTerm.next = n.record.currentTerm + 1 :=
      if_pos (Nat.lt_of_le_of_lt (Term.le_next _) hrange)
    refine ⟨_, .single .stand, ?_, (List.append_nil _).symm⟩
    show Function.update s.core n.id _ = Function.update s.core n.id _
    rw [core, withRecord, hnext]
    simp only [Chronicle.term, hs]
    rfl
  refine hstand.trans (tell_steps fun command hc => ?_)
  obtain ⟨peer, _, rfl⟩ := List.mem_map.mp hc
  refine ⟨peer, _, rfl, fun s hs => ⟨⟨[n.id], ?_⟩, ?_⟩⟩
  · rw [Chronicle.standing, hs]; rfl
  · simp only [Chronicle.term, Chronicle.log, hs]
    exact ⟨rfl, rfl, rfl, rfl⟩

theorem electionTimeout_steps (hseat : n.Seated M)
    (h : n.electionTimeout now draw = .ok (n', commands)) : Steps M heard n n' commands := by
  unfold electionTimeout at h
  split at h
  · obtain ⟨rfl, rfl⟩ := h
    exact .refl n
  · split at h
    · obtain ⟨rfl, rfl⟩ := h
      exact .refl n
    · exact startElection_steps hseat h
  · exact startElection_steps hseat h

theorem voteRoundTimeout_steps (h : n.voteRoundTimeout now draw = .ok (n', commands)) :
    Steps M heard n n' commands := by
  unfold voteRoundTimeout at h
  split at h
  · split at h
    · obtain ⟨lost, hlost, h⟩ := exists_of_bind_ok h
      obtain ⟨rfl, rfl⟩ := h
      exact loseElection_steps hlost
    · obtain ⟨rfl, rfl⟩ := h
      exact .refl n
  · obtain ⟨rfl, rfl⟩ := h
    exact .refl n

/-! ## Votes -/

/-- A vote is cast and told to who asked for it. -/
theorem voteFor_steps {q : VoteRequest} (harrived : ⟨sender, n.id, .voteRequest q⟩ ∈ heard)
    (hgrant : n.grants q = true) :
    Steps M heard n (n.voteFor q.candidate)
      [.send sender (.voteReply ⟨n.record.currentTerm, true, prior⟩)] := by
  simp only [grants, Bool.and_eq_true, Bool.or_eq_true, beq_iff_eq, Option.isNone_iff_eq_none]
    at hgrant
  obtain ⟨⟨hterm, hfree⟩, hcovered⟩ := hgrant
  have hcore : (n.voteFor q.candidate).core =
      ⟨{ n.record with votedFor := some q.candidate }, n.role.standing⟩ := by
    unfold voteFor
    split
    · next hsame => rw [core, ← hsame]
    · rfl
  have hframe : n.Frame (n.voteFor q.candidate) := by
    unfold voteFor
    split
    · exact .refl n
    · exact .withRecord (Nat.le_refl _)
  refine .of_move hframe fun s hs hheard => ?_
  have hrecord : (s.core n.id).record = n.record := congrArg Core.record hs
  have hstanding : s.standing n.id = n.role.standing := by rw [Chronicle.standing, hs]; rfl
  refine ⟨_, @Move.grant M n.id s sender q prior (hheard harrived) ?_ ?_ ?_, ?_, ?_⟩
  · rw [Chronicle.term, hrecord]; exact hterm
  · rw [Chronicle.vote, hrecord]; exact hfree
  · rw [Chronicle.log, hrecord]; exact hcovered
  · show Function.update s.core n.id _ = Function.update s.core n.id _
    rw [hcore, hrecord, hstanding]
  · show s.sent ++ [_] = s.sent ++ sends n.id _
    rw [Chronicle.term, hrecord, sends_send]

theorem handleVoteRequest_steps {q : VoteRequest}
    (harrived : ⟨sender, n.id, .voteRequest q⟩ ∈ heard)
    (h : n.handleVoteRequest sender q now draw = .ok (n', commands)) :
    Steps M heard n n' commands := by
  obtain ⟨⟨m, lost⟩, hadopt, h⟩ := exists_of_bind_ok h
  have hadopted : Steps M heard n m lost := adoptTerm_steps hadopt
  obtain ⟨rfl, rfl⟩ := h
  refine hadopted.trans ?_
  rw [← hadopted.frame.id] at harrived
  by_cases hgrant : m.grants q = true
  · rw [if_pos hgrant, hgrant]
    exact voteFor_steps harrived hgrant
  · have hno : m.grants q = false := by simpa using hgrant
    rw [if_neg hgrant]
    exact tell_steps fun _ hc => ⟨sender, _, List.mem_singleton.mp hc, fun _ _ => hno⟩

/-- A granted vote is counted; a refusal changes nothing that matters. -/
theorem record_steps {r : VoteReply} (hrole : n.role = .candidate c) (hcount : c.tallying = true)
    (harrived : ⟨sender, n.id, .voteReply r⟩ ∈ heard) (hcurrent : r.term = n.record.currentTerm) :
    Steps M heard n
      { n with role := .candidate (c.record sender r.granted r.priorLease) } [] := by
  have hframe : n.Frame { n with role := .candidate (c.record sender r.granted r.priorLease) } :=
    .withRole n _ _
  have hstanding : n.role.standing = .counting c.votes := by
    rw [hrole, Role.standing, if_pos hcount]
  cases hgranted : r.granted with
  | false =>
      refine .of_core_eq (hgranted ▸ hframe) ?_ rfl
      rw [core, core, hstanding]
      exact congrArg _ (if_pos hcount)
  | true =>
      refine .of_move (hgranted ▸ hframe) fun s hs hheard => ?_
      have hcounting : s.standing n.id = .counting c.votes := by
        rw [Chronicle.standing, hs]
        exact hstanding
      refine ⟨_, .count hcounting (hheard harrived) hgranted ?_, ?_, (List.append_nil _).symm⟩
      · rw [Chronicle.term, hs]; exact hcurrent
      · show Function.update s.core n.id _ = Function.update s.core n.id _
        rw [hs]
        exact congrArg _ (congrArg _ (if_pos hcount).symm)

theorem handleVoteReply_steps {r : VoteReply} (hseat : n.Seated M)
    (harrived : ⟨sender, n.id, .voteReply r⟩ ∈ heard)
    (h : n.handleVoteReply sender r now draw = .ok (n', commands)) :
    Steps M heard n n' commands := by
  obtain ⟨⟨m, lost⟩, hadopt, h⟩ := exists_of_bind_ok h
  have hadopted : Steps M heard n m lost := adoptTerm_steps hadopt
  rw [← hadopted.frame.id] at harrived
  simp only [] at h
  split at h
  · obtain ⟨rfl, rfl⟩ := h
    exact hadopted
  · next hterm =>
      split at h
      · next c hrole =>
          split at h
          · next hcount =>
              obtain ⟨⟨m', more⟩, htally, h⟩ := exists_of_bind_ok h
              obtain ⟨rfl, rfl⟩ := h
              have hopen := (c.record_tallying sender r.granted r.priorLease).trans hcount
              exact hadopted.trans ((record_steps hrole hcount harrived (not_not.mp hterm)).trans
                (tally_steps (hseat.of_frame hadopted.frame) hopen htally))
          · obtain ⟨rfl, rfl⟩ := h
            exact hadopted
      · obtain ⟨rfl, rfl⟩ := h
        exact hadopted

/-! ## All events -/

/-- Every event makes a sequence of moves. -/
theorem handle_steps {event : Event} (hseat : n.Seated M)
    (harrived : ∀ sender message, event = .message sender message →
      ⟨sender, n.id, message⟩ ∈ heard)
    (h : n.handle event now draw = .ok (n', commands)) : Steps M heard n n' commands := by
  cases event with
  | electionTimeout => exact electionTimeout_steps hseat h
  | voteRoundTimeout => exact voteRoundTimeout_steps h
  | heartbeatTimeout => exact heartbeatTimeout_steps hseat h
  | leaseTimeout => exact leaseTimeout_steps h
  | message sender message =>
      have hmessage := harrived sender message rfl
      cases message with
      | voteRequest q => exact handleVoteRequest_steps hmessage h
      | voteReply r => exact handleVoteReply_steps hseat hmessage h
      | appendRequest q => exact handleAppendRequest_steps hmessage h
      | appendReply r => exact handleAppendReply_steps hseat hmessage h

end Quorum.Node
