import Quorum.Proofs.Handlers.Deeds

/-!
# Deeds and time

What a deed does to the things that leases rest on: the estimate of when
earlier leases end, the votes that a candidate has counted, the lease of a
leader, and the messages that carry times. One inversion for each.
-/

namespace Quorum

/-- The part of a node that leases rest on. -/
structure Timing where
  term : Term
  role : Role
  /-- When the node expects the leases of earlier leaders to have ended. -/
  estimate : Instant
  /-- How long the node's own leases are. -/
  lease : Duration

def Node.timing (n : Node) : Timing :=
  ⟨n.record.currentTerm, n.role, n.priorLease.endsAt, n.config.lease⟩

/-! ## Leases -/

namespace LeaderLease

variable {l l' : LeaderLease} {now : Instant} {duration prior : Duration} {quorum round : Nat}
  {peer : NodeId} {renewed : Bool}

theorem grant_ok (h : grant now duration prior = .ok l) :
    l.barrier = now + prior ∧ l.duration = duration ∧ l.roundStartedAt = now ∧ l.acks = [] := by
  obtain ⟨barrier, hbarrier, h⟩ := exists_of_bind_ok h
  obtain ⟨expiresAt, _, h⟩ := exists_of_bind_ok h
  obtain ⟨rfl, _⟩ := Instant.after_ok hbarrier
  obtain rfl := Except.ok.inj h
  exact ⟨rfl, rfl, rfl, rfl⟩

/-- A renewal moves the end of the lease and nothing else. -/
theorem renew_ok (h : l.renew quorum = .ok (l', renewed)) :
    l'.barrier = l.barrier ∧ l'.duration = l.duration ∧ l'.round = l.round ∧
      l'.roundStartedAt = l.roundStartedAt ∧ l'.acks = l.acks := by
  unfold renew at h
  split at h
  · obtain ⟨rfl, rfl⟩ := h
    simp
  · obtain ⟨expiresAt, _, h⟩ := exists_of_bind_ok h
    obtain ⟨rfl, rfl⟩ := h
    simp

theorem beginRound_ok (h : l.beginRound now quorum = .ok l') :
    l'.barrier = l.barrier ∧ l'.duration = l.duration ∧ l'.round = l.round + 1 ∧
      l'.roundStartedAt = now ∧ l'.acks = [] := by
  obtain ⟨⟨l'', renewed⟩, hrenew, h⟩ := exists_of_bind_ok h
  obtain rfl := Except.ok.inj h
  exact renew_ok hrenew

theorem recordAck_ok (h : l.recordAck peer round quorum = .ok (l', renewed)) :
    l'.barrier = l.barrier ∧ l'.duration = l.duration ∧ l'.round = l.round ∧
      l'.roundStartedAt = l.roundStartedAt ∧
      (l'.acks = l.acks ∨ l'.acks = peer :: l.acks ∧ round = l.round ∧ peer ∉ l.acks) := by
  unfold recordAck at h
  split at h
  · next hcounts =>
      obtain ⟨hbarrier, hduration, hround, hstart, hacks⟩ := renew_ok h
      exact ⟨hbarrier, hduration, hround, hstart, .inr ⟨hacks, hcounts⟩⟩
  · obtain ⟨rfl, rfl⟩ := h
    simp

end LeaderLease

theorem PriorLease.add_remaining (p : PriorLease) (now : Instant) :
    now + p.remaining now = max now p.endsAt := by
  unfold remaining Instant.remaining
  rcases Nat.le_total p.endsAt now with hpast | hahead
  · rw [Nat.sub_eq_zero_of_le hpast, Nat.max_eq_left hpast, Nat.add_zero]
  · rw [Nat.add_sub_cancel' hahead, Nat.max_eq_right hahead]

theorem PriorLease.le_add_remaining (p : PriorLease) (now : Instant) :
    p.endsAt ≤ now + p.remaining now :=
  Nat.sub_le_iff_le_add'.mp (Nat.le_refl _)

namespace Node

variable {heard? : Option (NodeId × Message)} {now : Instant} {draw : Nat} {n n' : Node}
  {said : List Command} {c' : Candidate} {l' : Leader} {receiver : NodeId}

/-! ## Roles -/

theorem asFollower_role (n : Node) (leader? : Option NodeId) (now : Instant) (draw : Nat) :
    ∃ f, (n.asFollower leader? now draw).role = .follower f := by
  unfold asFollower
  split <;> exact ⟨_, rfl⟩

theorem inTerm_role (n : Node) (term : Term) (now : Instant) (draw : Nat) :
    ∃ f, (n.inTerm term now draw).role = .follower f :=
  asFollower_role _ _ _ _

theorem voteFor_role (n : Node) (candidate : NodeId) : (n.voteFor candidate).role = n.role := by
  unfold voteFor
  split <;> rfl

theorem voteFor_term (n : Node) (candidate : NodeId) :
    (n.voteFor candidate).record.currentTerm = n.record.currentTerm := by
  unfold voteFor
  split <;> rfl

theorem voteFor_priorLease (n : Node) (candidate : NodeId) :
    (n.voteFor candidate).priorLease = n.priorLease := by
  unfold voteFor
  split <;> rfl

theorem accepting_same (n : Node) (q : AppendRequest) :
    (n.accepting q).role = n.role ∧ (n.accepting q).priorLease = n.priorLease ∧
      (n.accepting q).record.currentTerm = n.record.currentTerm := by
  obtain ⟨hrole, hprior, hterm, _⟩ := (n.takeEntriesBehind q.prevIndex q.entries).commitTo_same
    (min q.commit (q.prevIndex + q.entries.length))
  unfold accepting
  rw [hrole, hprior, hterm]
  unfold takeEntriesBehind
  simp only []
  split <;> simp [withRecord]

/-- Appending what a client asks for leaves alone what leases rest on. -/
theorem submit_timing (n : Node) (operation : Operation) :
    (n.submit operation).1.timing = n.timing := by
  unfold submit
  split
  · next l role =>
      obtain ⟨hrole, hprior, hterm, _⟩ :=
        (n.append ⟨n.record.currentTerm, operation⟩).advanceCommit_same l
      have hframe := (n.append ⟨n.record.currentTerm, operation⟩).advanceCommit_frame l
      rw [timing, hterm, hrole, hprior, hframe.config]
      rfl
  · rfl

namespace Deed

/-- How there comes to be a candidate: it was one, it stands, or it counts a
vote. -/
theorem candidate_cases (h : Deed heard? now draw n n' said) (role' : n'.role = .candidate c') :
    (∃ c, n.role = .candidate c ∧ n'.record.currentTerm = n.record.currentTerm ∧
      c'.votes = c.votes ∧ c'.priorLease = c.priorLease) ∨
    (n.isLeader = false ∧ n'.record.currentTerm = n.record.currentTerm.next ∧
      c'.votes = [n.id] ∧ c'.priorLease = n'.priorLease.remaining now) ∨
    ∃ c sender r, n.role = .candidate c ∧ n'.record.currentTerm = n.record.currentTerm ∧
      heard? = some (sender, .voteReply r) ∧ r.granted = true ∧ r.term = n.record.currentTerm ∧
      c'.votes = c.votes.insert sender ∧ c'.priorLease = max c.priorLease r.priorLease := by
  cases h with
  | adopt heard newer =>
      obtain ⟨f, hf⟩ := inTerm_role n _ now draw
      exact nomatch hf.symm.trans role'
  | expire role expired =>
      obtain ⟨f, hf⟩ := asFollower_role n none now draw
      exact nomatch hf.symm.trans role'
  | follow heard current => exact nomatch role'
  | stand free =>
      obtain rfl := Role.candidate.inj role'
      exact .inr (.inl ⟨free.1, rfl, rfl, rfl⟩)
  | @count c sender r role tallying heard current =>
      obtain rfl := Role.candidate.inj role'
      cases hgranted : r.granted with
      | true =>
          refine .inr (.inr ⟨c, sender, r, role, rfl, heard, hgranted, current, ?_, ?_⟩) <;>
            simp [Candidate.record]
      | false => exact .inl ⟨c, role, rfl, by simp [Candidate.record]⟩
  | lose role tallying =>
      obtain rfl := Role.candidate.inj role'
      exact .inl ⟨_, role, rfl, rfl, rfl⟩
  | win role tallying majority granted => exact nomatch role'
  | round role begun => exact nomatch role'
  | advance role =>
      obtain ⟨hrole, _⟩ := n.commitTo_same (n.record.log.commitPoint n.record.currentTerm
        n.record.commitLength _)
      exact nomatch (role.symm.trans hrole.symm).trans role'
  | append operation role asked => exact nomatch role.symm.trans role'
  | grant heard grants =>
      exact .inl ⟨c', (voteFor_role n _).symm.trans role', voteFor_term n _, rfl, rfl⟩
  | deny heard grants => exact .inl ⟨c', role', rfl, rfl, rfl⟩
  | @accept f sender q role heard accepts observed =>
      exact nomatch (role.symm.trans (n.accepting_same q).1.symm).trans role'
  | refuse heard accepts => exact .inl ⟨c', role', rfl, rfl, rfl⟩
  | note role heard current success recorded => exact nomatch role'
  | lower role heard current failure => exact nomatch role'

/-- How there comes to be a leader, and with which lease: it has won, or it was
one, and then its lease is the same, begins a round or records an
acknowledgement. -/
theorem leader_cases (h : Deed heard? now draw n n' said) (role' : n'.role = .leader l') :
    n'.record.currentTerm = n.record.currentTerm ∧
    ((∃ c, n.role = .candidate c ∧ c.hasMajority n.clusterSize = true ∧
      LeaderLease.grant now n.config.lease c.priorLease = .ok l'.lease) ∨
    ∃ l, n.role = .leader l ∧
      (l'.lease = l.lease ∨ l.lease.beginRound now n.quorum = .ok l'.lease ∨
        ∃ sender r renewed, heard? = some (sender, .appendReply r) ∧ r.success = true ∧
          r.term = n.record.currentTerm ∧
          l.lease.recordAck sender r.round n.quorum = .ok (l'.lease, renewed))) := by
  cases h with
  | adopt heard newer =>
      obtain ⟨f, hf⟩ := inTerm_role n _ now draw
      exact nomatch hf.symm.trans role'
  | expire role expired =>
      obtain ⟨f, hf⟩ := asFollower_role n none now draw
      exact nomatch hf.symm.trans role'
  | follow heard current => exact nomatch role'
  | stand free => exact nomatch role'
  | count role tallying heard current => exact nomatch role'
  | lose role tallying => exact nomatch role'
  | @win c lease role tallying majority granted =>
      obtain rfl := Role.leader.inj role'
      exact ⟨rfl, .inl ⟨c, role, majority, granted⟩⟩
  | @round l lease role begun =>
      obtain rfl := Role.leader.inj role'
      exact ⟨rfl, .inr ⟨l, role, .inr (.inl begun)⟩⟩
  | @advance l role =>
      obtain ⟨hrole, _, hterm, _⟩ := n.commitTo_same (n.record.log.commitPoint n.record.currentTerm
        n.record.commitLength (l.replicatedOn n.lastIndex n.quorum))
      exact ⟨hterm, .inr ⟨l', hrole.symm.trans role', .inl rfl⟩⟩
  | append operation role asked => exact ⟨rfl, .inr ⟨l', role', .inl rfl⟩⟩
  | grant heard grants =>
      exact ⟨voteFor_term n _, .inr ⟨l', (voteFor_role n _).symm.trans role', .inl rfl⟩⟩
  | deny heard grants => exact ⟨rfl, .inr ⟨l', role', .inl rfl⟩⟩
  | @accept f sender q role heard accepts observed =>
      exact nomatch (role.symm.trans (n.accepting_same q).1.symm).trans role'
  | refuse heard accepts => exact ⟨rfl, .inr ⟨l', role', .inl rfl⟩⟩
  | @note l sender r lease renewed role heard current success recorded =>
      obtain rfl := Role.leader.inj role'
      exact ⟨rfl, .inr ⟨l, role, .inr (.inr ⟨sender, r, renewed, heard, success, current,
        recorded⟩)⟩⟩
  | @lower l sender r role heard current failure =>
      obtain rfl := Role.leader.inj role'
      exact ⟨rfl, .inr ⟨l, role, .inl rfl⟩⟩

/-- A node never expects an earlier lease to end sooner than it did. -/
theorem estimate_le (h : Deed heard? now draw n n' said) :
    n.priorLease.endsAt ≤ n'.priorLease.endsAt := by
  have hfollower : ∀ (n : Node) leader?,
      n.priorLease.endsAt ≤ (n.asFollower leader? now draw).priorLease.endsAt := by
    intro n leader?
    unfold asFollower
    split
    · exact Nat.le_refl _
    · exact Nat.le_refl _
    · exact Nat.le_max_left _ _
  cases h with
  | adopt heard newer => exact hfollower (n.withRecord _) none
  | expire role expired => exact hfollower n none
  | follow heard current => exact Nat.le_trans (hfollower n _) (Nat.le_max_left _ _)
  | stand free => exact Nat.le_refl _
  | count role tallying heard current => exact Nat.le_refl _
  | lose role tallying => exact Nat.le_refl _
  | win role tallying majority granted => exact Nat.le_refl _
  | round role begun => exact Nat.le_refl _
  | advance role => exact Nat.le_of_eq (congrArg PriorLease.endsAt (n.commitTo_same _).2.1.symm)
  | append operation role asked => exact Nat.le_refl _
  | grant heard grants =>
      exact Nat.le_of_eq (congrArg PriorLease.endsAt (voteFor_priorLease n _).symm)
  | deny heard grants => exact Nat.le_refl _
  | accept role heard accepts observed =>
      exact Nat.le_of_eq (congrArg PriorLease.endsAt (n.accepting_same _).2.1.symm)
  | refuse heard accepts => exact Nat.le_refl _
  | note role heard current success recorded => exact Nat.le_refl _
  | lower role heard current failure => exact Nat.le_refl _

/-! ## Messages -/

theorem not_mem_farewell {leader? : Option NodeId} {message : Message} :
    Command.send receiver message ∉ n.farewell leader? := by
  unfold farewell
  split <;> simp

/-- What is said, by kind: a vote is told with the voter's own estimate, a
request belongs to the latest round, and who confirms a request has the
leader's lease in mind. -/
theorem said_cases {message : Message} (h : Deed heard? now draw n n' said)
    (hm : .send receiver message ∈ said) :
    (∃ q, message = .voteRequest q) ∨
    (∃ r, message = .voteReply r ∧ (r.granted = true → r.term = n'.record.currentTerm ∧
      r.priorLease = n'.priorLease.remaining now)) ∨
    (∃ q l, message = .appendRequest q ∧ n'.role = .leader l ∧ receiver ∈ n'.peers ∧
      q.term = n'.record.currentTerm ∧ q.round = l.lease.round ∧ q.lease = n'.config.lease) ∨
    ∃ r, message = .appendReply r ∧ (r.success = true →
      ∃ q, heard? = some (receiver, .appendRequest q) ∧ r.term = q.term ∧ r.round = q.round ∧
        q.term = n'.record.currentTerm ∧ now + q.lease ≤ n'.priorLease.endsAt) := by
  cases h with
  | adopt heard newer => exact absurd hm not_mem_farewell
  | expire role expired => exact absurd hm not_mem_farewell
  | follow heard current => exact absurd hm not_mem_farewell
  | stand free =>
      obtain ⟨peer, _, heq⟩ := List.mem_map.mp hm
      obtain ⟨rfl, rfl⟩ := Command.send.inj heq
      exact .inl ⟨_, rfl⟩
  | count role tallying heard current => exact absurd hm (by simp)
  | lose role tallying => exact absurd hm (by simp)
  | win role tallying majority granted => exact absurd hm (by simp)
  | @round l lease role begun =>
      obtain ⟨peer, hpeer, hrequest⟩ := List.mem_filterMap.mp hm
      obtain ⟨q, hq, heq⟩ := Option.map_eq_some_iff.mp hrequest
      obtain ⟨rfl, rfl⟩ := Command.send.inj heq
      obtain ⟨sent, _, hq⟩ := Option.bind_eq_some_iff.mp hq
      obtain rfl := Option.some.inj hq
      exact .inr (.inr (.inl ⟨_, _, rfl, rfl, hpeer, rfl, rfl, rfl⟩))
  | advance role => exact absurd hm (by simp)
  | append operation role asked => exact absurd hm (by simp)
  | @grant sender q heard grants =>
      obtain ⟨rfl, rfl⟩ := Command.send.inj (List.mem_singleton.mp hm)
      refine .inr (.inl ⟨_, rfl, fun _ => ⟨(voteFor_term n _).symm, ?_⟩⟩)
      rw [voteFor_priorLease]
  | deny heard grants =>
      obtain ⟨rfl, rfl⟩ := Command.send.inj (List.mem_singleton.mp hm)
      exact .inr (.inl ⟨_, rfl, fun h => nomatch h⟩)
  | @accept f sender q role heard accepts observed =>
      obtain ⟨rfl, rfl⟩ := Command.send.inj (List.mem_singleton.mp hm)
      obtain ⟨_, hprior, hterm⟩ := n.accepting_same q
      have hcurrent : q.term = n.record.currentTerm := by
        unfold Node.accepts at accepts
        simp at accepts
        exact accepts.1
      refine .inr (.inr (.inr ⟨_, rfl, fun _ => ⟨q, heard, hcurrent.symm, rfl, ?_, ?_⟩⟩))
      · rw [hterm, hcurrent]
      · rw [hprior]
        exact observed
  | refuse heard accepts =>
      obtain ⟨rfl, rfl⟩ := Command.send.inj (List.mem_singleton.mp hm)
      exact .inr (.inr (.inr ⟨_, rfl, fun h => nomatch h⟩))
  | note role heard current success recorded => exact absurd hm (by simp)
  | lower role heard current failure => exact absurd hm (by simp)

end Deed

end Node

end Quorum
