import Quorum.Proofs.Handlers.Expiries

/-!
# Whom a node names as its leader

Where the name of a leader can come from: a node that leads names itself, a
follower has the name from a request of its term, and every other change of
role or term leaves no name behind (`Node.handle_heeds`). In the same way
requests come from nowhere but a leader, under its name and in its term
(`Node.handle_heads`).
-/

namespace Quorum

namespace Node

variable {heard? : Option (NodeId × Message)} {now : Instant} {draw : Nat} {n n' n₁ n₂ n₃ : Node}
  {sender receiver : NodeId} {message : Message} {q : AppendRequest} {l : Leader} {c : Candidate}
  {leader? : Option NodeId} {commands said : List Command} {event : Event}

/-! ## Names -/

/-- Where the leader that a node names after it was sent `heard?` can come
from. -/
inductive Heeds (heard? : Option (NodeId × Message)) (n n' : Node) : Prop
  | none (unnamed : n'.leader? = none)
  | leads (leads : n'.isLeader = true)
  | keep (role : n'.isLeader = n.isLeader) (named : n'.leader? = n.leader?)
      (term : n'.record.currentTerm = n.record.currentTerm)
  | told {sender : NodeId} {q : AppendRequest} (heard : heard? = some (sender, .appendRequest q))
      (named : n'.leader? = some q.leader) (term : n'.record.currentTerm = q.term)

theorem Heeds.refl (n : Node) : n.Heeds heard? n := .keep rfl rfl rfl

theorem Heeds.trans (h₁ : n₁.Heeds heard? n₂) (h₂ : n₂.Heeds heard? n₃) : n₁.Heeds heard? n₃ := by
  cases h₂ with
  | none unnamed => exact .none unnamed
  | leads leads => exact .leads leads
  | told heard named term => exact .told heard named term
  | keep role named term =>
      cases h₁ with
      | none unnamed => exact .none (named.trans unnamed)
      | leads leads => exact .leads (role.trans leads)
      | keep role' named' term' =>
          exact .keep (role.trans role') (named.trans named') (term.trans term')
      | told heard named' term' => exact .told heard (named.trans named') (term.trans term')

theorem isLeader_of_role (role : n'.role = n.role) : n'.isLeader = n.isLeader := by
  unfold isLeader
  rw [role]

theorem leader?_of_leads (leads : n.isLeader = true) : n.leader? = some n.id := by
  obtain ⟨l, role⟩ := isLeader_iff.mp leads
  unfold Node.leader?
  rw [role]

theorem Heeds.of_leader (role : n'.role = .leader l) : n.Heeds heard? n' :=
  .leads (isLeader_iff.mpr ⟨l, role⟩)

/-- A node whose role and term are left alone names whom it named. -/
theorem Heeds.of_role (role : n'.role = n.role) (id : n'.id = n.id)
    (term : n'.record.currentTerm = n.record.currentTerm) : n.Heeds heard? n' := by
  refine .keep (isLeader_of_role role) ?_ term
  unfold Node.leader?
  rw [role, id]

theorem leader?_asFollower (n : Node) (leader? : Option NodeId) (now : Instant) (draw : Nat) :
    (n.asFollower leader? now draw).leader? = leader? := by
  unfold asFollower
  split <;> rfl

theorem Deed.heeds (h : Deed heard? now draw n n' said) : n.Heeds heard? n' := by
  cases h with
  | adopt heard newer => exact .none (leader?_asFollower _ none now draw)
  | expire role expired => exact .none (leader?_asFollower _ none now draw)
  | @follow sender q heard current =>
      exact .told heard rfl ((following_term n q now draw).trans current.symm)
  | stand free => exact .none rfl
  | count role tallying heard current => exact .none rfl
  | lose role tallying => exact .none rfl
  | win role tallying majority granted => exact .of_leader rfl
  | round role begun => exact .of_leader rfl
  | advance role =>
      obtain ⟨hrole, _, _, _⟩ := n.commitTo_same (n.record.log.commitPoint _ _ _)
      exact .of_leader (hrole.trans role)
  | append operation role asked => exact .of_leader role
  | @grant sender q heard grants =>
      exact .of_role (voteFor_role n _) (voteFor_frame n q.candidate).id (voteFor_term n _)
  | deny heard grants => exact .refl n
  | @accept f sender q role heard accepts observed =>
      obtain ⟨hrole, _, hterm⟩ := n.accepting_same q
      exact .of_role hrole
        ((takeEntriesBehind_frame q.prevIndex q.entries).trans (commitTo_frame _)).id hterm
  | refuse heard accepts => exact .refl n
  | note role heard current success recorded => exact .of_leader rfl
  | lower role heard current failure => exact .of_leader rfl

theorem Deeds.heeds (h : Deeds heard? now draw n n' said) : n.Heeds heard? n' := by
  induction h with
  | nil n => exact .refl n
  | cons first _ ih => exact first.heeds.trans ih

theorem handle_heeds (h : n.handle event now draw = .ok (n', commands)) :
    n.Heeds event.heard? n' :=
  (handle_deeds h).heeds

theorem submit_heeds (n : Node) (operation : Operation) : n.Heeds none (n.submit operation).1 :=
  (n.submit_deeds operation 0 0).heeds

/-! ## Requests -/

/-- All requests for entries among the commands are those of a leader. -/
def Heads (n : Node) (commands : List Command) : Prop :=
  ∀ receiver q, .send receiver (.appendRequest q) ∈ commands →
    n.isLeader = true ∧ q.term = n.record.currentTerm ∧ q.leader = n.id

theorem Heads.append (h : n.Heads commands) (h' : n.Heads said) : n.Heads (commands ++ said) := by
  intro receiver q hq
  rcases List.mem_append.mp hq with hq | hq
  · exact h receiver q hq
  · exact h' receiver q hq

theorem Heads.nil (n : Node) : n.Heads [] := by
  intro receiver q hq
  exact absurd hq List.not_mem_nil

theorem Heads.one (other : ∀ q, message ≠ .appendRequest q) :
    n.Heads [.send sender message] := by
  intro receiver q hq
  obtain ⟨-, rfl⟩ := Command.send.inj (List.mem_singleton.mp hq)
  exact absurd rfl (other q)

theorem Heads.farewell (m : Node) (leader? : Option NodeId) : n.Heads (m.farewell leader?) := by
  intro receiver q hq
  unfold Node.farewell at hq
  split at hq
  · exact nomatch List.mem_singleton.mp hq
  · exact absurd hq List.not_mem_nil

/-- The requests of a round are those of its leader, committing or not. -/
theorem heads_advanceCommit (m : Node) (l l' : Leader) (leads : m.isLeader = true) :
    (m.advanceCommit l').Heads (m.roundRequests l) := by
  intro receiver q hq
  obtain ⟨hrole, _, hterm, _⟩ := m.commitTo_same (m.record.log.commitPoint _ _ _)
  have hframe : m.Frame (m.advanceCommit l') := commitTo_frame _
  have hsent : ⟨0, receiver, .appendRequest q⟩ ∈ sends 0 (m.roundRequests l) :=
    List.mem_filterMap.mpr ⟨_, hq, rfl⟩
  obtain ⟨p, _, sent, _, heq⟩ := exists_of_mem_roundRequests hsent
  obtain ⟨-, -, hmessage⟩ := InFlight.mk.inj heq
  obtain rfl := Message.appendRequest.inj hmessage
  refine ⟨(isLeader_of_role hrole).trans leads, hterm.symm, ?_⟩
  show m.id = (m.advanceCommit l').id
  exact hframe.id.symm

theorem heads_canvass (m : Node) (now : Instant) : n.Heads (m.canvass now) := by
  intro receiver q hq
  obtain ⟨peer, _, heq⟩ := List.mem_map.mp hq
  exact nomatch (Command.send.inj heq).2

theorem Expiry.heads {timer : Timer} (h : Expiry now draw n timer n' said) : n'.Heads said := by
  cases h with
  | idle => exact .nil _
  | stand free => exact heads_canvass n now
  | fail free => exact heads_canvass n now
  | win free granted begun => exact (heads_canvass n now).append (heads_advanceCommit _ _ _ rfl)
  | lose role tallying passed => exact .nil _
  | round role begun => exact heads_advanceCommit _ _ _ rfl
  | resign role expired => exact .farewell n none

theorem Response.heads (h : Response now draw n sender message n' said) : n'.Heads said := by
  cases h with
  | grant grants => exact .one fun q hq => nomatch hq
  | deny grants => exact .one fun q hq => nomatch hq
  | discard idle => exact .nil _
  | count role tallying current => exact .nil _
  | lose role tallying current => exact .nil _
  | win role tallying current majority granted begun => exact heads_advanceCommit _ _ _ rfl
  | reject stale => exact .one fun q hq => nomatch hq
  | refuse current accepts => exact (Heads.farewell n _).append (.one fun q hq => nomatch hq)
  | accept current accepts => exact (Heads.farewell n _).append (.one fun q hq => nomatch hq)
  | ignore idle => exact .nil _
  | note role current success recorded => exact .nil _
  | lower role current failure => exact .nil _

theorem handleMessage_heads (h : n.handleMessage sender message now draw = .ok (n', commands)) :
    n'.Heads commands := by
  obtain ⟨n₁, lost, said, hadopt, hresponse, rfl⟩ := handleMessage_responds h
  refine Heads.append ?_ hresponse.heads
  obtain ⟨_, _, rfl⟩ | ⟨_, _, rfl⟩ := adoptTerm_cases hadopt
  · exact .farewell n none
  · exact .nil _

/-- Whatever happens to a node, the requests that it sends then are those of
the leader that it is when all is done. -/
theorem handle_heads (h : n.handle event now draw = .ok (n', commands)) : n'.Heads commands := by
  cases event with
  | electionTimeout => exact (timer_expires .election h).heads
  | voteRoundTimeout => exact (timer_expires .voteRound h).heads
  | heartbeatTimeout => exact (timer_expires .heartbeat h).heads
  | leaseTimeout => exact (timer_expires .leaseExpiry h).heads
  | message sender message => exact handleMessage_heads h

end Node

end Quorum
