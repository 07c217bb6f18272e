import Quorum.Proofs.Handlers.Timing

/-!
# What a node vouches for

Two of the messages that a node sends bind it for some time: a vote that it
grants, which tells how long an earlier leader may still answer reads, and the
confirmation of a leader's request, by which it lets that leader answer them.
Here is what a whole handler guarantees when it sends one of the two.
-/

namespace Quorum

theorem Event.eq_of_heard {event : Event} {sender : NodeId} {message : Message}
    (h : event.heard? = some (sender, message)) : event = .message sender message := by
  cases event with
  | message a m =>
      obtain ⟨rfl, rfl⟩ := Prod.mk.inj (Option.some.inj h)
      rfl
  | electionTimeout => exact nomatch h
  | voteRoundTimeout => exact nomatch h
  | heartbeatTimeout => exact nomatch h
  | leaseTimeout => exact nomatch h

namespace Node

variable {heard? : Option (NodeId × Message)} {now : Instant} {draw : Nat} {n n' : Node}
  {said commands : List Command} {receiver sender : NodeId} {message : Message} {event : Event}

/-- A node never expects an earlier lease to end sooner than it did. -/
theorem Deeds.estimate_le (h : Deeds heard? now draw n n' said) :
    n.priorLease.endsAt ≤ n'.priorLease.endsAt := by
  induction h with
  | nil => exact Nat.le_refl _
  | cons first _ ih => exact Nat.le_trans first.estimate_le ih

/-- Only who was asked replies, and to nobody else. -/
theorem Deed.reply_heard (h : Deed heard? now draw n n' said)
    (hm : .send receiver message ∈ said) :
    (∀ r, message = .voteReply r → ∃ q, heard? = some (receiver, .voteRequest q)) ∧
      ∀ r, message = .appendReply r → ∃ q, heard? = some (receiver, .appendRequest q) := by
  cases h with
  | adopt heard newer => exact absurd hm not_mem_farewell
  | expire role expired => exact absurd hm not_mem_farewell
  | follow heard current => exact absurd hm not_mem_farewell
  | stand free =>
      obtain ⟨peer, _, heq⟩ := List.mem_map.mp hm
      obtain ⟨_, rfl⟩ := Command.send.inj heq
      exact ⟨fun _ h => (nomatch h), fun _ h => (nomatch h)⟩
  | count role tallying heard current => exact absurd hm (by simp)
  | lose role tallying => exact absurd hm (by simp)
  | win role tallying majority granted => exact absurd hm (by simp)
  | round role begun =>
      obtain ⟨peer, _, hrequest⟩ := List.mem_filterMap.mp hm
      obtain ⟨q, _, heq⟩ := Option.map_eq_some_iff.mp hrequest
      obtain ⟨_, rfl⟩ := Command.send.inj heq
      exact ⟨fun _ h => (nomatch h), fun _ h => (nomatch h)⟩
  | advance role => exact absurd hm (by simp)
  | append operation role asked => exact absurd hm (by simp)
  | grant heard grants =>
      obtain ⟨rfl, rfl⟩ := Command.send.inj (List.mem_singleton.mp hm)
      exact ⟨fun _ _ => ⟨_, heard⟩, fun _ h => (nomatch h)⟩
  | deny heard grants =>
      obtain ⟨rfl, rfl⟩ := Command.send.inj (List.mem_singleton.mp hm)
      exact ⟨fun _ _ => ⟨_, heard⟩, fun _ h => (nomatch h)⟩
  | accept role heard accepts observed =>
      obtain ⟨rfl, rfl⟩ := Command.send.inj (List.mem_singleton.mp hm)
      exact ⟨fun _ h => (nomatch h), fun _ _ => ⟨_, heard⟩⟩
  | refuse heard accepts =>
      obtain ⟨rfl, rfl⟩ := Command.send.inj (List.mem_singleton.mp hm)
      exact ⟨fun _ h => (nomatch h), fun _ _ => ⟨_, heard⟩⟩
  | note role heard current success recorded => exact absurd hm (by simp)
  | lower role heard current failure => exact absurd hm (by simp)

theorem Deeds.reply_heard (h : Deeds heard? now draw n n' said)
    (hm : .send receiver message ∈ said) :
    (∀ r, message = .voteReply r → ∃ q, heard? = some (receiver, .voteRequest q)) ∧
      ∀ r, message = .appendReply r → ∃ q, heard? = some (receiver, .appendRequest q) := by
  induction h with
  | nil => exact absurd hm (by simp)
  | cons first _ ih => exact (List.mem_append.mp hm).elim first.reply_heard ih

/-- Requests go to peers. -/
theorem Deeds.request_peer {q : AppendRequest} (h : Deeds heard? now draw n n' said)
    (hm : .send receiver (.appendRequest q) ∈ said) : receiver ∈ n.peers := by
  induction h with
  | nil => exact absurd hm (by simp)
  | cons first _ ih =>
      rcases List.mem_append.mp hm with hm | hm
      · rcases first.said_cases hm with ⟨_, hq⟩ | ⟨_, hr, _⟩ | ⟨_, _, _, _, hpeer, _⟩ | ⟨_, hr, _⟩
        · exact nomatch hq
        · exact nomatch hr
        · exact first.frame.peers ▸ hpeer
        · exact nomatch hr
      · exact first.frame.peers ▸ ih hm

/-- Whatever a message makes a node send is sent in the response to it, after
the term of the message has been adopted. -/
theorem exists_response {m : Message}
    (h : n.handle (.message sender message) now draw = .ok (n', commands))
    (hm : .send receiver m ∈ commands) :
    ∃ n₁ lost said, n.adoptTerm message.term now draw = .ok (n₁, lost) ∧
      Response now draw n₁ sender message n' said ∧ .send receiver m ∈ said := by
  obtain ⟨n₁, lost, said, hadopt, hresponse, rfl⟩ := handleMessage_responds h
  refine ⟨n₁, lost, said, hadopt, hresponse, (List.mem_append.mp hm).resolve_left fun hlost => ?_⟩
  obtain ⟨_, _, rfl⟩ | ⟨_, _, rfl⟩ := adoptTerm_cases hadopt
  · exact Deed.not_mem_farewell hlost
  · exact absurd hlost (by simp)

/-- A handler that grants a vote tells no less than what its node, when it is
done, expects of earlier leases. -/
theorem handle_granted {r : VoteReply} (h : n.handle event now draw = .ok (n', commands))
    (hm : .send receiver (.voteReply r) ∈ commands) (granted : r.granted = true) :
    n'.priorLease.endsAt ≤ now + r.priorLease := by
  obtain ⟨q, hheard⟩ := ((handle_deeds h).reply_heard hm).1 r rfl
  obtain rfl := Event.eq_of_heard hheard
  obtain ⟨n₁, _, said, _, hresponse, hsaid⟩ := exists_response h hm
  cases hresponse with
  | grant grants =>
      obtain ⟨_, hreply⟩ := Command.send.inj (List.mem_singleton.mp hsaid)
      obtain rfl := Message.voteReply.inj hreply
      rw [voteFor_priorLease]
      exact n₁.priorLease.le_add_remaining now
  | deny grants =>
      obtain ⟨_, hreply⟩ := Command.send.inj (List.mem_singleton.mp hsaid)
      obtain rfl := Message.voteReply.inj hreply
      exact nomatch granted

/-- A handler that confirms a request confirms all that the leader had when it
sent it, in the leader's term, and leaves its node with the leader's lease in
mind. -/
theorem handle_confirmed {r : AppendReply} (h : n.handle event now draw = .ok (n', commands))
    (hm : .send receiver (.appendReply r) ∈ commands) (success : r.success = true) :
    ∃ q, event = .message receiver (.appendRequest q) ∧ r.term = q.term ∧
      r.acked = q.prevIndex + q.entries.length ∧ now + q.lease ≤ n'.priorLease.endsAt := by
  obtain ⟨q, hheard⟩ := ((handle_deeds h).reply_heard hm).2 r rfl
  obtain rfl := Event.eq_of_heard hheard
  refine ⟨q, rfl, ?_⟩
  obtain ⟨n₁, _, said, _, hresponse, hsaid⟩ := exists_response h hm
  cases hresponse with
  | reject stale =>
      obtain ⟨_, hreply⟩ := Command.send.inj (List.mem_singleton.mp hsaid)
      obtain rfl := Message.appendReply.inj hreply
      exact nomatch success
  | refuse current accepts =>
      have hlast := (List.mem_append.mp hsaid).resolve_left Deed.not_mem_farewell
      obtain ⟨_, hreply⟩ := Command.send.inj (List.mem_singleton.mp hlast)
      obtain rfl := Message.appendReply.inj hreply
      exact nomatch success
  | accept current accepts =>
      have hlast := (List.mem_append.mp hsaid).resolve_left Deed.not_mem_farewell
      obtain ⟨_, hreply⟩ := Command.send.inj (List.mem_singleton.mp hlast)
      obtain rfl := Message.appendReply.inj hreply
      refine ⟨current.symm, rfl, ?_⟩
      rw [(accepting_same _ q).2.1]
      exact Nat.le_max_right _ _

end Node

end Quorum
