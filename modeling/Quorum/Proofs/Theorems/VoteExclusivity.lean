import Quorum.Proofs.Handlers.Rewriting
import Quorum.Proofs.Run.Life
import Quorum.Proofs.Run.Persistence

/-!
# One vote for each term

A node votes for others by granting their requests and for itself by standing
for election. Its record names the candidate for as long as the term lasts,
through restarts too, so all its votes in a term are for one candidate. In the
last term that a word can hold standing for election starts no new term, and
the node votes for itself whomever it has voted for.
-/

namespace Quorum

/-! ## Votes on record -/

/-- The vote on record lasts as long as its term; only in the last term can it
pass from another candidate to the node itself. -/
structure Record.KeepsVote (own : NodeId) (before after : Record) : Prop where
  term_le : before.currentTerm ≤ after.currentTerm
  vote : ∀ c, after.currentTerm = before.currentTerm → before.votedFor = some c →
    after.votedFor = some c ∨ (Word.max ≤ before.currentTerm ∧ after.votedFor = some own)

namespace Record.KeepsVote

variable {own : NodeId} {a b c : Record}

theorem of_same (hterm : b.currentTerm = a.currentTerm) (hvote : b.votedFor = a.votedFor) :
    KeepsVote own a b :=
  ⟨Nat.le_of_eq hterm.symm, fun _ _ hvoted => .inl (hvote.trans hvoted)⟩

/-- In a newer term the vote is free. -/
theorem of_newer (h : a.currentTerm < b.currentTerm) : KeepsVote own a b :=
  ⟨Nat.le_of_lt h, fun _ hsame => absurd hsame (Nat.ne_of_gt h)⟩

theorem trans (h₁ : KeepsVote own a b) (h₂ : KeepsVote own b c) : KeepsVote own a c := by
  refine ⟨Nat.le_trans h₁.term_le h₂.term_le, ?_⟩
  intro d hterm hvoted
  -- the term in between is the same too
  have hfirst : b.currentTerm = a.currentTerm :=
    Nat.le_antisymm (hterm ▸ h₂.term_le) h₁.term_le
  have hsecond : c.currentTerm = b.currentTerm := hterm.trans hfirst.symm
  rcases h₁.vote d hfirst hvoted with hkept | ⟨hlast, hown⟩
  · rw [← hfirst]
    exact h₂.vote d hsecond hkept
  · rcases h₂.vote own hsecond hown with hown | ⟨_, hown⟩
    · exact .inr ⟨hlast, hown⟩
    · exact .inr ⟨hlast, hown⟩

end Record.KeepsVote

namespace Node

variable {heard? : Option (NodeId × Message)} {now : Instant} {draw : Nat} {n n' : Node}
  {said : List Command} {record : Record}

theorem Rewrites.keepsVote (h : Rewrites heard? n record) : n.record.KeepsVote n.id record := by
  cases h with
  | keep => exact .of_same rfl rfl
  | adopt heard newer => exact .of_newer newer
  | stand =>
      by_cases hlast : n.record.currentTerm < Word.max
      · apply Record.KeepsVote.of_newer
        show n.record.currentTerm < n.record.currentTerm.next
        unfold Term.next
        rw [if_pos hlast]
        exact Nat.lt_succ_self _
      · exact ⟨Term.le_next _, fun c _ _ => .inr ⟨Nat.le_of_not_lt hlast, rfl⟩⟩
  | vote heard free =>
      refine ⟨Nat.le_refl _, ?_⟩
      intro c _ hvoted
      rw [free] at hvoted
      exact nomatch hvoted
  | append operation asked => exact .of_same rfl rfl
  | commit role more within => exact .of_same rfl rfl
  | accept heard accepts => exact .of_same rfl rfl

theorem Deeds.keepsVote (h : Deeds heard? now draw n n' said) :
    n.record.KeepsVote n.id n'.record := by
  induction h with
  | nil n => exact .of_same rfl rfl
  | cons first _ ih =>
      rw [first.frame.id] at ih
      exact first.rewrites.keepsVote.trans ih

/-- Whoever grants a vote has it on record, in the term of the reply. -/
theorem handle_voted {event : Event} {commands : List Command} {receiver : NodeId}
    {reply : VoteReply} (h : n.handle event now draw = .ok (n', commands))
    (hm : .send receiver (.voteReply reply) ∈ commands) (granted : reply.granted = true) :
    ∃ sender q, event = .message sender (.voteRequest q) ∧
      n'.record.currentTerm = reply.term ∧ n'.record.votedFor = some q.candidate := by
  obtain ⟨q, hheard⟩ := ((handle_deeds h).reply_heard hm).1 reply rfl
  obtain rfl := Event.eq_of_heard hheard
  obtain ⟨n₁, _, said, _, hresponse, hsaid⟩ := exists_response h hm
  refine ⟨receiver, q, rfl, ?_⟩
  cases hresponse with
  | grant grants =>
      obtain ⟨_, hreply⟩ := Command.send.inj (List.mem_singleton.mp hsaid)
      obtain rfl := Message.voteReply.inj hreply
      rw [voteFor_record]
      exact ⟨rfl, rfl⟩
  | deny grants =>
      obtain ⟨_, hreply⟩ := Command.send.inj (List.mem_singleton.mp hsaid)
      obtain rfl := Message.voteReply.inj hreply
      exact nomatch granted

theorem startElection_voted {commands : List Command}
    (h : n.startElection now draw = .ok (n', commands)) : n'.record.votedFor = some n.id := by
  obtain ⟨deadline, _, h⟩ := exists_of_bind_ok h
  obtain ⟨⟨elected, more⟩, htally, h⟩ := exists_of_bind_ok h
  obtain ⟨rfl, rfl⟩ := h
  obtain ⟨_, lease, _, _, _, rfl, _⟩ | ⟨rfl, _⟩ | ⟨rfl, _⟩ := tally_cases htally
  · unfold advanceCommit
    rw [commitTo_record]
    rfl
  · rfl
  · rfl

/-- Whoever stands for election has its vote for itself on record. -/
theorem electionTimeout_voted {commands : List Command}
    (free : n.isLeader = false ∧ ∀ c, n.role = .candidate c → c.tallying = false)
    (h : n.electionTimeout now draw = .ok (n', commands)) : n'.record.votedFor = some n.id := by
  unfold electionTimeout at h
  split at h
  · next l role =>
      have hleads := isLeader_iff.mpr ⟨l, role⟩
      rw [free.1] at hleads
      exact absurd hleads Bool.false_ne_true
  · next c role =>
      rw [free.2 c role, if_neg Bool.false_ne_true] at h
      exact startElection_voted h
  · exact startElection_voted h

end Node

/-! ## Votes in a life -/

/-- A running node is who it should be, and its medium knows of its vote. -/
structure Replica.Honest (who : Identity) (r : Replica MemoryStorage) : Prop where
  id : r.node.id = who.id
  term : r.storage.record.currentTerm = r.node.record.currentTerm
  vote : r.storage.record.votedFor = r.node.record.votedFor

/-- Whatever a call comes to, the medium knows of the vote again. -/
theorem Replica.Made.keepsVote {r r' : Replica MemoryStorage} {who : Identity}
    {result : Except Empty Release} (h : r.Made r' result) (honest : r.Honest who) :
    r'.Honest who ∧ r.node.record.KeepsVote who.id r'.node.record := by
  obtain ⟨hid, hterm, hvote⟩ := honest
  cases h with
  | aside release => exact ⟨⟨hid, hterm, hvote⟩, .of_same rfl rfl⟩
  | report => exact ⟨⟨hid, hterm, hvote⟩, .of_same rfl rfl⟩
  | @unchanged _ _ _ n' _ deeds clean release =>
      have hsame : n'.record = r.node.record := (deeds.frame.saved clean).2
      refine ⟨⟨deeds.frame.id.trans hid, ?_, ?_⟩, hid ▸ deeds.keepsVote⟩
      · show r.storage.record.currentTerm = n'.record.currentTerm
        rw [hsame, hterm]
      · show r.storage.record.votedFor = n'.record.votedFor
        rw [hsame, hvote]
  | @saved _ _ _ n' _ storage deeds save release =>
      have hsaved : storage.record = n'.record := congrArg (·.1.record) save.symm
      refine ⟨⟨deeds.frame.id.trans hid, ?_, ?_⟩, hid ▸ deeds.keepsVote⟩
      · exact congrArg (·.currentTerm) hsaved
      · exact congrArg (·.votedFor) hsaved
  | failed deeds save => exact nomatch congrArg (·.2) save

namespace Host

variable {host : Host MemoryStorage} {who : Identity}

/-- The record of a running node, or the one that is left of it. -/
def record : Host MemoryStorage → Record
  | .up r => r.node.record
  | .down medium => medium.record

/-- If the node runs, it is an honest one. -/
def Honest (who : Identity) (host : Host MemoryStorage) : Prop :=
  ∀ r, host = .up r → r.Honest who

/-- What is left of an honest node has its vote. -/
theorem honest_down {r : Replica MemoryStorage} (honest : r.Honest who) :
    (down r.storage).Honest who ∧ r.node.record.KeepsVote who.id (down r.storage).record :=
  ⟨fun _ h => (nomatch h), .of_same honest.term honest.vote⟩

theorem step_keepsVote (h : host.Honest who) (happening : Happening) :
    (host.step who happening).1.Honest who ∧
      host.record.KeepsVote who.id (host.step who happening).1.record := by
  have hidle : host.Honest who ∧ host.record.KeepsVote who.id host.record :=
    ⟨h, .of_same rfl rfl⟩
  cases host with
  | up r =>
      cases happening with
      | crash => exact honest_down (h r rfl)
      | restart now draw => exact hidle
      | call c =>
          cases hcall : r.call c with
          | error overflow =>
              rw [step_call_error hcall]
              exact honest_down (h r rfl)
          | ok outcome =>
              obtain ⟨r', result⟩ := outcome
              obtain ⟨hhonest, hkept⟩ := (Replica.call_made hcall).keepsVote (h r rfl)
              rw [step_call_ok hcall]
              refine ⟨?_, hkept⟩
              intro r'' hr
              obtain rfl := Host.up.inj hr
              exact hhonest
  | down medium =>
      cases happening with
      | crash => exact hidle
      | call c => exact hidle
      | restart now draw =>
          rcases step_restart_cases who medium now draw with ⟨r, hboot, hstep⟩ | ⟨_, hstep⟩
          · obtain ⟨n, hn, hwake⟩ := Replica.boot_ok hboot
            obtain rfl : r = Replica.wake n medium := hwake
            obtain ⟨hid, _, _, _, hcore⟩ := Replica.restore_ok hn
            -- waking up may cut the commit length, but not the term or the vote
            have hterm := congrArg (·.record.currentTerm) hcore
            have hvote := congrArg (·.record.votedFor) hcore
            rw [hstep]
            refine ⟨?_, .of_same hterm hvote⟩
            intro r hr
            obtain rfl := Host.up.inj hr
            exact ⟨hid, hterm.symm, hvote.symm⟩
          · rw [hstep]
            exact hidle

end Host

namespace Life

variable {l : Life MemoryStorage} {j k : Nat} {term : Term} {c c' : NodeId}

/-- In the step after the first `k` the node casts its vote of a term. -/
inductive Casts (l : Life MemoryStorage) (k : Nat) (term : Term) : NodeId → Prop
  /-- It grants the request of a candidate. -/
  | grant {sender receiver : NodeId} {q : VoteRequest} {reply : VoteReply} {now : Instant}
      {draw : Nat}
      (asked : l.happenings[k]? =
        some (.call (.event (.message sender (.voteRequest q)) now draw)))
      (said : .send receiver (.voteReply reply) ∈ l.said k) (granted : reply.granted = true)
      (current : reply.term = term) : Casts l k term q.candidate
  /-- It stands for election, as every node does at its election timeout that
  neither leads nor counts votes. -/
  | stand {r r' : Replica MemoryStorage} {now : Instant} {draw : Nat}
      (fired : l.happenings[k]? = some (.call (.event .electionTimeout now draw)))
      (up : l.state k = .up r)
      (free : r.node.isLeader = false ∧ ∀ c, r.node.role = .candidate c → c.tallying = false)
      (stood : l.state (k + 1) = .up r') (current : r'.node.record.currentTerm = term) :
      Casts l k term l.who.id

theorem honest (l : Life MemoryStorage) (k : Nat) : (l.state k).Honest l.who := by
  induction k with
  | zero => exact fun _ h => nomatch h
  | succ k ih =>
      cases hhappening : l.happenings[k]? with
      | none =>
          rw [l.state_of_length_le (List.getElem?_eq_none_iff.mp hhappening)]
          exact ih
      | some happening =>
          rw [l.state_succ hhappening]
          exact (Host.step_keepsVote ih happening).1

/-- From any state of a life to any later one the vote is kept. -/
theorem keepsVote (l : Life MemoryStorage) (hjk : j ≤ k) :
    (l.state j).record.KeepsVote l.who.id (l.state k).record := by
  induction hjk with
  | refl => exact .of_same rfl rfl
  | @step k _ ih =>
      cases hhappening : l.happenings[k]? with
      | none =>
          rw [l.state_of_length_le (List.getElem?_eq_none_iff.mp hhappening)]
          exact ih
      | some happening =>
          rw [l.state_succ hhappening]
          exact ih.trans (Host.step_keepsVote (l.honest k) happening).2

/-- A vote that is cast is on record. -/
theorem Casts.voted (h : l.Casts k term c) :
    (l.state (k + 1)).record.currentTerm = term ∧
      (l.state (k + 1)).record.votedFor = some c := by
  cases h with
  | grant asked said granted current =>
      rw [Life.said, asked] at said
      obtain ⟨_, n', commands, r', _, hnode, hm, hup, _, hrecord⟩ := Host.step_said said
      obtain ⟨_, q, hevent, hterm, hvoted⟩ := Node.handle_voted hnode hm granted
      obtain ⟨-, hq⟩ := Event.message.inj hevent
      obtain rfl := Message.voteRequest.inj hq
      rw [l.state_succ asked, hup]
      show r'.node.record.currentTerm = term ∧ r'.node.record.votedFor = _
      rw [hrecord]
      exact ⟨hterm.trans current, hvoted⟩
  | @stand r r' now draw fired up free stood current =>
      have hid : r.node.id = l.who.id := (l.honest k r up).id
      rw [stood]
      refine ⟨current, ?_⟩
      rw [l.state_succ fired, up] at stood
      cases hcall : r.call (.event .electionTimeout now draw) with
      | error overflow =>
          rw [Host.step_call_error hcall] at stood
          exact nomatch stood
      | ok outcome =>
          obtain ⟨r'', result⟩ := outcome
          rw [Host.step_call_ok hcall] at stood
          obtain rfl := Host.up.inj stood
          obtain ⟨⟨kept, outcome⟩, hhandle, hcall⟩ := exists_of_bind_ok hcall
          obtain ⟨rfl, -⟩ := hcall
          obtain ⟨n', hnode, rfl⟩ := Replica.handle_ok hhandle
          have hvoted := Node.electionTimeout_voted free hnode
          -- saving and applying leave the record as it is
          have hcore := congrArg (·.record.votedFor) (r.settle_core n')
          rw [← hid, ← hvoted]
          exact hcore

end Life

/-- All votes that a node casts in one term are for one candidate, the votes
for itself included, whatever it hears and however often it starts over. Only
in the last term can it vote for itself after it has voted for another. -/
theorem vote_exclusivity (l : Life MemoryStorage) {j k : Nat} {term : Term} {c c' : NodeId}
    (hjk : j ≤ k) (hc : l.Casts j term c) (hc' : l.Casts k term c') :
    c' = c ∨ (Word.max ≤ term ∧ c' = l.who.id) := by
  obtain ⟨hterm, hvoted⟩ := hc.voted
  obtain ⟨hterm', hvoted'⟩ := hc'.voted
  have hkept := l.keepsVote (Nat.succ_le_succ hjk)
  rcases hkept.vote c (hterm'.trans hterm.symm) hvoted with hsame | ⟨hlast, hown⟩
  · exact .inl (Option.some.inj (hvoted'.symm.trans hsame))
  · rw [hterm] at hlast
    exact .inr ⟨hlast, Option.some.inj (hvoted'.symm.trans hown)⟩

/-- Node 1 votes for node 2, starts over and is asked again. -/
def constant : Life MemoryStorage where
  who := ⟨1, [2, 3], {}⟩
  medium := {}
  happenings :=
    [.restart 0 0, .call (.event (.message 2 (.voteRequest ⟨1, 2, 0, 0⟩)) 0 0), .crash,
      .restart 0 0, .call (.event (.message 2 (.voteRequest ⟨1, 2, 0, 0⟩)) 0 0)]

theorem vote_exclusivity_constant :
    (constant.Casts 1 1 2 ∧ constant.Casts 4 1 2) ∧
      ((2 : NodeId) = 2 ∨ (Word.max ≤ 1 ∧ 2 = 1)) := by
  have hgrants : .send 2 (.voteReply ⟨1, true, 0⟩) ∈ constant.said 1 ∧
      .send 2 (.voteReply ⟨1, true, 0⟩) ∈ constant.said 4 := by decide +kernel
  have hfirst : constant.Casts 1 1 (VoteRequest.mk 1 2 0 0).candidate :=
    .grant rfl hgrants.1 rfl rfl
  have hagain : constant.Casts 4 1 (VoteRequest.mk 1 2 0 0).candidate :=
    .grant rfl hgrants.2 rfl rfl
  exact ⟨⟨hfirst, hagain⟩, vote_exclusivity constant (by decide) hfirst hagain⟩

/-- Node 1 votes for node 2 in the last term, and stands for election in it. -/
def faithless : Life MemoryStorage where
  who := ⟨1, [2, 3], {}⟩
  medium := {}
  happenings :=
    [.restart 0 0, .call (.event (.message 2 (.voteRequest ⟨Word.max, 2, 0, 0⟩)) 0 0),
      .call (.event .electionTimeout 0 0)]

/-- In the last term a node can vote for another and then for itself. -/
theorem not_exclusive_in_last_term :
    ¬ ∀ (l : Life MemoryStorage) (j k : Nat) (term : Term) (c c' : NodeId),
      j ≤ k → l.Casts j term c → l.Casts k term c' → c' = c := by
  intro h
  have hgrants : .send 2 (.voteReply ⟨Word.max, true, 0⟩) ∈ faithless.said 1 := by decide +kernel
  have hother : faithless.Casts 1 Word.max (VoteRequest.mk Word.max 2 0 0).candidate :=
    .grant rfl hgrants rfl rfl
  obtain ⟨r, hup, f, role⟩ : ∃ r, faithless.state 2 = .up r ∧ ∃ f, r.node.role = .follower f :=
    ⟨_, rfl, _, rfl⟩
  obtain ⟨r', hstood, hterm⟩ : ∃ r', faithless.state 3 = .up r' ∧
      r'.node.record.currentTerm = Word.max := ⟨_, rfl, rfl⟩
  have hown : faithless.Casts 2 Word.max 1 :=
    .stand rfl hup ⟨Node.isLeader_of_follower role, fun c hc => by simp [role] at hc⟩ hstood hterm
  exact absurd (h faithless 1 2 _ _ _ (by decide) hother hown) (by decide)

end Quorum
