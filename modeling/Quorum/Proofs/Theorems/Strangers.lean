import Quorum.Proofs.Handlers.Counting
import Quorum.Proofs.Handlers.Settling
import Quorum.Proofs.Run.Lasting
import Quorum.Storage.Memory

/-!
# Replies of strangers

A node does not look whether a reply comes from one of its peers. Only the rows
of a leader know their peers, so that nothing is ever committed on the word of a
stranger. A vote or an acknowledgement of a stranger is counted like that of a
peer: it changes nothing as long as it does not complete a count, but it may be
the vote that wins an election, the answer that ends it, or the acknowledgement
that renews a lease.
-/

namespace Quorum

/-- A reply of either kind. -/
def Message.isReply : Message → Bool
  | .voteReply _ => true
  | .appendReply _ => true
  | _ => false

namespace LeaderLease

variable {l l' : LeaderLease} {peer : NodeId} {round quorum : Nat} {renewed : Bool}

/-- An acknowledgement by the peer makes the lease last longer, or confirms it. -/
def RenewedWith (l : LeaderLease) (peer : NodeId) (round quorum : Nat) : Prop :=
  round = l.round ∧ peer ∉ l.acks ∧ quorum ≤ l.acks.length + 2 ∧
    (l.confirmed = false ∨ l.expiresAt < l.roundStartedAt + l.duration)

theorem recordAck_same_iff (h : l.recordAck peer round quorum = .ok (l', renewed)) :
    (l'.confirmed = l.confirmed ∧ l'.expiresAt = l.expiresAt) ↔
      ¬ l.RenewedWith peer round quorum := by
  unfold recordAck at h
  split at h
  · next counts =>
      unfold renew at h
      split at h
      · next few =>
          obtain ⟨rfl, rfl⟩ := h
          refine iff_of_true ⟨rfl, rfl⟩ fun renewal => ?_
          exact Nat.not_le_of_lt few renewal.2.2.1
      · next enough =>
          obtain ⟨expiresAt, hafter, h⟩ := exists_of_bind_ok h
          obtain ⟨rfl, _⟩ := Instant.after_ok hafter
          obtain ⟨rfl, rfl⟩ := h
          constructor
          · rintro ⟨hconfirmed, hexpires⟩ ⟨_, _, _, hmore | hmore⟩
            · exact nomatch hconfirmed.trans hmore
            · have hle : l.roundStartedAt + l.duration ≤ l.expiresAt :=
                hexpires ▸ Nat.le_max_right _ _
              exact Nat.not_le_of_lt hmore hle
          · intro hold
            have hnothing : ¬ (l.confirmed = false ∨ l.expiresAt < l.roundStartedAt + l.duration) :=
              fun hmore => hold ⟨counts.1, counts.2, Nat.le_of_not_lt enough, hmore⟩
            rw [not_or, Bool.not_eq_false, Nat.not_lt] at hnothing
            exact ⟨hnothing.1.symm, Nat.max_eq_left hnothing.2⟩
  · next aside =>
      obtain ⟨rfl, rfl⟩ := h
      exact iff_of_true ⟨rfl, rfl⟩ fun renewal => aside ⟨renewal.1, renewal.2.1⟩

end LeaderLease

namespace Leader

theorem updatePeer_stranger {l : Leader} {peer : NodeId} (stranger : peer ∉ l.progress.map (·.peer))
    (change : PeerProgress → PeerProgress) : l.updatePeer peer change = l := by
  have hsame : l.progress.map (fun row => if row.peer = peer then change row else row) =
      l.progress := by
    refine (List.map_congr_left fun row hrow => ?_).trans (List.map_id _)
    refine if_neg fun heq => stranger ?_
    rw [← heq]
    exact List.mem_map_of_mem hrow
  rw [updatePeer, hsame]

end Leader

namespace Node

variable {now : Instant} {draw : Nat} {n n' : Node} {sender : NodeId} {message : Message}
  {v : VoteReply} {a : AppendReply} {commands : List Command}

/-- With the reply a count of the node is complete: a vote is tallied that
decides the election, or an acknowledgement by which the lease is renewed. -/
def Completes (n : Node) (sender : NodeId) : Message → Prop
  | .voteReply v => ∃ c, n.role = .candidate c ∧ c.tallying = true ∧
      ((c.record sender v.granted v.priorLease).hasMajority n.clusterSize = true ∨
        (c.record sender v.granted v.priorLease).allAnswered n.peers.length = true)
  | .appendReply a => ∃ l, n.role = .leader l ∧ a.success = true ∧
      l.lease.RenewedWith sender a.round n.quorum
  | _ => False

/-- The node goes on as before: with the same record, a candidate with a tally
that is open or closed as it was, and a leader with the same rows and lease. -/
structure GoesOn (n n' : Node) : Prop where
  record : n'.record = n.record
  leads : n'.isLeader = n.isLeader
  tally : ∀ c, n.role = .candidate c →
    ∃ c', n'.role = .candidate c' ∧ c'.tallying = c.tallying ∧ c'.deadline = c.deadline
  lease : ∀ l, n.role = .leader l → ∃ l', n'.role = .leader l' ∧ l'.progress = l.progress ∧
    l'.lease.confirmed = l.lease.confirmed ∧ l'.lease.expiresAt = l.lease.expiresAt

theorem GoesOn.refl (n : Node) : n.GoesOn n :=
  ⟨rfl, rfl, fun c role => ⟨c, role, rfl, rfl⟩, fun l role => ⟨l, role, rfl, rfl, rfl⟩⟩

/-! ## Votes -/

/-- Who has sent a vote does not matter: it decides the election or leaves the
node as it was. -/
theorem voteReply_goesOn_iff (current : v.term = n.record.currentTerm)
    (h : n.handle (.message sender (.voteReply v)) now draw = .ok (n', commands)) :
    n.GoesOn n' ↔ ¬ n.Completes sender (.voteReply v) := by
  by_cases counting : ∃ c, n.role = .candidate c ∧ c.tallying = true
  · obtain ⟨c, role, tallying⟩ := counting
    rw [voteReply_counts role tallying current] at h
    have hunled : n.isLeader = false := isLeader_of_candidate role
    obtain ⟨majority, leads, _⟩ | ⟨_, full, rfl⟩ | ⟨minority, missing, rfl⟩ := tally_outcome h
    · refine iff_of_false (fun hsame => ?_) (not_not.mpr ⟨c, role, tallying, .inl majority⟩)
      exact nomatch leads.symm.trans (hsame.leads.trans hunled)
    · refine iff_of_false (fun hsame => ?_) (not_not.mpr ⟨c, role, tallying, .inr full⟩)
      obtain ⟨c', role', htally, _⟩ := hsame.tally c role
      obtain rfl := Role.candidate.inj role'
      exact nomatch htally.trans tallying
    · refine iff_of_true ⟨rfl, hunled.symm, fun d hd => ?_, fun l hl => ?_⟩ ?_
      · obtain rfl := Role.candidate.inj (role.symm.trans hd)
        exact ⟨_, rfl, c.record_tallying _ _ _, c.record_deadline _ _ _⟩
      · exact nomatch role.symm.trans hl
      · rintro ⟨d, hd, _, hdecided⟩
        obtain rfl := Role.candidate.inj (role.symm.trans hd)
        rw [minority, missing] at hdecided
        exact hdecided.elim Bool.noConfusion Bool.noConfusion
  · have hclosed : ∀ c, n.role = .candidate c → c.tallying = false := fun c role =>
      Bool.eq_false_iff.mpr fun tallying => counting ⟨c, role, tallying⟩
    have hsame := (voteReply_ignored current hclosed).symm.trans h
    obtain ⟨rfl, rfl⟩ := Prod.mk.inj (Except.ok.inj hsame)
    refine iff_of_true (.refl n) fun ⟨c, role, tallying, _⟩ => counting ⟨c, role, tallying⟩

/-! ## Acknowledgements -/

/-- An acknowledgement of a stranger reaches the lease and nothing else. -/
theorem appendReply_of_stranger (settled : n.Settled) (stranger : sender ∉ n.peers)
    (current : a.term = n.record.currentTerm)
    (h : n.handle (.message sender (.appendReply a)) now draw = .ok (n', commands)) :
    (n' = n ∧ (a.success = true → n.isLeader = false)) ∨
    ∃ l lease renewed, n.role = .leader l ∧ a.success = true ∧
      l.lease.recordAck sender a.round n.quorum = .ok (lease, renewed) ∧
      n' = { n with role := .leader { l with lease } } := by
  have hrows : ∀ l, n.role = .leader l → sender ∉ l.progress.map (·.peer) := fun l role => by
    rw [(settled l role).rows, mem_distinct]
    exact stranger
  have hresponse : Response now draw n sender (.appendReply a) n' commands :=
    handleMessage_response h (Nat.le_of_eq current)
  cases hresponse with
  | ignore idle => exact .inl ⟨rfl, fun _ => idle current⟩
  | @note l _ lease renewed role _ success recorded =>
      refine .inr ⟨l, lease, renewed, role, success, recorded, ?_⟩
      have hsame : l.recordSuccess sender a.acked = l :=
        Leader.updatePeer_stranger (hrows l role) _
      rw [hsame]
      have hsettled : SettledAs { n with role := .leader { l with lease } } { l with lease } :=
        ⟨(settled l role).rows, (settled l role).committed⟩
      exact hsettled.advanceCommit_eq
  | @lower l _ role _ failure =>
      have hsame : l.recordFailure sender = l := Leader.updatePeer_stranger (hrows l role) _
      refine .inl ⟨?_, fun success => nomatch failure.symm.trans success⟩
      rw [hsame, ← role]

theorem appendReply_goesOn_iff (settled : n.Settled) (stranger : sender ∉ n.peers)
    (current : a.term = n.record.currentTerm)
    (h : n.handle (.message sender (.appendReply a)) now draw = .ok (n', commands)) :
    n.GoesOn n' ↔ ¬ n.Completes sender (.appendReply a) := by
  obtain ⟨rfl, aside⟩ | ⟨l, lease, renewed, role, success, recorded, rfl⟩ :=
    appendReply_of_stranger settled stranger current h
  · refine iff_of_true (.refl n') ?_
    rintro ⟨l, role, success, _⟩
    exact nomatch (aside success).symm.trans (isLeader_iff.mpr ⟨l, role⟩)
  · have hcompletes : n.Completes sender (.appendReply a) ↔
        l.lease.RenewedWith sender a.round n.quorum := by
      constructor
      · rintro ⟨l', role', _, renewal⟩
        obtain rfl := Role.leader.inj (role.symm.trans role')
        exact renewal
      · exact fun renewal => ⟨l, role, success, renewal⟩
    rw [hcompletes, ← LeaderLease.recordAck_same_iff recorded]
    constructor
    · intro hsame
      obtain ⟨l', role', _, hlease⟩ := hsame.lease l role
      obtain rfl := Role.leader.inj role'
      exact hlease
    · intro hlease
      refine ⟨rfl, (isLeader_iff.mpr ⟨l, role⟩).symm, fun c hc => ?_, fun l' hl => ?_⟩
      · exact nomatch role.symm.trans hc
      · obtain rfl := Role.leader.inj (role.symm.trans hl)
        exact ⟨_, rfl, rfl, hlease⟩

/-- Whatever it renews, an acknowledgement of a stranger leaves everything but
the lease as it was. -/
theorem appendReply_keeps (settled : n.Settled) (stranger : sender ∉ n.peers)
    (current : a.term = n.record.currentTerm)
    (h : n.handle (.message sender (.appendReply a)) now draw = .ok (n', commands)) :
    n'.record = n.record ∧ n'.isLeader = n.isLeader ∧
      ∀ c, n.role = .candidate c → n'.role = .candidate c := by
  obtain ⟨rfl, _⟩ | ⟨l, lease, _, role, _, _, rfl⟩ :=
    appendReply_of_stranger settled stranger current h
  · exact ⟨rfl, rfl, fun c hc => hc⟩
  · refine ⟨rfl, (isLeader_iff.mpr ⟨l, role⟩).symm, fun c hc => ?_⟩
    exact nomatch role.symm.trans hc

/-- Its peers are those that it was started with, and it is settled. -/
theorem lasting_settled (who : Identity) :
    Lasting who (fun _ => True) fun n => n.peers = who.peers ∧ n.Settled where
  restored _ h := by
    obtain ⟨electionAt, _, h⟩ := exists_of_bind_ok h
    obtain rfl := Except.ok.inj h
    exact ⟨rfl, fun l role => nomatch role⟩
  handled _ hn h := ⟨(handle_deeds h).frame.peers.trans hn.1, handle_settled h hn.2⟩
  submitted {n} operation hn :=
    ⟨(n.submit_deeds operation 0 0).frame.peers.trans hn.1, submit_settled hn.2⟩
  blind _ _ hn := ⟨hn.1, fun l role => ⟨(hn.2 l role).rows, (hn.2 l role).committed⟩⟩

end Node

/-! ## Every life of a replica -/

variable {σ ε : Type} [Storage σ ε] {r : Replica σ} {n' : Node} {sender : NodeId}
  {message : Message} {now : Instant} {draw : Nat} {commands : List Command}

/-- In whatever state a replica is, a reply of a stranger in its current term
leaves it as it is unless the reply completes a count. An acknowledgement may
then renew the lease, but commits nothing and changes no role. -/
theorem strangers_only_complete (l : Life σ) (k : Nat) (up : l.state k = .up r)
    (stranger : sender ∉ l.who.peers) (reply : message.isReply = true)
    (current : message.term = r.node.record.currentTerm)
    (h : r.node.handle (.message sender message) now draw = .ok (n', commands)) :
    (r.node.GoesOn n' ↔ ¬ r.node.Completes sender message) ∧
    ∀ a, message = .appendReply a → n'.record = r.node.record ∧
      n'.isLeader = r.node.isLeader ∧
      ∀ c, r.node.role = .candidate c → n'.role = .candidate c := by
  have hstate := l.holds k (Node.lasting_settled l.who) fun _ _ _ _ => trivial
  rw [up] at hstate
  obtain ⟨hpeers, hsettled⟩ : r.node.peers = l.who.peers ∧ r.node.Settled := hstate
  rw [← hpeers] at stranger
  cases message with
  | voteRequest q => exact nomatch reply
  | appendRequest q => exact nomatch reply
  | voteReply v => exact ⟨Node.voteReply_goesOn_iff current h, fun a ha => nomatch ha⟩
  | appendReply a =>
      refine ⟨Node.appendReply_goesOn_iff hsettled stranger current h, fun a' ha => ?_⟩
      obtain rfl := Message.appendReply.inj ha
      exact Node.appendReply_keeps hsettled stranger current h

/-! ## A stranger among three -/

/-- The candidate of `aspirant`, which nobody has answered yet. -/
def hopefulNode : Node :=
  (aspirantReplica (.candidate (.stand 1 (Duration.ofSeconds 6) 0))
    { currentTerm := 1, votedFor := some 1 } 1).node

/-- The denial of a stranger, with two peers still to answer, leaves everything
open. -/
theorem strangers_only_complete_denial :
    ∃ n', hopefulNode.handle (.message 9 (.voteReply ⟨1, false, 0⟩)) (Duration.ofSeconds 5) 0 =
      .ok (n', []) ∧ hopefulNode.GoesOn n' := by
  have hhandled : hopefulNode.handle (.message 9 (.voteReply ⟨1, false, 0⟩))
      (Duration.ofSeconds 5) 0 = .ok ({ hopefulNode with
        role := .candidate ((Candidate.stand 1 (Duration.ofSeconds 6) 0).record 9 false 0) }, []) :=
    rfl
  refine ⟨_, hhandled, ?_⟩
  refine (strangers_only_complete aspirant 2 aspirant_up.2 (by decide) rfl rfl hhandled).1.mpr ?_
  rintro ⟨c, role, _, hdecided⟩
  obtain rfl := Role.candidate.inj role
  revert hdecided
  decide

/-- The same stranger's vote, together with its own, makes the node leader. -/
theorem stranger_elects : ¬ ∀ (l : Life MemoryStorage) (k : Nat) (r : Replica MemoryStorage)
    (sender : NodeId) (message : Message) (now : Instant) (draw : Nat) (n' : Node)
    (commands : List Command), l.state k = .up r → sender ∉ l.who.peers →
      message.isReply = true → message.term = r.node.record.currentTerm →
      r.node.handle (.message sender message) now draw = .ok (n', commands) →
      n'.isLeader = true → r.node.isLeader = true := by
  intro h
  have hnot := h aspirant 2 _ 9 (.voteReply ⟨1, true, 0⟩) (Duration.ofSeconds 5) 0 _ _
    aspirant_up.2 (by decide) rfl rfl rfl rfl
  exact nomatch hnot

end Quorum
