import Quorum.Proofs.Cluster.Attained
import Quorum.Proofs.Handlers.Limits
import Quorum.Proofs.Message.Format
import Quorum.Proofs.Run.Lasting

/-!
# Messages that stop a node

A node computes its deadlines from the durations that messages bring, and stops
where such a deadline lies past the end of the clock. While the clock itself is
far from its end, and no save fails, a replica takes every message but two
kinds: the request of a leader whose lease ends past the clock, and the vote
that wins an election with an earlier lease of that length.
-/

namespace Quorum

/-- A medium whose saves do not fail. -/
def Storage.Reliable (σ : Type) {ε : outParam Type} [Storage σ ε] : Prop :=
  ∀ (s : σ) (record : Record), ∃ s', Storage.save s record = (s', .ok ())

theorem MemoryStorage.reliable : Storage.Reliable MemoryStorage :=
  fun _ _ => ⟨_, rfl⟩

namespace Node

variable {now last : Instant} {draw : Nat} {n n' : Node} {l' : Leader} {event : Event}

theorem Led.roundStartedAt_le (h : Led now event n n' l') (timely : now ≤ last)
    (before : n.OnTime last) : l'.lease.roundStartedAt ≤ last := by
  cases h with
  | win granted begun =>
      have hstart := (LeaderLease.beginRound_ok begun).2.2.2.1
      exact Nat.le_trans (Nat.le_of_eq hstart) timely
  | round role begun =>
      have hstart := (LeaderLease.beginRound_ok begun).2.2.2.1
      exact Nat.le_trans (Nat.le_of_eq hstart) timely
  | @note l sender r lease renewed role heard success current recorded =>
      have hstart := (LeaderLease.recordAck_ok recorded).2.2.2.1
      exact Nat.le_trans (Nat.le_of_eq hstart) (before l role).1
  | @lower l sender role =>
      have hold := (before l role).1
      exact hold
  | vote candidate role => exact (before _ role).1
  | stay role => exact (before _ role).1

/-- A node keeps its configuration, and a leader the one of its lease, and no
round begins later than the clock reads. -/
theorem lasting_onTime (who : Identity) (last : Instant) :
    Lasting who (· ≤ last) fun n => n.config = who.config ∧ n.OnTime last where
  restored _ h := by
    obtain ⟨electionAt, _, h⟩ := exists_of_bind_ok h
    obtain rfl := Except.ok.inj h
    exact ⟨rfl, fun l role => nomatch role⟩
  handled timely hn h := by
    refine ⟨(handle_deeds h).frame.config.trans hn.1, fun l role => ?_⟩
    have hled := handle_led h role
    exact ⟨hled.roundStartedAt_le timely hn.2, hled.duration fun l role => (hn.2 l role).2⟩
  submitted {n} operation hn := by
    have hrole : (n.submit operation).1.role = n.role :=
      congrArg Timing.role (n.submit_timing operation)
    have hconfig : (n.submit operation).1.config = n.config :=
      (n.submit_deeds operation 0 0).frame.config
    refine ⟨hconfig.trans hn.1, fun l role => ?_⟩
    rw [hconfig]
    exact hn.2 l (hrole.symm.trans role)
  blind _ _ hn := hn

end Node

namespace Replica

variable {σ ε : Type} [Storage σ ε] {r : Replica σ} {event : Event} {now : Instant} {draw : Nat}

/-- Over a reliable medium a replica takes what its node takes. -/
theorem handle_returns_iff (reliable : Storage.Reliable σ) :
    (∃ r' commands, r.handle event now draw = .ok (r', .ok commands)) ↔
      ∃ result, r.node.handle event now draw = .ok result := by
  constructor
  · rintro ⟨r', commands, h⟩
    obtain ⟨result, hnode, _⟩ := exists_of_bind_ok h
    exact ⟨result, hnode⟩
  · rintro ⟨⟨n', commands⟩, hnode⟩
    unfold handle
    rw [hnode]
    rcases persist_cases ({ r with node := n' } : Replica σ) with
      ⟨_, heq⟩ | ⟨storage, result, hsave, heq⟩
    · simp only [bind, Except.bind, heq]
      exact ⟨_, _, rfl⟩
    · obtain ⟨storage', hok⟩ := reliable r.storage n'.record
      obtain rfl : result = .ok () := (Prod.mk.inj (hsave.symm.trans hok)).2
      simp only [bind, Except.bind, heq]
      exact ⟨_, _, rfl⟩

end Replica

/-! ## Every message in every state -/

variable {σ ε : Type} [Storage σ ε] {r : Replica σ} {sender : NodeId} {message : Message}
  {now last : Instant} {draw : Nat}

/-- Whenever the clock is at least the longest configured time away from its
end, a replica takes every message but those whose durations reach past it. -/
theorem message_taken_iff (reliable : Storage.Reliable σ) (l : Life σ) (k : Nat)
    (clock : ∀ happening ∈ l.happenings.take k, happening.Timely (· ≤ last)) (timely : now ≤ last)
    (reach : last + l.who.config.longest < Instant.limit) (up : l.state k = .up r) :
    (∃ r' commands, r.handle (.message sender message) now draw = .ok (r', .ok commands)) ↔
      r.node.Bears sender now message := by
  have hstate := l.holds k (Node.lasting_onTime l.who last) clock
  rw [up] at hstate
  obtain ⟨hconfig, hlease⟩ : r.node.config = l.who.config ∧ r.node.OnTime last := hstate
  rw [← hconfig] at reach
  have hnow : now + r.node.config.longest < Instant.limit :=
    Nat.lt_of_le_of_lt (Nat.add_le_add_right timely _) reach
  have hround : ∀ l, r.node.role = .leader l →
      l.lease.roundStartedAt + l.lease.duration < Instant.limit := by
    intro l role
    obtain ⟨hstart, hduration⟩ := hlease l role
    rw [hduration]
    exact Nat.lt_of_le_of_lt (Nat.add_le_add hstart r.node.config.lease_le_longest) reach
  rw [Replica.handle_returns_iff reliable]
  exact Node.handleMessage_returns_iff hnow hround

/-! ## A message of each kind -/

/-- The vote that wins, with an earlier lease of two seconds. -/
theorem message_taken_iff_aspirant : ∃ r' commands,
    (aspirantReplica (.candidate (.stand 1 (Duration.ofSeconds 6) 0))
      { currentTerm := 1, votedFor := some 1 } 1).handle
        (.message 2 (.voteReply ⟨1, true, Duration.ofSeconds 2⟩)) (Duration.ofSeconds 5) 0 =
      .ok (r', .ok commands) := by
  have hclock : ∀ happening ∈ aspirant.happenings.take 2,
      happening.Timely (· ≤ Duration.ofSeconds 5) := by decide
  refine (message_taken_iff MemoryStorage.reliable aspirant 2 hclock (Nat.le_refl _) (by decide)
    aspirant_up.2).mpr ?_
  rintro _ c role _ _
  obtain rfl := Role.candidate.inj role
  decide

/-- A request whose lease is the longest that a message can bring stops a node
that has just woken up. -/
theorem message_stops_node : ¬ ∀ (l : Life MemoryStorage) (k : Nat) (r : Replica MemoryStorage)
    (sender : NodeId) (message : Message) (now : Instant) (draw : Nat),
      l.who.config.validate = .ok () → message.Fits →
      (∀ happening ∈ l.happenings, happening.Timely (· < Duration.ofSeconds (2 ^ 63))) →
      now < Duration.ofSeconds (2 ^ 63) → l.state k = .up r →
      ∃ r' result, r.handle (.message sender message) now draw = .ok (r', result) := by
  intro h
  have hfits : (Message.appendRequest
      ⟨1, 2, 0, 0, [], 0, Duration.ofSeconds (2 ^ 64 - 1), 1⟩).Fits := by
    refine ⟨by decide, by decide, by decide, by decide, ?_, by decide, by decide, by decide⟩
    intro entry hentry
    exact nomatch hentry
  obtain ⟨r', result, htaken⟩ := h aspirant 1 _ 2 _ 0 0 rfl hfits (by decide) (by decide)
    aspirant_up.1
  have hstopped : (aspirantReplica (.follower ⟨none, Duration.ofSeconds 5⟩) {} 0).handle
      (.message 2 (.appendRequest ⟨1, 2, 0, 0, [], 0, Duration.ofSeconds (2 ^ 64 - 1), 1⟩)) 0 0 =
        .error .instantPlusDuration := rfl
  exact nomatch hstopped.symm.trans htaken

end Quorum
