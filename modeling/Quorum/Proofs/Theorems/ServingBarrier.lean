import Quorum.Proofs.Run.Campaign
import Quorum.Proofs.Theorems.Safety

/-!
# The serving barrier

A candidate that wins serves nobody until its barrier has passed. The barrier
lies beyond every lease that it knew of itself when it stood for election, and
beyond every lease that one of its voters knew of when it voted, however long
the vote was on its way, since only what is left of a lease is told, and is
counted from the moment when the candidate wins.
-/

namespace Quorum

namespace Schedule

variable {M : Roster}

/-- Step `k` makes node `b` a leader in the given state. -/
def Elects (s : Schedule M) (k : Nat) (b : NodeId) (l : Leader) : Prop :=
  (∀ n ∈ (s.state k).node? b, n.isLeader = false) ∧
    ∃ n ∈ (s.state (k + 1)).node? b, n.role = .leader l

/-- Node `b` counts votes until step `k`, and that of `v` is in its tally when
the step is done: it was there before, or the step brings it. -/
def Voted (s : Schedule M) (k : Nat) (b v : NodeId) : Prop :=
  ∃ c, s.Polls k b c ∧ (v ∈ c.votes ∨ ∃ h, s.Counts b k v h)

end Schedule

variable {M : Roster} {b : NodeId} {k : Nat} {l : Leader}

/-- Whoever is elected in step `k` has stood in some step `j`, and the votes
that it wins with were counted since. Its barrier comes no earlier than the end
of the leases that it expected before it stood, and no earlier than what each
of its voters expected once it had sent its vote in step `h`. Until the barrier
has passed and while the node stays up, it neither answers a request from its
store nor appends it, whatever happens in between and whether or not it still
leads. -/
theorem barrier_covers_voters (s : Schedule M) (helects : s.Elects k b l) :
    ∃ j, s.Campaign b j k ∧
      (∀ n ∈ (s.state j).node? b, n.priorLease.endsAt ≤ l.lease.barrier) ∧
      (∀ v, s.Voted k b v → v = b ∨ ∃ i h, j < i ∧ i ≤ k ∧ s.Counts b i v h) ∧
      (∀ i v h, j < i → i ≤ k → s.Counts b i v h →
        ∃ n ∈ (s.state (h + 1)).node? v, n.priorLease.endsAt ≤ l.lease.barrier) ∧
      ∀ k' replica, k < k' → s.Stays b (k + 1) k' → (s.state k').slot b = .up replica →
        ∀ request now, now < l.lease.barrier →
          replica.serve request now = (replica, .ok
            (if replica.node.isLeader then .deferred request else .reply replica.redirect)) := by
  obtain ⟨before, n, hn, role⟩ := helects
  obtain ⟨j, hc⟩ := s.exists_campaign hn role before
  have hbarrier : ∀ {ending}, n.timing.Awaits (s.clock (k + 1)) ending → ending ≤ l.lease.barrier :=
    fun haw => haw.leader l role
  refine ⟨j, hc, fun n₀ hn₀ => hbarrier (hc.awaits_own hn₀ hn), fun v hv => ?tally,
    fun i v h hji hik hcounts => ?voter, fun k' replica hkk' hup hslot request now hnow => ?served⟩
  case tally =>
    obtain ⟨c, hp, hv | ⟨h, hcounts⟩⟩ := hv
    · exact (hc.votes_counted (hc.lt_of_polls hp) (Nat.le_refl k) hp hv).imp_right
        fun ⟨i, h, hji, hik, hcounts⟩ => ⟨i, h, hji, Nat.le_of_lt hik, hcounts⟩
    · exact .inr ⟨k, h, hc.lt_of_polls hp, Nat.le_refl k, hcounts⟩
  case voter =>
    obtain ⟨m, hm, haw⟩ := hc.awaits_counted hji hik hcounts hn
    exact ⟨m, hm, hbarrier haw⟩
  case served =>
    have hwaits := s.waits hn (hc.waits hn role) hkk' hup (congrArg Slot.node? hslot)
    exact Replica.serve_waits hwaits hnow request

/-- Both followers hear from the first leader, node 2 in second 1.1 and node 1
in second 1.2. Node 2 then stands for election, and the vote of node 1 takes
until second 2.3 to arrive; the second leader has a round acknowledged at once,
and is asked for a write while it still waits. -/
def relay : Schedule trio where
  actions :=
    let s := Duration.ofMilliseconds
    [.restart 0 0 0, .restart 1 0 0, .restart 2 0 0,
      .timer 0 .election (s 1000) 0, .deliver 0 (s 1000) 0, .deliver 2 (s 1000) 0,
      .deliver 4 (s 1100) 0, .deliver 3 (s 1200) 0,
      .timer 2 .election (s 2000) 0, .deliver 8 (s 2000) 0, .deliver 9 (s 2300) 0,
      .deliver 11 (s 2300) 0, .deliver 12 (s 2300) 0, .request 2 (.set "k" "v") (s 3900)]
  clocked := by decide +kernel

theorem barrier_covers_voters_relay :
    ∃ l, relay.Elects 10 2 l ∧ l.lease.barrier = Duration.ofMilliseconds 4000 ∧
      relay.Voted 10 2 1 ∧
      (∃ i h, relay.Counts 2 i 1 h ∧ ∃ n ∈ (relay.state (h + 1)).node? 1,
        n.priorLease.endsAt ≤ l.lease.barrier) ∧
      ∃ replica, (relay.state 14).slot 2 = .up replica ∧ replica.node.isLeader = true ∧
        replica.serve (.set "k" "v") (Duration.ofMilliseconds 3999) =
          (replica, .ok (.deferred (.set "k" "v"))) := by
  have hcounts : relay.Counts 2 10 1 9 :=
    ⟨9, _, _, _, rfl, rfl, rfl, by decide +kernel, by decide +kernel, by decide +kernel⟩
  have hvoted : relay.Voted 10 2 1 := ⟨_, ⟨_, rfl, rfl, rfl⟩, .inr ⟨9, hcounts⟩⟩
  have helects : ∃ l, relay.Elects 10 2 l ∧ l.lease.barrier = Duration.ofMilliseconds 4000 :=
    ⟨_, ⟨by decide +kernel, _, rfl, rfl⟩, by decide +kernel⟩
  obtain ⟨l, helects, hbarrier⟩ := helects
  obtain ⟨j, _, _, htally, hcover, hserved⟩ := barrier_covers_voters relay helects
  refine ⟨l, helects, hbarrier, hvoted, ?_, ?_⟩
  · rcases htally 1 hvoted with h | ⟨i, h, hji, hik, hcounts⟩
    · exact absurd h (by decide)
    · exact ⟨i, h, hcounts, hcover i 1 h hji hik hcounts⟩
  · have hup : relay.Stays 2 11 14 := by
      intro m hm hm'
      obtain rfl | rfl | rfl : m = 12 ∨ m = 13 ∨ m = 14 := by omega
      all_goals decide +kernel
    have hleads : ∃ n, (relay.state 14).node? 2 = some n ∧ n.isLeader = true :=
      ⟨_, rfl, by decide +kernel⟩
    obtain ⟨n, hn, hleads⟩ := hleads
    obtain ⟨replica, hslot, rfl⟩ := World.exists_up_of_node? hn
    have hserve := hserved 14 replica (by decide) hup hslot (.set "k" "v")
      (Duration.ofMilliseconds 3999) (hbarrier ▸ by decide)
    rw [if_pos hleads] at hserve
    exact ⟨replica, hslot, hleads, hserve⟩

end Quorum
