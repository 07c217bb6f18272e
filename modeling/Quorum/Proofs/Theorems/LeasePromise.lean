import Quorum.Proofs.Run.Life
import Quorum.Storage.Memory

/-!
# Lease promises

A node that confirms a leader's request promises to tell the candidates it
votes for how long that leader may still answer reads. It keeps the promise
for as long as it runs: later and shorter leases, changes of role and newer
terms leave it as it was. But no promise is saved, and a node that starts over
has made none.
-/

namespace Quorum

namespace Life

variable {σ ε : Type} [Storage σ ε] {l : Life σ} {j k : Nat} {now since : Instant}
  {q : AppendRequest} {r : VoteReply}

/-- In the step after the first `k` a leader's request is confirmed. -/
def Confirms (l : Life σ) (k : Nat) (now : Instant) (q : AppendRequest) : Prop :=
  ∃ sender draw receiver reply,
    l.happenings[k]? = some (.call (.event (.message sender (.appendRequest q)) now draw)) ∧
      .send receiver (.appendReply reply) ∈ l.said k ∧ reply.success = true

/-- In the step after the first `k` a vote is granted with the given reply. -/
def Grants (l : Life σ) (k : Nat) (now : Instant) (r : VoteReply) : Prop :=
  ∃ event draw receiver, l.happenings[k]? = some (.call (.event event now draw)) ∧
    .send receiver (.voteReply r) ∈ l.said k ∧ r.granted = true

/-- Whoever confirms a request expects the leader's lease from then on. -/
theorem Confirms.estimate (h : l.Confirms j since q) :
    ∃ e, (l.state (j + 1)).estimate? = some e ∧ since + q.lease ≤ e := by
  obtain ⟨sender, draw, receiver, reply, hhappening, hsaid, success⟩ := h
  rw [said, hhappening] at hsaid
  obtain ⟨_, n', commands, r', _, hnode, hmem, hup, hprior, _⟩ := Host.step_said hsaid
  obtain ⟨asked, hevent, _, _, hpromise⟩ := Node.handle_confirmed hnode hmem success
  obtain ⟨-, hasked⟩ := Event.message.inj hevent
  obtain rfl := Message.appendRequest.inj hasked
  refine ⟨_, ?_, hpromise⟩
  rw [l.state_succ hhappening, hup]
  exact congrArg (fun prior => some prior.endsAt) hprior

/-- Whoever grants a vote tells all that it expects. -/
theorem Grants.estimate (h : l.Grants k now r) :
    ∃ e, (l.state (k + 1)).estimate? = some e ∧ e ≤ now + r.priorLease := by
  obtain ⟨event, draw, receiver, hhappening, hsaid, granted⟩ := h
  rw [said, hhappening] at hsaid
  obtain ⟨_, n', commands, r', _, hnode, hmem, hup, hprior, _⟩ := Host.step_said hsaid
  refine ⟨_, ?_, Node.handle_granted hnode hmem granted⟩
  rw [l.state_succ hhappening, hup]
  exact congrArg (fun prior => some prior.endsAt) hprior

end Life

variable {σ ε : Type} [Storage σ ε] {j k : Nat} {now since : Instant} {q : AppendRequest}
  {r : VoteReply}

/-- A vote that a node grants tells of every lease whose leader it has
confirmed since it last started, for as long as that lease may run. -/
theorem promise_kept_while_running (l : Life σ) (hjk : j < k) (hruns : l.Runs (j + 1) (k + 1))
    (hconfirms : l.Confirms j since q) (hgrants : l.Grants k now r) :
    since + q.lease ≤ now + r.priorLease := by
  obtain ⟨e, he, hpromised⟩ := hconfirms.estimate
  obtain ⟨told, htold, hle⟩ := hgrants.estimate
  obtain ⟨e', he', hkept⟩ := hruns.estimate_le (Nat.succ_le_succ (Nat.le_of_lt hjk)) he
  obtain rfl := Option.some.inj (htold.symm.trans he')
  exact Nat.le_trans hpromised (Nat.le_trans hkept hle)

/-- Node 1 confirms a request of a leader with a lease of two seconds and a
half, and one second later votes for somebody else. Then it crashes, starts
over and votes again. -/
def absentMinded : Life MemoryStorage where
  who := ⟨1, [2, 3], {}⟩
  medium := {}
  happenings :=
    let s := Duration.ofMilliseconds
    [.restart 0 0,
      .call (.event (.message 2 (.appendRequest ⟨1, 2, 0, 0, [], 0, s 2500, 1⟩)) 0 0),
      .call (.event (.message 3 (.voteRequest ⟨2, 3, 0, 0⟩)) (s 1000) 0),
      .crash, .restart (s 1000) 0,
      .call (.event (.message 3 (.voteRequest ⟨3, 3, 0, 0⟩)) (s 1000) 0)]

theorem absentMinded_confirms :
    absentMinded.Confirms 1 0 ⟨1, 2, 0, 0, [], 0, Duration.ofMilliseconds 2500, 1⟩ := by
  refine ⟨2, 0, 2, ⟨1, true, 0, 1⟩, rfl, ?_, rfl⟩
  decide +kernel

theorem promise_kept_while_running_absentMinded :
    (absentMinded.Runs 2 3 ∧
      absentMinded.Confirms 1 0 ⟨1, 2, 0, 0, [], 0, Duration.ofMilliseconds 2500, 1⟩ ∧
      absentMinded.Grants 2 (Duration.ofMilliseconds 1000)
        ⟨2, true, Duration.ofMilliseconds 1500⟩) ∧
    0 + Duration.ofMilliseconds 2500 ≤
      Duration.ofMilliseconds 1000 + Duration.ofMilliseconds 1500 := by
  have hruns : absentMinded.Runs 2 3 := by
    intro m hm hm'
    obtain rfl | rfl : m = 2 ∨ m = 3 := by omega
    · decide +kernel
    · decide +kernel
  have hgrants : absentMinded.Grants 2 (Duration.ofMilliseconds 1000)
      ⟨2, true, Duration.ofMilliseconds 1500⟩ := by
    refine ⟨_, 0, 3, rfl, ?_, rfl⟩
    decide +kernel
  exact ⟨⟨hruns, absentMinded_confirms, hgrants⟩,
    promise_kept_while_running absentMinded (by decide) hruns absentMinded_confirms hgrants⟩

/-- A node that has started over since keeps no promise. -/
theorem promise_lost_in_crash :
    ¬ ∀ (l : Life MemoryStorage) (j k : Nat) (since now : Instant) (q : AppendRequest)
      (r : VoteReply), l.Clocked → j < k → l.Confirms j since q → l.Grants k now r →
        since + q.lease ≤ now + r.priorLease := by
  intro h
  have hclock : absentMinded.Clocked := by
    unfold Life.Clocked
    decide +kernel
  have hgrants : absentMinded.Grants 5 (Duration.ofMilliseconds 1000) ⟨3, true, 0⟩ := by
    refine ⟨_, 0, 3, rfl, ?_, rfl⟩
    decide +kernel
  exact absurd (h _ 1 5 _ _ _ _ hclock (by decide) absentMinded_confirms hgrants)
    (by decide +kernel)

end Quorum
