import Quorum.Proofs.Handlers.Renewals

/-!
# A lease is what its history makes it

A lease forgets the acknowledgements of a round when the next one begins, and
keeps only the latest end that its confirmed rounds have led to. Nothing is lost
by that. Acknowledgements that come early, late or again, rounds that begin
before earlier ones and rounds that are confirmed more than once leave it as its
whole history describes it.
-/

namespace Quorum.LeaderLease

open LeaseCall

/-- For a leader that was elected at `now`, and whatever its lease was asked since
its first round: the lease can be kept unless it would run past the end of the
clock. It runs for one duration behind its barrier and behind the start of each
round that a quorum has confirmed. It allows reads from the barrier on until its
end, once some round is confirmed. And an acknowledgement is said to renew it
just where it is its peer's first of the latest round, which is then confirmed. -/
theorem lease_matches_history (now : Instant) (duration prior : Duration) (quorum : Nat)
    (start : Instant) (later : List LeaseCall) :
    let past := later ++ [.beginRound start]
    ((∃ l, after now duration prior quorum past = .ok l) ↔
      expiry (now + prior) duration quorum past < Instant.limit) ∧
    ∀ l, after now duration prior quorum past = .ok l →
      l.barrier = now + prior ∧
      l.expiresAt = max (l.barrier + duration)
        ((confirmedRounds quorum past).sup fun round => startOf round past + duration) ∧
      (∀ instant, l.allowsReads instant = true ↔
        (confirmedRounds quorum past).Nonempty ∧ l.barrier ≤ instant ∧ instant < l.expiresAt) ∧
      ∀ peer round l' renewed, l.recordAck peer round quorum = .ok (l', renewed) →
        (renewed = true ↔ (round = rounds past ∧ peer ∉ ackers round past) ∧
          round ∈ confirmedRounds quorum (.recordAck peer round :: past)) := by
  intro past
  have hafter := after_ensures now duration prior quorum later start
  refine ⟨⟨fun ⟨l, hl⟩ => ?_, hafter.returns⟩, fun l hl => ?_⟩
  · obtain ⟨_, hwindow⟩ := hafter.holds l hl
    exact hwindow.expiresAt ▸ hwindow.inClock
  · obtain ⟨hnotes, hwindow⟩ := hafter.holds l hl
    refine ⟨hwindow.barrier, ?_, fun instant => ?_, fun peer round l' renewed hack => ?_⟩
    · rw [hwindow.barrier]
      exact hwindow.expiresAt
    · rw [allowsReads, isPastBarrier, Bool.and_eq_true, Bool.and_eq_true, decide_eq_true_eq,
        decide_eq_true_eq, hwindow.confirmed, and_assoc]
    · have hrecorded := recordAck_ensures hnotes hwindow (rounds_pos later start) peer round
      exact (hrecorded.holds (l', renewed) hack).2.2

/-- Peer 2 acknowledges the first round, and the second one before it begins. In
the second round, which begins before the first one did, peer 2 counts once,
however often it answers, and its late answer to the first round does not count
at all. Peer 3 then makes a quorum of three. -/
theorem lease_matches_history_of_repeats :
    let past : List LeaseCall := [.recordAck 3 2, .recordAck 2 1, .recordAck 2 2, .recordAck 2 2,
      .beginRound 7, .recordAck 2 2, .recordAck 2 1, .beginRound 9]
    (∃ l, after 1 10 2 3 past = .ok l ∧ l.expiresAt = 17 ∧ l.allowsReads 16 = true) ∧
      ackers 1 past = {2} ∧ ackers 2 past = {2, 3} ∧ confirmedRounds 3 past = {2} := by
  intro past
  obtain ⟨hreturns, hlease⟩ := lease_matches_history 1 10 2 3 9 [.recordAck 3 2, .recordAck 2 1,
    .recordAck 2 2, .recordAck 2 2, .beginRound 7, .recordAck 2 2, .recordAck 2 1]
  obtain ⟨l, hl⟩ := hreturns.mpr (by decide)
  obtain ⟨hbarrier, hexpires, hreads, _⟩ := hlease l hl
  have hends : l.expiresAt = 17 := by
    rw [hexpires, hbarrier]
    decide
  refine ⟨⟨l, hl, hends, (hreads 16).mpr ⟨by decide, ?_, ?_⟩⟩, by decide, by decide, by decide⟩
  · rw [hbarrier]
    decide
  · rw [hends]
    decide

end Quorum.LeaderLease
