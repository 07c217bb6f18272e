import Quorum.Proofs.Handlers.Progress

/-!
# Leaders between events

A leader commits at once what its rows let it commit, and it has exactly one row
for each peer, in every state that it reaches (`Node.Settled`). So an event that
changes neither the rows nor the log commits nothing.
-/

namespace Quorum.Node

variable {now : Instant} {draw : Nat} {n n' m : Node} {l l' : Leader} {event : Event}
  {commands : List Command} {operation : Operation}

/-- The leader has a row for each peer, and has committed what they let it
commit. -/
structure SettledAs (n : Node) (l : Leader) : Prop where
  rows : l.progress.map (·.peer) = distinct n.peers
  committed : n.record.log.commitPoint n.record.currentTerm n.record.commitLength
    (l.replicatedOn n.lastIndex n.quorum) ≤ n.record.commitLength

def Settled (n : Node) : Prop :=
  ∀ l, n.role = .leader l → n.SettledAs l

theorem advanceCommit_settled (rows : l.progress.map (·.peer) = distinct n.peers) :
    (n.advanceCommit l).SettledAs l := by
  obtain ⟨_, _, hterm, hlog⟩ := n.advanceCommit_same l
  have hpeers := (n.advanceCommit_frame l).peers
  constructor
  · rw [hpeers]
    exact rows
  · rw [lastIndex, quorum, clusterSize, hpeers, hterm, hlog, advanceCommit_commit]
    exact Log.commitPoint_le (Nat.le_max_right _ _)

/-- In a settled leader nothing is left to commit. -/
theorem SettledAs.advanceCommit_eq (h : n.SettledAs l) : n.advanceCommit l = n :=
  if_neg (Nat.not_lt.mpr h.committed)

theorem SettledAs.lower (h : n.SettledAs l) (peer : NodeId) :
    SettledAs { n with role := .leader (l.recordFailure peer) } (l.recordFailure peer) where
  rows := (l.peers_recordFailure peer).trans h.rows
  committed := by
    rw [Leader.replicatedOn, Leader.ackedLengths_recordFailure]
    exact h.committed

theorem SettledAs.vote (h : n.SettledAs l) (candidate : NodeId) :
    (n.voteFor candidate).SettledAs l := by
  unfold voteFor
  split
  · exact h
  · exact ⟨h.rows, h.committed⟩

theorem Led.settled (h : Led now event n n' l') (before : n.Settled) : n'.SettledAs l' := by
  cases h with
  | win granted begun =>
      refine advanceCommit_settled ?_
      rw [Leader.start, List.map_map]
      exact List.map_id _
  | round role begun => exact advanceCommit_settled (before _ role).rows
  | note role heard success current recorded =>
      exact advanceCommit_settled ((Leader.peers_recordSuccess _ _ _).trans (before _ role).rows)
  | lower sender role => exact (before _ role).lower sender
  | vote candidate role => exact (before _ role).vote candidate
  | stay role => exact before _ role

theorem handle_settled (h : n.handle event now draw = .ok (n', commands)) (before : n.Settled) :
    n'.Settled :=
  fun _ role => (handle_led h role).settled before

theorem submit_settled (before : n.Settled) : (n.submit operation).1.Settled := by
  unfold submit
  split
  · next l role =>
      intro l' role'
      have hsame : Role.leader l' = .leader l :=
        role'.symm.trans ((advanceCommit_same _ l).1.trans role)
      obtain rfl := Role.leader.inj hsame
      exact advanceCommit_settled (before _ role).rows
  · exact before

end Quorum.Node
