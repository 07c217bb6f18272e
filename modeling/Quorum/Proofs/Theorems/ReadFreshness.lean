import Quorum.Proofs.Run.Openings
import Quorum.Proofs.Theorems.LeaseExclusivity

/-!
# Fresh reads

A leader answers reads only once a quorum has acknowledged one of its rounds.
By then the entry that opened its term is committed, and with it all that any
earlier leader has committed: every reply that acknowledges a round confirms
the leader's log to the end that it had in that round. So what the leader
answers from is behind no commit of a leader of its own or of an earlier term.
-/

namespace Quorum

variable {M : Roster} {a b : NodeId} {k m : Nat} {t : Term} {now : Instant}

/-- Who may answer reads leads with a confirmed lease. -/
theorem Node.leader_of_canServeReads {n : Node} (h : n.canServeReads now = true) :
    ∃ l, n.role = .leader l ∧ l.lease.confirmed = true := by
  unfold Node.canServeReads at h
  split at h
  · next l role =>
      simp only [LeaderLease.allowsReads, Bool.and_eq_true] at h
      exact ⟨l, role, h.1.1⟩
  · exact absurd h Bool.false_ne_true

/-- What a leader of some term had committed is in what a leader of the same
or a later term has committed, once that covers the entry which opened the
later term. -/
theorem Scene.commits_prefix_of_opening {w w' : World} {s s' : Chronicle}
    {r : Replica MemoryStorage} {l : Leader} (hs : Scene M w s) (hs' : Scene M w' s')
    (hf : s.Follows s') (hb : w.Leads b t) (up : w'.slot a = .up r)
    (role : r.node.role = .leader l) (hle : t ≤ r.node.record.currentTerm)
    (hopening : r.node.opening ≤ r.node.record.commitLength) :
    (w.record b).log.take (w.record b).commitLength <+:
      r.node.record.log.take r.node.record.commitLength := by
  obtain ⟨hterm, hreign⟩ := hs.reign_of_leads hb
  have hleads : w'.Leads a r.node.record.currentTerm :=
    ⟨r.node, congrArg Slot.node? up, Node.isLeader_iff.mpr ⟨l, role⟩, rfl⟩
  obtain ⟨_, hreign'⟩ := hs'.reign_of_leads hleads
  rcases Nat.lt_or_eq_of_le hle with hlt | rfl
  · -- the later leader stood for election with what was committed before
    have hsettled := (hs.lawful.commits.settled b).of_extends hf.extends'
    rw [hs.log b, hs.commit b, hterm] at hsettled
    have hstood := hsettled.prefix_stood hs'.lawful.ballots hs'.lawful.holdings hlt hreign'
    obtain ⟨hopened, hlength⟩ := hs'.opened_of_leading up role
    refine hstood.trans (List.prefix_of_prefix_length_le
      ((List.prefix_append _ _).trans hopened) (List.take_prefix _ _) ?_)
    rw [List.length_take, Nat.le_min]
    rw [hlength] at hopening
    exact ⟨Nat.le_of_succ_le hopening,
      ((List.prefix_append _ _).trans hopened).length_le⟩
  · -- one node leads the term, and it takes back nothing
    obtain ⟨log, hlog, _⟩ := hf.extends'.reign _ _ hreign
    obtain rfl : b = a := congrArg Reign.winner (Option.some.inj (hlog.symm.trans hreign'))
    obtain ⟨hcommit, hkept⟩ := hf.keeps b
    have hrecord : w'.record b = r.node.record := World.record_of_up up
    rw [hs.commit b, hs'.commit b, hrecord] at hcommit
    rw [hs.commit b, hs.log b, hs'.log b, hrecord] at hkept
    rw [← Log.take_eq_of_take_prefix hkept (hs.commit_le_length b)]
    exact List.take_prefix_take_left hcommit

/-- A node that may answer reads has committed the entry that opened its term
and applied all that it has committed. It answers from a replay of that, which
contains whatever a leader of its own or of an earlier term has committed so
far. -/
theorem served_reads_fresh (r : Run M) (hserves : (r.state k).Serves a now) :
    ∃ replica, (r.state k).slot a = .up replica ∧
      (∃ i ≤ replica.node.record.commitLength,
        replica.node.record.log.entry? i = some (.noOp replica.node.record.currentTerm)) ∧
      replica.node.lastApplied = replica.node.record.commitLength ∧
      replica.store = Store.replay (replica.node.record.log.take replica.node.lastApplied) ∧
      (∀ key, replica.serve (.get key) now =
        (replica, .ok (.reply (.ok (replica.store.get key) (some a))))) ∧
      ∀ m ≤ k, ∀ b t, (r.state m).Leads b t → t ≤ replica.node.record.currentTerm →
        ((r.state m).record b).log.take ((r.state m).record b).commitLength <+:
          replica.node.record.log.take replica.node.lastApplied := by
  obtain ⟨n, hn, hreads⟩ := hserves
  obtain ⟨replica, up, rfl⟩ := World.exists_up_of_node? hn
  obtain ⟨l, role, confirmed⟩ := Node.leader_of_canServeReads hreads
  have hopening := (r.tallied k a replica l up role).committed confirmed
  obtain ⟨s, hs⟩ := r.exists_scene k
  obtain ⟨_, happlied, hreplayed⟩ := hs.current a replica up
  refine ⟨replica, up, ⟨_, hopening, hs.opened up role⟩, happlied, hreplayed, fun key => ?_,
    fun m hm b t hb hle => ?_⟩
  · have hleader : replica.node.leader? = some a := by
      rw [Node.leader?, role, (hs.kept a replica up).id]
    simp [Replica.serve, Replica.isReady, Replica.read, Node.isLeader_iff.mpr ⟨l, role⟩, hreads,
      hleader]
  · obtain ⟨s, s', hs, hs', hf⟩ := r.exists_scenes hm
    rw [happlied]
    exact hs.commits_prefix_of_opening hs' hf hb up role hle hopening

/-- The third leader of `handover` hears from the second, which was deposed by
it, and may answer reads when the lease of the second has run out. -/
def succession : Run trio where
  actions := handover.actions ++ [.deliver 19 0 0, .deliver 20 0 0]
  inRange := by decide +kernel

theorem served_reads_fresh_succession :
    ((succession.state 24).Serves 2 (Duration.ofMilliseconds 2500) ∧
      (succession.state 19).Leads 1 2) ∧
    ∃ replica, (succession.state 24).slot 2 = .up replica ∧
      [.noOp 2, .set 2 "a" "b"] <+: replica.node.record.log.take replica.node.lastApplied := by
  have hserves : (succession.state 24).Serves 2 (Duration.ofMilliseconds 2500) := by
    decide +kernel
  have hleads : (succession.state 19).Leads 1 2 := by decide +kernel
  obtain ⟨replica, up, _, _, _, _, hall⟩ := served_reads_fresh succession hserves
  have hrecord := World.record_of_up up
  have hterm : 2 ≤ ((succession.state 24).record 2).currentTerm := by decide +kernel
  have hcommitted : ((succession.state 19).record 1).log.take
      ((succession.state 19).record 1).commitLength = [.noOp 2, .set 2 "a" "b"] := by
    decide +kernel
  refine ⟨⟨hserves, hleads⟩, replica, up, ?_⟩
  rw [← hcommitted]
  exact hall 19 (by decide) 1 2 hleads (hrecord ▸ hterm)

end Quorum
