import Quorum.Proofs.Run.Ledger
import Quorum.Proofs.Theorems.Safety

/-!
# Acknowledged writes

A client that is told of success can rely on it. Its entry is committed where
it was put, from then on a majority of the nodes have it on record whatever
crashes, every node that comes to apply the index applies this entry, and
nobody else is told the same of the same index.
-/

namespace Quorum

/-- What the medium of a node holds, be the node up or down. -/
def Slot.saved : Slot → Record
  | .up replica => replica.storage.record
  | .down storage => storage.record

theorem Scene.saved {M : Roster} {w : World} {s : Chronicle} (h : Scene M w s) (i : NodeId) :
    (w.slot i).saved = w.record i := by
  rw [World.record]
  cases hslot : w.slot i with
  | up replica => exact (h.current i replica hslot).stored
  | down storage => rfl

namespace Service

variable {M : Roster} {c : Service}

/-- Neither the list of admitted writes nor that of answers ever loses
anything. -/
theorem step_grows (c : Service) (act : Act) :
    c.tickets ⊆ (c.step M act).tickets ∧ c.answers ⊆ (c.step M act).answers := by
  cases act with
  | cluster action => exact ⟨List.Subset.refl _, List.Subset.refl _⟩
  | offer request i command now =>
      unfold step offer
      simp only []
      split
      · exact ⟨List.Subset.refl _, List.Subset.refl _⟩
      · split
        · exact ⟨List.Subset.refl _, List.Subset.refl _⟩
        · unfold carryOut
          split
          · exact ⟨List.Subset.refl _, List.subset_cons_self _ _⟩
          · exact ⟨List.Subset.refl _, List.Subset.refl _⟩
          · refine ⟨List.subset_cons_self _ _, ?_⟩
            simp only []
            split
            · exact List.Subset.refl _
            · exact List.subset_cons_self _ _
  | settle i =>
      unfold step settle
      simp only []
      split
      · exact ⟨List.Subset.refl _, List.Subset.refl _⟩
      · exact ⟨List.Subset.refl _, List.subset_append_right _ _⟩
  | forget i keep => exact ⟨List.Subset.refl _, List.Subset.refl _⟩

theorem grows (c : Service) (acts : List Act) :
    c.tickets ⊆ (acts.foldl (step M) c).tickets ∧ c.answers ⊆ (acts.foldl (step M) c).answers := by
  induction acts generalizing c with
  | nil => exact ⟨List.Subset.refl _, List.Subset.refl _⟩
  | cons act rest ih =>
      obtain ⟨ht, ha⟩ := step_grows (M := M) c act
      obtain ⟨ht', ha'⟩ := ih (c.step M act)
      exact ⟨List.Subset.trans ht ht', List.Subset.trans ha ha'⟩

/-- A request was admitted as a write and then answered with success. -/
def Acknowledged (c : Service) (ticket : Ticket) : Prop :=
  ticket ∈ c.tickets ∧ ∃ reply, (ticket.request, reply) ∈ c.answers ∧ reply.success = true

end Service

variable {M : Roster} {k m n : Nat} {ticket other : Ticket}

theorem ClientRun.acknowledged_mono (r : ClientRun M) (hkn : k ≤ n)
    (h : (r.state k).Acknowledged ticket) : (r.state n).Acknowledged ticket := by
  obtain ⟨d, rfl⟩ := Nat.exists_eq_add_of_le hkn
  obtain ⟨ht, ha⟩ := Service.grows (M := M) (r.state k) ((r.acts.drop k).take d)
  rw [r.state_add k d]
  obtain ⟨hmem, reply, hreply, hok⟩ := h
  exact ⟨ht hmem, reply, ha hreply, hok⟩

/-- The entry of an acknowledged write is committed at its index. -/
theorem Ledger.committed {c : Service} {s : Chronicle} (h : Ledger c s)
    (hack : c.Acknowledged ticket) :
    ticket.index ≤ (c.world.record ticket.member).commitLength ∧
      (c.world.record ticket.member).log.entry? ticket.index = some ticket.entry := by
  obtain ⟨hmem, reply, hreply, hok⟩ := hack
  exact h.succeeded ticket hmem reply hreply hok

/-- What a majority has settled is on record with a majority. -/
theorem Scene.exists_saved {w : World} {s : Chronicle} {i : NodeId} {index : LogIndex}
    {e : LogEntry} (h : Scene M w s) (hindex : index ≤ (w.record i).commitLength)
    (he : (w.record i).log.entry? index = some e) :
    ∃ Q, M.Majority Q ∧ ∀ x ∈ Q, (w.slot x).saved.log.entry? index = some e := by
  have hsettled := h.lawful.commits.settled i
  rw [h.log i, h.commit i] at hsettled
  have hle := h.commit_le_length i
  have hne : (w.record i).log.take (w.record i).commitLength ≠ [] := by
    intro hnil
    have hlength := List.length_take_of_le hle
    rw [hnil, List.length_nil] at hlength
    rw [← hlength] at hindex
    obtain rfl := Nat.le_zero.mp hindex
    simp at he
  obtain ⟨Q, hQ, hheld⟩ := hsettled.exists_holders hne h.lawful.ballots h.lawful.holdings
  refine ⟨Q, hQ, fun x hx => ?_⟩
  have hp := hheld x hx
  rw [h.log x] at hp
  rw [h.saved x, Log.entry?_of_take_prefix hp hle hindex, he]

/-- Whoever is told that a write succeeded can rely on it, from then on and
whatever happens to the nodes. -/
theorem acknowledged_writes_last (r : ClientRun M) (hack : (r.state k).Acknowledged ticket)
    (hkn : k ≤ n) :
    (ticket.index ≤ ((r.state n).world.record ticket.member).commitLength ∧
      ((r.state n).world.record ticket.member).log.entry? ticket.index = some ticket.entry) ∧
    (∃ Q, M.Majority Q ∧
      ∀ x ∈ Q, ((r.state n).world.slot x).saved.log.entry? ticket.index = some ticket.entry) ∧
    (∀ m x replica, (r.state m).world.slot x = .up replica →
      (ticket.index ≤ replica.node.lastApplied →
        replica.store = Store.replay (replica.node.record.log.take replica.node.lastApplied) ∧
          replica.node.record.log.entry? ticket.index = some ticket.entry) ∧
      ∀ e, (ticket.index, e) ∈ replica.applied → e = ticket.entry) ∧
    ∀ m other, (r.state m).Acknowledged other → other.index = ticket.index → other = ticket := by
  have hcommitted : ∀ {m ticket}, (r.state m).Acknowledged ticket →
      ticket.index ≤ ((r.state m).world.record ticket.member).commitLength ∧
        ((r.state m).world.record ticket.member).log.entry? ticket.index = some ticket.entry := by
    intro m ticket hack
    obtain ⟨s, _, _, _, _, hledger, _⟩ := r.exists_scenes (Nat.le_refl m)
    exact hledger.committed hack
  -- at any two moments, whoever has committed the index has committed this entry
  have hagree : ∀ {m x}, ticket.index ≤ ((r.state m).world.record x).commitLength →
      ((r.state m).world.record x).log.entry? ticket.index = some ticket.entry := by
    intro m x hx
    obtain ⟨hindex, he⟩ := hcommitted hack
    obtain ⟨s, s', hs, hs', line⟩ := r.exists_scenes_inLine k m
    rw [← hs.commits_agree hs' line hindex hx, he]
  have hnow := hcommitted (r.acknowledged_mono hkn hack)
  refine ⟨hnow, ?_, ?_, ?_⟩
  · obtain ⟨s, _, hs, _⟩ := r.exists_scenes (Nat.le_refl n)
    exact hs.exists_saved hnow.1 hnow.2
  · intro m x replica hup
    obtain ⟨s, _, hs, _, _, hledger, _⟩ := r.exists_scenes (Nat.le_refl m)
    have hcurrent := hs.current x replica hup
    have hrecord : (r.state m).world.record x = replica.node.record := World.record_of_up hup
    have happly : ticket.index ≤ replica.node.lastApplied →
        replica.node.record.log.entry? ticket.index = some ticket.entry := by
      intro hle
      rw [← hrecord]
      exact hagree (hrecord ▸ Nat.le_trans hle hcurrent.applied_le)
    refine ⟨fun hle => ⟨hcurrent.replayed, happly hle⟩, fun e he => ?_⟩
    obtain ⟨hle, hentry⟩ := hledger.reports x replica hup _ he
    exact Option.some.inj (hentry.symm.trans (happly hle))
  · intro m other hother hindex
    -- both are in the ledger of the later moment
    obtain ⟨hle, he⟩ := hcommitted hother
    rw [hindex] at hle he
    have hsame : other.entry = ticket.entry := Option.some.inj (he.symm.trans (hagree hle))
    obtain ⟨s, _, _, _, _, hledger, _⟩ := r.exists_scenes (Nat.le_refl (max k m))
    exact hledger.distinct other
      (r.acknowledged_mono (Nat.le_max_right k m) hother).1 ticket
      (r.acknowledged_mono (Nat.le_max_left k m) hack).1
      (.inr ⟨hindex, congrArg LogEntry.term hsame⟩)

/-- Node 0 wins term 1, and the write of request 7 reaches node 1 and is
answered; then node 0 crashes. -/
def written : ClientRun trio where
  acts :=
    [.cluster (.restart 0 0 0), .cluster (.restart 1 0 0), .cluster (.restart 2 0 0),
      .cluster (.timer 0 .election 0 0), .cluster (.deliver 0 0 0), .cluster (.deliver 2 0 0),
      .cluster (.deliver 3 0 0), .cluster (.deliver 5 0 0), .offer 7 0 (.set "k" "v") 0,
      .cluster (.timer 0 .heartbeat 0 0), .cluster (.deliver 6 0 0), .cluster (.deliver 8 0 0),
      .settle 0, .cluster (.crash 0)]
  inRange := by decide +kernel

theorem acknowledged_writes_last_written :
    ((written.state 13).Acknowledged ⟨7, 0, 2, .set 1 "k" "v"⟩ ∧ 13 ≤ 14) ∧
    ∃ Q, trio.Majority Q ∧
      ∀ x ∈ Q, ((written.state 14).world.slot x).saved.log.entry? 2 = some (.set 1 "k" "v") := by
  have hticket : (⟨7, 0, 2, .set 1 "k" "v"⟩ : Ticket) ∈ (written.state 13).tickets := by
    decide +kernel
  have hanswer : ((7, .ok "" (some 0)) : RequestId × Reply) ∈ (written.state 13).answers := by
    decide +kernel
  have hack : (written.state 13).Acknowledged ⟨7, 0, 2, .set 1 "k" "v"⟩ :=
    ⟨hticket, _, hanswer, rfl⟩
  obtain ⟨_, hmajority, _⟩ := acknowledged_writes_last written hack (by decide : 13 ≤ 14)
  exact ⟨⟨hack, by decide⟩, hmajority⟩

end Quorum
