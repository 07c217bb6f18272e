import Quorum.Proofs.Run.Clock
import Quorum.Proofs.Theorems.Safety

/-!
# Exclusive leases

As long as a leader answers reads in a window that began with a round which a
quorum acknowledged, no leader of a later term answers any: one of those who
acknowledged the round has also voted for that leader, and made it wait until
the window is over.

The window that a leader is given when it is elected begins with no such
round. If one follows, however early, the leader answers reads until the first
window is over, which may be long after a later leader has started to.
-/

namespace Quorum

/-- The node `i` is up and may answer reads from its own store. -/
def World.Serves (w : World) (i : NodeId) (now : Instant) : Prop :=
  ∃ n, w.node? i = some n ∧ n.canServeReads now = true

instance (w : World) (i : NodeId) (now : Instant) : Decidable (w.Serves i now) :=
  decidable_of_iff ((w.node? i).any fun n => n.canServeReads now) (by
    simp [World.Serves, Option.any_eq_true])

namespace Run

variable {M : Roster} {r : Run M} {a b : NodeId} {j k : Nat} {t u : Term} {now : Instant}

/-- In its present term the node has begun a round that a quorum has
acknowledged by then, and the window that it opens reaches beyond `now`. -/
def Renewed (r : Run M) (k : Nat) (a : NodeId) (now : Instant) : Prop :=
  ∃ j ≤ k, ∃ n l, (r.state j).node? a = some n ∧ n.role = .leader l ∧
    n.record.currentTerm = ((r.state k).record a).currentTerm ∧
    M.quorum ≤ l.lease.acks.length + 1 ∧ now < l.lease.roundStartedAt + l.lease.duration

/-- A leader waits until every window that an earlier leader can still be in
is over, provided that a quorum has acknowledged its round. -/
theorem window_le_barrier (hclock : r.Clocked) (hup : r.Unbroken) (hjk : j ≤ k) {n m : Node}
    {l l' : Leader} (hn : (r.state j).node? a = some n) (hl : n.role = .leader l)
    (hterm : n.record.currentTerm = ((r.state k).record a).currentTerm)
    (hquorum : M.quorum ≤ l.lease.acks.length + 1) (hm : (r.state k).node? b = some m)
    (hl' : m.role = .leader l') (hlt : n.record.currentTerm < m.record.currentTerm) :
    l.lease.roundStartedAt + l.lease.duration ≤ l'.lease.barrier := by
  obtain ⟨now, seen, now', seen', hj, hk, hseen⟩ := r.exists_watches hclock hup hjk
  have hta : ((r.state j).watch now seen).timing? a = some n.timing := by
    simp [World.watch, hn]
  have htb : ((r.state k).watch now' seen').timing? b = some m.timing := by
    simp [World.watch, hm]
  obtain ⟨hnodup, hacks⟩ := hj.acks a _ l hta hl
  obtain ⟨Q, hQ, helected⟩ := hk.elected b _ l' htb hl'
  have hself : a ∈ M.ids := r.mem_of_up (Option.isSome_iff_exists.mpr ⟨n, hn⟩)
  have hmajority : M.Majority (a :: l.lease.acks) := by
    refine ⟨List.nodup_cons.mpr ⟨fun h => (hacks a h).2.1 rfl, hnodup⟩, ?_, hquorum⟩
    intro v hv
    rcases List.mem_cons.mp hv with rfl | hv
    · exact hself
    · exact (hacks v hv).1
  obtain ⟨v, hvA, hvB⟩ := hmajority.exists_common hQ
  have hawaited := helected v hvB
  rcases List.mem_cons.mp hvA with rfl | hv
  · -- the leader itself is still in its term, so it has not voted in a later one
    obtain ⟨e, he, _⟩ := hawaited
    obtain ⟨p, hp, hle, _⟩ := hk.seen_le v _ e he
    obtain ⟨node, hnode, rfl⟩ := Option.map_eq_some_iff.mp hp
    have hrecord : ((r.state k).record v).currentTerm = node.record.currentTerm := by
      obtain ⟨replica, hslot, rfl⟩ := World.exists_up_of_node? hnode
      rw [World.record_of_up hslot]
    have hle : m.record.currentTerm ≤ node.record.currentTerm := hle
    rw [← hrecord, ← hterm] at hle
    exact absurd (Nat.lt_of_lt_of_le hlt hle) (Nat.lt_irrefl _)
  · obtain ⟨e, he, hend⟩ := (hacks v hv).2.2
    exact hk.le_of_promised ⟨e, hseen v _ e he, hend⟩ hawaited hlt

end Run

variable {M : Roster} {r : Run M} {a b : NodeId} {k : Nat} {now : Instant}

/-- Two nodes answer reads at one time only if the window of the one whose term
is older was opened by no round that a quorum acknowledged. -/
theorem lease_exclusive (hclock : r.Clocked) (hup : r.Unbroken) (ha : (r.state k).Serves a now)
    (hb : (r.state k).Serves b now)
    (hle : ((r.state k).record a).currentTerm ≤ ((r.state k).record b).currentTerm)
    (hrenewed : r.Renewed k a now) : a = b := by
  have hleads : ∀ {i}, (r.state k).Serves i now →
      (r.state k).Leads i ((r.state k).record i).currentTerm := by
    rintro i ⟨n, hn, hserves⟩
    obtain ⟨replica, hslot, rfl⟩ := World.exists_up_of_node? hn
    refine ⟨_, hn, ?_, by rw [World.record_of_up hslot]⟩
    unfold Node.canServeReads at hserves
    unfold Node.isLeader
    split at hserves
    · rfl
    · cases hserves
  rcases Nat.lt_or_eq_of_le hle with hlt | heq
  · -- the older window is not over, and the newer barrier lies beyond it
    obtain ⟨j, hjk, n, l, hn, hl, hterm, hquorum, hopen⟩ := hrenewed
    obtain ⟨m, hm, hserves⟩ := hb
    obtain ⟨replica, hslot, rfl⟩ := World.exists_up_of_node? hm
    have hrecord : ((r.state k).record b).currentTerm = replica.node.record.currentTerm := by
      rw [World.record_of_up hslot]
    unfold Node.canServeReads at hserves
    split at hserves
    · next l' hl' =>
        have hpast : l'.lease.barrier ≤ now := by
          simp [LeaderLease.allowsReads, LeaderLease.isPastBarrier] at hserves
          exact hserves.1.2
        have hwait := Run.window_le_barrier hclock hup hjk hn hl hterm hquorum hm hl'
          (by rw [hterm, ← hrecord]; exact hlt)
        exact absurd (Nat.lt_of_le_of_lt (Nat.le_trans hwait hpast) hopen) (Nat.lt_irrefl _)
    · cases hserves
  · exact election_safety r (hleads ha) (heq ▸ hleads hb)

/-! ## Two nodes that answer reads at one time -/

/-- Three nodes that stand for election after one second. -/
def hasty : Roster :=
  { trio with
    config := fun _ => { electionMin := Duration.second, electionMax := Duration.second } }

/-- Each node stands for election when its timer is due, one second after the
other. The second leader is given a window that lasts until second 6, since
it has to wait for the first, and has a round acknowledged in second 2; the
third has waited for that round in second 4.5. -/
def overlap : Run hasty where
  actions :=
    let s := Duration.ofMilliseconds
    [.restart 0 0 0, .restart 1 0 0, .restart 2 0 0,
      .timer 0 .election (s 1000) 0, .deliver 0 (s 1000) 0, .deliver 2 (s 1000) 0,
      .deliver 3 (s 1000) 0, .deliver 4 (s 1000) 0,
      .timer 1 .election (s 2000) 0, .deliver 8 (s 2000) 0, .deliver 9 (s 2000) 0,
      .deliver 10 (s 2000) 0, .deliver 11 (s 2000) 0, .deliver 13 (s 2000) 0,
      .timer 2 .election (s 3000) 0, .deliver 14 (s 3000) 0, .deliver 16 (s 3000) 0,
      .deliver 17 (s 3000) 0, .deliver 19 (s 3000) 0,
      .request 1 (.get "k") (s 4500), .request 2 (.get "k") (s 4500)]
  inRange := by decide +kernel

theorem lease_exclusive_overlap :
    (overlap.Clocked ∧ overlap.Unbroken ∧
      (overlap.state 21).Serves 1 (Duration.ofMilliseconds 4000) ∧
      overlap.Renewed 21 1 (Duration.ofMilliseconds 4000)) ∧
    (1 : NodeId) = 1 := by
  have hclock : overlap.Clocked := by decide +kernel
  have hup : overlap.Unbroken := by decide +kernel
  have hserves : (overlap.state 21).Serves 1 (Duration.ofMilliseconds 4000) := by decide +kernel
  have hrenewed : overlap.Renewed 21 1 (Duration.ofMilliseconds 4000) :=
    ⟨21, Nat.le_refl _, _, _, rfl, rfl, by decide +kernel, by decide +kernel, by decide +kernel⟩
  exact ⟨⟨hclock, hup, hserves, hrenewed⟩,
    lease_exclusive hclock hup hserves hserves (Nat.le_refl _) hrenewed⟩

/-- Without that condition leases are not exclusive. -/
theorem not_exclusive_in_first_window :
    ¬ ∀ (M : Roster) (r : Run M) (k : Nat) (a b : NodeId),
      (∀ i ∈ M.ids, (M.config i).validate = .ok ()) → r.Clocked → r.Unbroken → r.Punctual →
      (r.state k).Serves a (r.clock k) → (r.state k).Serves b (r.clock k) → a = b := by
  intro h
  have hvalid : ∀ i ∈ hasty.ids, (hasty.config i).validate = .ok () := by decide +kernel
  have hclock : overlap.Clocked := by decide +kernel
  have hup : overlap.Unbroken := by decide +kernel
  have hpunctual : overlap.Punctual := by decide +kernel
  have hsecond : (overlap.state 21).Serves 1 (overlap.clock 21) := by decide +kernel
  have hthird : (overlap.state 21).Serves 2 (overlap.clock 21) := by decide +kernel
  exact absurd (h hasty overlap 21 1 2 hvalid hclock hup hpunctual hsecond hthird) (by decide)

end Quorum
