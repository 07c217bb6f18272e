import Mathlib.Algebra.BigOperators.Intervals
import Quorum.Proofs.Cluster.Tending
import Quorum.Proofs.Handlers.Hearing

/-!
# Every message is delivered

Each delivery uses up some of the workload of the cluster, so delivering as
many messages as the workload counts leaves none. What holds at the end of it
is shown by an invariant of one delivery (`deliverAll_ensures`).
-/

namespace Quorum

namespace Node

variable {now : Instant} {draw : Nat} {n n' : Node} {sender : NodeId} {message : Message}
  {commands : List Command} {leader? : Option NodeId}

/-- How many deliveries the node can cause that it has not sent yet. -/
def potential (n : Node) : Nat :=
  match n.role with
  | .candidate c => if c.tallying then 2 * n.peers.length else 0
  | _ => 0

theorem Tended.potential (h : n.Tended n') : n'.potential = n.potential := by
  unfold Node.potential
  rw [h.role, h.peers]

theorem potential_of_follower {f : Follower} (role : n.role = .follower f) : n.potential = 0 := by
  rw [potential, role]

theorem potential_of_leader {l : Leader} (role : n.role = .leader l) : n.potential = 0 := by
  rw [potential, role]

end Node

namespace Cluster

/-- How many deliveries the messages of a queue can cause. -/
def queueLoad (queue : List InFlight) : Nat := (queue.map fun m => load m.message).sum

@[simp] theorem queueLoad_nil : queueLoad [] = 0 := rfl

@[simp] theorem queueLoad_cons (m : InFlight) (rest : List InFlight) :
    queueLoad (m :: rest) = load m.message + queueLoad rest := by
  simp [queueLoad]

@[simp] theorem queueLoad_append (a b : List InFlight) :
    queueLoad (a ++ b) = queueLoad a + queueLoad b := by
  simp [queueLoad]

end Cluster

namespace Node

variable {now : Instant} {draw : Nat} {n n' : Node} {sender : NodeId} {message : Message}
  {commands said : List Command} {leader? : Option NodeId} {l : Leader}

open Cluster in
theorem queueLoad_roundRequests_le (i : NodeId) (n : Node) (l : Leader) :
    queueLoad (sends i (n.roundRequests l)) ≤ 2 * n.peers.length := by
  unfold roundRequests
  induction n.peers with
  | nil => exact Nat.le_refl _
  | cons peer rest ih =>
      rw [List.filterMap_cons, List.length_cons]
      cases hrequest : n.appendRequestFor? l peer with
      | none =>
          simp only [Option.map_none]
          omega
      | some q =>
          simp only [Option.map_some]
          rw [← List.singleton_append, sends_append, queueLoad_append]
          simp [load]
          omega

theorem voteFor_tended (n : Node) (candidate : NodeId) : n.Tended (n.voteFor candidate) := by
  unfold voteFor
  split
  · exact .refl n
  · exact ⟨rfl, rfl, rfl, rfl, rfl, List.prefix_rfl, fun _ => rfl⟩

theorem potential_advanceCommit (l : Leader) (role : n.role = .leader l) (l' : Leader) :
    (n.advanceCommit l').potential = 0 :=
  (commitTo_tended n _).potential.trans (potential_of_leader role)

open Cluster in
/-- A response uses up the message. -/
theorem Response.load_lt (i : NodeId) (h : Response now draw n sender message n' said) :
    queueLoad (sends i said) + n'.potential < load message + n.potential := by
  cases h with
  | grant grants => simp [load, (n.voteFor_tended _).potential]
  | deny grants => simp [load]
  | discard idle => simp [load]
  | @count c r role tallying current =>
      have hpotential : n.potential = 2 * n.peers.length := by simp [potential, role, tallying]
      rw [hpotential]
      simp only [potential, sends_nil, queueLoad_nil, load]
      split <;> omega
  | lose role tallying current => simp [load, potential, Candidate.conclude]
  | @win c r lease₀ lease role tallying current majority granted begun =>
      have hrequests := queueLoad_roundRequests_le i (n.crowned lease now)
        (.start n.peers n.lastIndex (now + n.config.heartbeat) lease)
      have hpotential : n.potential = 2 * n.peers.length := by simp [potential, role, tallying]
      rw [potential_advanceCommit _ rfl, hpotential]
      have hpeers : (n.crowned lease now).peers = n.peers := rfl
      rw [hpeers] at hrequests
      simp only [load]
      omega
  | reject stale => simp [load]
  | refuse current accepts =>
      rw [sends_append, sends_farewell, potential_of_follower rfl]
      simp [load]
      omega
  | accept current accepts =>
      rw [sends_append, sends_farewell, potential_of_follower (accepting_same _ _).1]
      simp [load]
      omega
  | ignore idle => simp [load]
  | note role current success recorded =>
      rw [potential_advanceCommit _ rfl]
      simp [load]
  | lower role current failure =>
      rw [potential_of_leader rfl]
      simp [load]

open Cluster in
theorem handleMessage_load_lt (i : NodeId)
    (h : n.handleMessage sender message now draw = .ok (n', commands)) :
    queueLoad (sends i commands) + n'.potential < load message + n.potential := by
  obtain ⟨n₁, lost, said, hadopt, hresponse, rfl⟩ := handleMessage_responds h
  have hresponse := hresponse.load_lt i
  rw [sends_append, queueLoad_append]
  obtain ⟨_, rfl, rfl⟩ | ⟨_, rfl, rfl⟩ := adoptTerm_cases hadopt
  · obtain ⟨f, hf⟩ := n.inTerm_role message.term now draw
    rw [potential_of_follower hf] at hresponse
    simp only [sends_farewell, queueLoad_nil]
    omega
  · simpa using hresponse

end Node

namespace Cluster

variable {c c' : Cluster} {i : Nat}

/-- The potential of the node at a place, if there is one. -/
def potentialAt (c : Cluster) (j : Nat) : Nat := ((c.node? j).map Node.potential).getD 0

theorem workload_eq (c : Cluster) :
    c.workload = queueLoad c.inFlight + ∑ j ∈ Finset.range c.size, c.potentialAt j := by
  have hqueue : ∀ queue : List InFlight,
      queue.foldr (fun m rest => load m.message + rest) 0 = queueLoad queue := by
    intro queue
    induction queue with
    | nil => rfl
    | cons m rest ih => rw [List.foldr_cons, ih, queueLoad_cons]
  have hmembers : ∀ ms : List Member, ms.foldr (fun m rest => potential m + rest) 0 =
      ∑ j ∈ Finset.range ms.length,
        (((ms[j]?).bind (·.slot.node?)).map Node.potential).getD 0 := by
    intro ms
    induction ms with
    | nil => rfl
    | cons m rest ih =>
        have hfirst : potential m = ((m.slot.node?).map Node.potential).getD 0 := by
          unfold potential
          cases m.slot <;> rfl
        rw [List.foldr_cons, ih, List.length_cons, Finset.sum_range_succ', Nat.add_comm, hfirst]
        rfl
  rw [workload, hqueue, hmembers]
  simp only [potentialAt, node?_eq]
  rfl

theorem Tended.workload (h : c.Tended c') : c'.workload = c.workload := by
  rw [workload_eq, workload_eq, h.inFlight, h.size]
  congr 1
  refine Finset.sum_congr rfl fun j _ => ?_
  unfold potentialAt
  cases hn : c.node? j with
  | none => rw [h.down j hn]
  | some n =>
      obtain ⟨n', hn', htended⟩ := h.up j n hn
      rw [hn', Option.map_some, Option.map_some, htended.potential]

theorem Struck.workload {n n' : Node} {out : List InFlight} (h : c.Struck i n' out c')
    (hn : c.node? i = some n) :
    c'.workload + n.potential = c.workload + queueLoad out + n'.potential := by
  have hi := Finset.mem_range.mpr (lt_size_of_node? hn)
  have hothers : ∑ j ∈ (Finset.range c.size).erase i, c'.potentialAt j =
      ∑ j ∈ (Finset.range c.size).erase i, c.potentialAt j :=
    Finset.sum_congr rfl fun j hj => by
      rw [potentialAt, potentialAt, h.others j (Finset.ne_of_mem_erase hj)]
  have hbefore := Finset.add_sum_erase _ c.potentialAt hi
  have hafter := Finset.add_sum_erase _ c'.potentialAt hi
  have hself : c.potentialAt i = n.potential := by rw [potentialAt, hn]; rfl
  have hself' : c'.potentialAt i = n'.potential := by rw [potentialAt, h.self]; rfl
  rw [workload_eq, workload_eq, h.inFlight, h.size, queueLoad_append]
  omega

/-- A delivery uses up some of the workload. -/
theorem workload_of_deliver {m : InFlight} {rest : List InFlight} (hqueue : c.inFlight = m :: rest)
    (h : ({ c with inFlight := rest } : Cluster).deliver m = .ok c') :
    c'.workload < c.workload := by
  have hpopped : c.workload =
      ({ c with inFlight := rest } : Cluster).workload + load m.message := by
    rw [workload_eq, workload_eq, hqueue, queueLoad_cons, Nat.add_assoc, Nat.add_comm]
    rfl
  have hload : 0 < load m.message := by cases m.message <;> simp [load]
  unfold deliver at h
  split at h
  · obtain rfl := Except.ok.inj h
    omega
  · have hhandle : Ensures False (({ c with inFlight := rest } : Cluster).handle m.receiver
        (.message m.sender m.message)) fun c' => c'.workload < c.workload := by
      refine handle_ensures (fun _ => by omega) fun n draw hn => ?_
      refine .of_ok fun (n', commands) hnode => ?_
      intro c₁ c₂ hstruck htended
      have hlt := Node.handleMessage_load_lt n.id hnode
      have hsum := hstruck.workload hn
      rw [htended.workload]
      omega
    exact hhandle.holds c' h

/-- What a delivery keeps holds when no message is left. -/
theorem deliverUpTo_ensures {safe : Prop} {inv : Cluster → Prop}
    (step : ∀ c m rest, c.inFlight = m :: rest → inv c →
      Ensures safe (({ c with inFlight := rest } : Cluster).deliver m) inv) :
    ∀ count c, inv c → c.workload ≤ count →
      Ensures safe (deliverUpTo count c) fun c' => inv c' ∧ c'.inFlight = [] := by
  intro count
  induction count with
  | zero =>
      intro c h hcount
      cases hqueue : c.inFlight with
      | nil => exact .pure ⟨h, hqueue⟩
      | cons m rest =>
          have hload : 0 < load m.message := by cases m.message <;> simp [load]
          rw [workload_eq, hqueue, queueLoad_cons] at hcount
          omega
  | succ count ih =>
      intro c h hcount
      unfold deliverUpTo
      split
      · next hqueue => exact .pure ⟨h, hqueue⟩
      · next m rest hqueue =>
          refine (step c m rest hqueue h).self.bind fun c' hc' => ?_
          have hlt := workload_of_deliver hqueue hc'.1
          exact ih c' hc'.2 (by omega)

theorem deliverAll_ensures {safe : Prop} {inv : Cluster → Prop} (h : inv c)
    (step : ∀ c m rest, c.inFlight = m :: rest → inv c →
      Ensures safe (({ c with inFlight := rest } : Cluster).deliver m) inv) :
    Ensures safe c.deliverAll fun c' => inv c' ∧ c'.inFlight = [] :=
  deliverUpTo_ensures step c.workload c h (Nat.le_refl _)

end Cluster

end Quorum
