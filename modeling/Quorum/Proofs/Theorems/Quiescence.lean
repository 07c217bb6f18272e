import Quorum.Proofs.Cluster.Draining

/-!
# Delivery comes to an end

Delivering all messages is a loop without a bound of its own: it goes on for as
long as the queue holds a message, and every delivery may put more into it.
`Cluster.Delivers` is that loop, one delivery after another. Its measure is the
workload: a request counts for itself and its answer, an answer for itself, and
a candidate that still counts votes for the requests of the round that it would
start as the winner, and their answers. So from every cluster, reachable or
not, the loop comes to an end (`delivery_ends`), and `deliverAll` is where.
-/

namespace Quorum.Cluster

variable {c c₁ c' : Cluster} {m : InFlight} {rest : List InFlight} {k count : Nat}

/-- Messages are delivered, the oldest first, as many as the number says. -/
inductive Delivers : Nat → Cluster → Cluster → Prop
  | done (c : Cluster) : Delivers 0 c c
  | next {k : Nat} {c c₁ c' : Cluster} {m : InFlight} {rest : List InFlight}
      (queue : c.inFlight = m :: rest)
      (first : ({ c with inFlight := rest } : Cluster).deliver m = .ok c₁)
      (more : Delivers k c₁ c') : Delivers (k + 1) c c'

/-- The oldest message cannot be delivered, since a deadline that it sets would
lie past the end of the clock. -/
def Overflows (c : Cluster) (overflow : ClockOverflow) : Prop :=
  ∃ m rest, c.inFlight = m :: rest ∧
    ({ c with inFlight := rest } : Cluster).deliver m = .error (.clock overflow)

theorem Delivers.workload (h : Delivers k c c') : k + c'.workload ≤ c.workload := by
  induction h with
  | done c => omega
  | next queue first more ih =>
      have hlt := workload_of_deliver queue first
      omega

/-- What stops an event is the clock. -/
theorem exists_overflow_of_handle {i : Nat} {event : Event} {halt : Halt}
    (h : c.handle i event = .error halt) : ∃ overflow, halt = .clock overflow := by
  unfold handle at h
  split at h
  · exact nomatch h
  · next replica hreplica =>
      cases hnode : replica.handle event c.now (c.draws c.drawn) with
      | error overflow =>
          rw [hnode] at h
          exact ⟨overflow, (Except.error.inj h).symm⟩
      | ok result =>
          rw [hnode] at h
          exact nomatch h

theorem exists_overflow_of_deliver {halt : Halt} (h : c.deliver m = .error halt) :
    ∃ overflow, halt = .clock overflow := by
  unfold deliver at h
  split at h
  · exact nomatch h
  · exact exists_overflow_of_handle h

/-- With room for as many deliveries as the workload counts, the loop stops
only where it ends by itself. -/
theorem deliverUpTo_delivers : ∀ count c, workload c ≤ count → ∃ k c', Delivers k c c' ∧
    (c'.inFlight = [] ∧ deliverUpTo count c = .ok c' ∨
      ∃ overflow, c'.Overflows overflow ∧ deliverUpTo count c = .error (.clock overflow)) := by
  intro count
  induction count with
  | zero =>
      intro c hcount
      refine ⟨0, c, .done c, .inl ⟨?_, rfl⟩⟩
      cases hqueue : c.inFlight with
      | nil => rfl
      | cons m rest =>
          have hload : 0 < load m.message := by cases m.message <;> simp [load]
          rw [workload_eq, hqueue, queueLoad_cons] at hcount
          omega
  | succ count ih =>
      intro c hcount
      unfold deliverUpTo
      split
      · next hqueue => exact ⟨0, c, .done c, .inl ⟨hqueue, rfl⟩⟩
      · next m rest hqueue =>
          cases hdeliver : ({ c with inFlight := rest } : Cluster).deliver m with
          | error halt =>
              obtain ⟨overflow, rfl⟩ := exists_overflow_of_deliver hdeliver
              exact ⟨0, c, .done c, .inr ⟨overflow, ⟨m, rest, hqueue, hdeliver⟩, rfl⟩⟩
          | ok c₁ =>
              have hlt := workload_of_deliver hqueue hdeliver
              obtain ⟨k, c', hmore, hends⟩ := ih c₁ (by omega)
              exact ⟨k + 1, c', .next hqueue hdeliver hmore, hends⟩

/-- However far the loop has got, it has made no more deliveries than the
workload counted; and it gets to where no message is left, or to where the
clock ends. -/
theorem delivery_ends (c : Cluster) :
    (∀ k c', Delivers k c c' → k + c'.workload ≤ c.workload) ∧
    ∃ k c', Delivers k c c' ∧
      (c'.inFlight = [] ∧ c.deliverAll = .ok c' ∨
        ∃ overflow, c'.Overflows overflow ∧ c.deliverAll = .error (.clock overflow)) :=
  ⟨fun _ _ h => h.workload, deliverUpTo_delivers c.workload c (Nat.le_refl _)⟩

end Quorum.Cluster
