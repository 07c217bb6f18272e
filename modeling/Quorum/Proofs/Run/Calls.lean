import Quorum.Proofs.Handlers.Deeds
import Quorum.Replica

/-!
# Calls of a replica

A replica by itself, over any medium and with anybody calling: events with any
messages, requests of clients and reports of what was applied, in any order,
whatever the calls before have come to. `Replica.Made` says what a call can do
in terms of deeds, saving and applying, and is all that later proofs need of
the replica's own functions.
-/

namespace Quorum.Replica

/-- What can be asked of a replica. -/
inductive Call where
  | event (event : Event) (now : Instant) (draw : Nat)
  | request (request : Request) (now : Instant)
  /-- It is asked for the entries it has applied. -/
  | report

/-- What a call gives out when it succeeds. -/
inductive Release where
  | commands (commands : List Command)
  | admission (admission : Admission)
  | applied (entries : List (LogIndex × LogEntry))

variable {σ ε : Type} [Storage σ ε]

def call (r : Replica σ) : Call → Except ClockOverflow (Replica σ × Except ε Release)
  | .event event now draw => do
    let (r, result) ← r.handle event now draw
    return (r, result.map .commands)
  | .request request now =>
    let (r, result) := r.serve request now
    return (r, result.map .admission)
  | .report => return (r.takeApplied.2, .ok (.applied r.takeApplied.1))

/-- What a call can do. A node that has changed is saved, and only if that
succeeds is anything applied or given out. -/
inductive Made (r : Replica σ) : Replica σ → Except ε Release → Prop
  | aside (release : Release) : Made r r (.ok release)
  | report : Made r r.takeApplied.2 (.ok (.applied r.takeApplied.1))
  | unchanged {heard? : Option (NodeId × Message)} {now : Instant} {draw : Nat} {n' : Node}
      {commands : List Command} (deeds : Node.Deeds heard? now draw r.node n' commands)
      (clean : n'.unsaved = false) (release : Release) :
      Made r ({ r with node := n' } : Replica σ).applyCommitted (.ok release)
  | saved {heard? : Option (NodeId × Message)} {now : Instant} {draw : Nat} {n' : Node}
      {commands : List Command} {storage : σ}
      (deeds : Node.Deeds heard? now draw r.node n' commands)
      (save : Storage.save r.storage n'.record = (storage, .ok ())) (release : Release) :
      Made r ({ r with node := { n' with unsaved := false }, storage } : Replica σ).applyCommitted
        (.ok release)
  | failed {heard? : Option (NodeId × Message)} {now : Instant} {draw : Nat} {n' : Node}
      {commands : List Command} {storage : σ} {e : ε}
      (deeds : Node.Deeds heard? now draw r.node n' commands)
      (save : Storage.save r.storage n'.record = (storage, .error e)) :
      Made r { r with node := { n' with unsaved := false }, storage } (.error e)

variable {r r' : Replica σ} {result : Except ε Release}

theorem persist_cases (r : Replica σ) :
    (r.node.unsaved = false ∧ r.persist = (r, .ok ())) ∨
      ∃ storage result, Storage.save r.storage r.node.record = (storage, result) ∧
        r.persist = ({ r with node := { r.node with unsaved := false }, storage }, result) := by
  unfold persist Node.takeUnsaved
  cases hunsaved : r.node.unsaved with
  | true => exact .inr ⟨_, _, rfl, rfl⟩
  | false =>
      refine .inl ⟨rfl, ?_⟩
      show (({ r with node := { r.node with unsaved := false } } : Replica σ), _) = _
      rw [← hunsaved]

/-- Deeds, saving and applying together make a call. -/
theorem made_of_persist {heard? : Option (NodeId × Message)} {now : Instant} {draw : Nat}
    {n' : Node} {commands : List Command} {saved : Except ε Unit}
    (deeds : Node.Deeds heard? now draw r.node n' commands)
    (h : ({ r with node := n' } : Replica σ).persist = (r', saved)) :
    match saved with
    | .ok () => ∀ release, r.Made r'.applyCommitted (.ok release)
    | .error e => r.Made r' (.error e) := by
  rcases persist_cases ({ r with node := n' } : Replica σ) with
    ⟨hclean, heq⟩ | ⟨storage, tried, hsave, heq⟩
  · obtain ⟨rfl, rfl⟩ := Prod.mk.inj (heq.symm.trans h)
    exact .unchanged deeds hclean
  · obtain ⟨rfl, rfl⟩ := Prod.mk.inj (heq.symm.trans h)
    cases tried with
    | ok _ => exact .saved deeds hsave
    | error e => exact .failed deeds hsave

theorem handle_made {event : Event} {now : Instant} {draw : Nat}
    {result : Except ε (List Command)} (h : r.handle event now draw = .ok (r', result)) :
    r.Made r' (result.map .commands) := by
  obtain ⟨⟨n', commands⟩, hnode, h⟩ := exists_of_bind_ok h
  have deeds := Node.handle_deeds hnode
  cases hsaved : ({ r with node := n' } : Replica σ).persist with
  | mk kept saved =>
      have hmade := made_of_persist deeds hsaved
      simp only [hsaved] at h
      cases saved with
      | error e =>
          obtain ⟨rfl, rfl⟩ := h
          exact hmade
      | ok _ =>
          obtain ⟨rfl, rfl⟩ := h
          exact hmade _

theorem serve_made (r : Replica σ) (request : Request) (now : Instant) :
    r.Made (r.serve request now).1 ((r.serve request now).2.map .admission) := by
  unfold serve
  split
  · exact .aside _
  · split
    · exact .aside _
    · split
      · exact .aside _
      · next key value _ =>
          split
          · exact .aside _
          · next n' index entry hsubmit =>
              have deeds := r.node.submit_deeds (.set key value) now 0
              rw [hsubmit] at deeds
              cases hsaved : ({ r with node := n' } : Replica σ).persist with
              | mk kept saved =>
                  have hmade := made_of_persist deeds hsaved
                  cases saved with
                  | error e => exact hmade
                  | ok _ => exact hmade _

theorem call_made {c : Call} (h : r.call c = .ok (r', result)) : r.Made r' result := by
  cases c with
  | event event now draw =>
      obtain ⟨⟨kept, outcome⟩, hhandle, h⟩ := exists_of_bind_ok h
      obtain ⟨rfl, rfl⟩ := h
      exact handle_made hhandle
  | request request now =>
      obtain ⟨rfl, rfl⟩ := h
      exact serve_made r request now
  | report =>
      obtain ⟨rfl, rfl⟩ := h
      exact .report

end Quorum.Replica
