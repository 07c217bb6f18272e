import Quorum.Proofs.Run.Calls
import Quorum.Storage.Memory
import Quorum.Storage.Switched

/-!
# What is saved before anything is said

A replica over a medium whose saves may fail at any time, called again
whatever became of the calls before. After a call that succeeds the medium
holds the record of the node, with one exception: a change whose save has
failed counts as saved, and stays in memory alone until the record changes
again. Calls in between succeed, and say what the medium does not know.
-/

namespace Quorum

/-- The record in the form in which a node wakes up with it. -/
def Record.clamped (record : Record) : Record :=
  { record with commitLength := min record.commitLength record.log.length }

/-- What a medium holds, on the condition that a save which fails leaves it
alone. -/
structure Storage.View (σ : Type) {ε : outParam Type} [Storage σ ε] where
  stored : σ → Record
  load_eq : ∀ {s record}, Storage.load s = .ok record → record = stored s
  stored_of_ok : ∀ {s s' record}, Storage.save s record = (s', .ok ()) → stored s' = record
  stored_of_error : ∀ {s s' record e}, Storage.save s record = (s', .error e) →
    stored s' = stored s

def Storage.View.memory : Storage.View MemoryStorage where
  stored := (·.record)
  load_eq h := (Except.ok.inj h).symm
  stored_of_ok h := (congrArg (·.1.record) h).symm
  stored_of_error h := nomatch h

/-- What a medium with switches holds: they make operations fail before they
reach what they guard. -/
def Storage.View.switched {σ ε : Type} [Storage σ ε] (v : Storage.View σ) :
    Storage.View (SwitchedStorage σ) where
  stored s := v.stored s.medium
  load_eq {s record} h := by
    rw [SwitchedStorage.load_eq] at h
    split at h
    · exact nomatch h
    · cases hload : Storage.load s.medium with
      | error e =>
          rw [hload] at h
          exact nomatch h
      | ok loaded =>
          rw [hload] at h
          exact Except.ok.inj h ▸ v.load_eq hload
  stored_of_ok {s s' record} h := by
    rw [SwitchedStorage.save_eq] at h
    split at h
    · exact nomatch congrArg Prod.snd h
    · cases hsave : Storage.save s.medium record with
      | mk medium result =>
          rw [hsave] at h
          obtain ⟨rfl, hresult⟩ := Prod.mk.inj h
          cases result with
          | error e => exact nomatch hresult
          | ok _ => exact v.stored_of_ok hsave
  stored_of_error {s s' record e} h := by
    rw [SwitchedStorage.save_eq] at h
    split at h
    · exact (congrArg (v.stored ·.1.medium) h).symm
    · cases hsave : Storage.save s.medium record with
      | mk medium result =>
          rw [hsave] at h
          obtain ⟨rfl, hresult⟩ := Prod.mk.inj h
          cases result with
          | error e => exact v.stored_of_error hsave
          | ok _ => exact nomatch hresult

namespace Replica

/-- What became of a call. -/
structure Outcome where
  /-- The node has another record than before. -/
  changed : Bool
  failed : Bool
  deriving DecidableEq, Repr

/-- No save that failed is still owed: since the last one the record has been
saved. The latest outcome comes first. -/
def Covered : List Outcome → Prop
  | [] => True
  | o :: earlier => o.failed = false ∧ (o.changed = true ∨ Covered earlier)

variable {σ ε : Type} [Storage σ ε] {v : Storage.View σ} {r₀ r r' : Replica σ}
  {history : List Outcome} {result : Except ε Release}

/-- The outcome of a call that made `r` into `r'`. -/
def outcome (r r' : Replica σ) (result : Except ε Release) : Outcome where
  changed := r.node.record != r'.node.record
  failed := match result with
    | .ok _ => false
    | .error _ => true

/-- What a replica can become when it is called, with the outcomes of the
calls so far. Between calls its medium may do anything that keeps what it
holds, such as beginning or ceasing to fail. -/
inductive Served (v : Storage.View σ) (r₀ : Replica σ) : Replica σ → List Outcome → Prop
  | boot : Served v r₀ r₀ []
  | medium {r : Replica σ} {history : List Outcome} {storage : σ} (h : Served v r₀ r history)
      (kept : v.stored storage = v.stored r.storage) : Served v r₀ { r with storage } history
  | call {r r' : Replica σ} {history : List Outcome} {c : Call} {result : Except ε Release}
      (h : Served v r₀ r history) (called : r.call c = .ok (r', result)) :
      Served v r₀ r' (r.outcome r' result :: history)

/-- The medium holds the record of the node, or the one that the node was
woken up with. -/
def Stored (v : Storage.View σ) (r : Replica σ) : Prop :=
  r.node.record = v.stored r.storage ∨ r.node.record = (v.stored r.storage).clamped

theorem boot_stored {i : NodeId} {peers : List NodeId} {config : TimerConfig} {storage : σ}
    {now : Instant} {draw : Nat}
    (h : Replica.boot i peers config storage now draw = .ok (.ok r)) : r.Stored v := by
  unfold boot at h
  split at h
  · exact nomatch h
  · next record hload =>
      obtain ⟨n, hn, h⟩ := exists_of_bind_ok h
      obtain ⟨electionAt, _, hn⟩ := exists_of_bind_ok hn
      obtain rfl := Except.ok.inj hn
      obtain rfl := Except.ok.inj (Except.ok.inj h)
      exact .inr (congrArg Record.clamped (v.load_eq hload))

/-- A call that succeeds stores what it changes, and otherwise leaves what is
stored and what should be. -/
theorem Made.stored {release : Release} (h : r.Made r' (.ok release)) :
    r'.Stored v ∨ (r'.node.record = r.node.record ∧ r'.storage = r.storage) := by
  cases h with
  | aside release => exact .inr ⟨rfl, rfl⟩
  | report => exact .inr ⟨rfl, rfl⟩
  | unchanged deeds clean release => exact .inr ⟨(deeds.frame.saved clean).2, rfl⟩
  | saved deeds save release => exact .inl (.inl (v.stored_of_ok save).symm)

theorem Made.stored_of_error {e : ε} (h : r.Made r' (.error e)) :
    v.stored r'.storage = v.stored r.storage := by
  cases h with
  | failed deeds save => exact v.stored_of_error save

theorem Served.stored (h : Served v r₀ r history) (hboot : r₀.Stored v)
    (hcovered : Covered history) : r.Stored v := by
  induction h with
  | boot => exact hboot
  | medium h kept ih =>
      unfold Stored
      rw [kept]
      exact ih hcovered
  | @call r r' history c result h called ih =>
      obtain ⟨hok, hrest⟩ := hcovered
      cases result with
      | error e => exact nomatch hok
      | ok release =>
          rcases (call_made called).stored (v := v) with hstored | ⟨hrecord, hstorage⟩
          · exact hstored
          · rcases hrest with hchanged | hearlier
            · exact absurd hrecord.symm (bne_iff_ne.mp hchanged)
            · unfold Stored
              rw [hrecord, hstorage]
              exact ih hearlier

/-! ## A voter over a medium that fails once -/

/-- A node of three that has just woken up for the first time. -/
def voter : Replica (SwitchedStorage MemoryStorage) where
  node :=
    { id := 1, peers := [2, 3], config := {}, record := {}, lastApplied := 0
      role := .follower ⟨none, Duration.ofSeconds 5⟩, priorLease := {}, unsaved := false }
  store := .empty
  storage := { medium := {} }
  applied := []

/-- Node 2 asks for a vote in a term. -/
def ask (term : Term) : Call :=
  .event (.message 2 (.voteRequest ⟨term, 2, 0, 0⟩)) 0 0

/-- The voter when it has voted and its medium has not. -/
def forgetful (saveFails : Bool) : Replica (SwitchedStorage MemoryStorage) where
  node := { voter.node with record := { currentTerm := 1, votedFor := some 2 } }
  store := .empty
  storage := { medium := {}, saveFails }
  applied := []

/-- The voter when it has voted once more and its medium works. -/
def recovered : Replica (SwitchedStorage MemoryStorage) where
  node := { voter.node with record := { currentTerm := 2, votedFor := some 2 } }
  store := .empty
  storage := { medium := ⟨{ currentTerm := 2, votedFor := some 2 }, 1⟩, saves := 1 }
  applied := []

theorem voter_served :
    Served Storage.View.memory.switched voter (forgetful false) [⟨true, true⟩] := by
  have hbroken : Served Storage.View.memory.switched voter
      { voter with storage := { medium := {}, saveFails := true } } [] := .medium .boot rfl
  have hcall : ({ voter with storage := { medium := {}, saveFails := true } } :
      Replica (SwitchedStorage MemoryStorage)).call (ask 1) =
        .ok (forgetful true, .error .switchedOff) := rfl
  exact .medium (.call hbroken hcall) rfl

end Replica

/-! ## Every sequence of calls -/

open Replica

variable {σ ε : Type} [Storage σ ε] {v : Storage.View σ} {r₀ r : Replica σ}
  {history : List Outcome} {i : NodeId} {peers : List NodeId} {config : TimerConfig} {medium : σ}
  {now : Instant} {draw : Nat}

/-- Unless the change of a failed save is still owed, the medium holds the
record of the node. What a call says of changes that it has made itself is
always stored, and one that fails leaves what is stored and says nothing. -/
theorem stored_before_said (hboot : Replica.boot i peers config medium now draw = .ok (.ok r₀))
    (h : Served v r₀ r history) :
    (Covered history → r.Stored v) ∧
    ∀ c r' result, r.call c = .ok (r', result) →
      (∀ release, result = .ok release → r'.node.record ≠ r.node.record → r'.Stored v) ∧
      (∀ e, result = .error e → v.stored r'.storage = v.stored r.storage) := by
  refine ⟨h.stored (boot_stored hboot), fun c r' result hcall => ⟨?_, ?_⟩⟩
  · rintro release rfl hchanged
    rcases (call_made hcall).stored (v := v) with hstored | ⟨hrecord, _⟩
    · exact hstored
    · exact absurd hrecord hchanged
  · rintro e rfl
    exact (call_made hcall).stored_of_error

/-- The voter again, asked in the next term: its vote is stored with that. -/
theorem stored_before_said_revote :
    Served Storage.View.memory.switched voter recovered [⟨true, false⟩, ⟨true, true⟩] ∧
    recovered.Stored Storage.View.memory.switched := by
  have hcall : (forgetful false).call (ask 2) = .ok (recovered,
      .ok (.commands [.send 2 (.voteReply ⟨2, true, 0⟩)])) := rfl
  have hserved : Served Storage.View.memory.switched voter recovered
      [⟨true, false⟩, ⟨true, true⟩] := .call voter_served hcall
  have hboot : Replica.boot 1 [2, 3] {} { medium := {} } 0 0 = .ok (.ok voter) := rfl
  exact ⟨hserved, (stored_before_said hboot hserved).1 ⟨rfl, .inl rfl⟩⟩

/-- The voter again, asked once more in the same term: it grants a vote that
is not stored. -/
theorem not_stored_after_failed_save :
    ¬ ∀ (r₀ r : Replica (SwitchedStorage MemoryStorage)) (o : Outcome) (history : List Outcome),
      Replica.boot 1 [2, 3] {} { medium := {} } 0 0 = .ok (.ok r₀) →
      Served Storage.View.memory.switched r₀ r (o :: history) → o.failed = false →
      r.Stored Storage.View.memory.switched := by
  intro h
  have hcall : (forgetful false).call (ask 1) = .ok (forgetful false,
      .ok (.commands [.send 2 (.voteReply ⟨1, true, 0⟩)])) := rfl
  have hserved : Served Storage.View.memory.switched voter (forgetful false)
      [⟨false, false⟩, ⟨true, true⟩] := .call voter_served hcall
  rcases h voter _ _ _ rfl hserved rfl with hstored | hclamped
  · exact absurd hstored (by decide)
  · exact absurd hclamped (by decide)

end Quorum
