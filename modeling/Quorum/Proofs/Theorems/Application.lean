import Quorum.Proofs.Handlers.Recordable
import Quorum.Proofs.Run.Calls
import Quorum.Proofs.Run.Scene
import Quorum.Storage.Switched

/-!
# Entries are applied once and in order

Over any medium, and whatever becomes of its saves: the entries that a replica
reports as applied, with those that it has not reported yet, follow without a
gap or a repetition those that it applied when it woke up, and its store is
what these entries make. A failed save puts off the entries of its event. They
are applied after the next call that succeeds, in the form that the log has
then.
-/

namespace Quorum

namespace Replica

variable {σ ε : Type} [Storage σ ε] {r₀ r r' r'' : Replica σ} {result : Except ε Release}
  {reported more : List (LogIndex × LogEntry)} {loaded : List LogEntry}

/-- The entries that a call gives out as applied. -/
def entriesOf : Except ε Release → List (LogIndex × LogEntry)
  | .ok (.applied entries) => entries
  | _ => []

/-- What a replica can become when it is called, and the entries that it has
reported as applied on the way. Its medium may become anything between two
calls. -/
inductive Reporting (r₀ : Replica σ) : Replica σ → List (LogIndex × LogEntry) → Prop
  | start : Reporting r₀ r₀ []
  | medium {r : Replica σ} {reported : List (LogIndex × LogEntry)}
      (h : Reporting r₀ r reported) (storage : σ) : Reporting r₀ { r with storage } reported
  | call {r r' : Replica σ} {reported : List (LogIndex × LogEntry)} {c : Call}
      {result : Except ε Release} (h : Reporting r₀ r reported)
      (called : r.call c = .ok (r', result)) :
      Reporting r₀ r' (reported ++ entriesOf result)

/-! ## What no call takes back -/

/-- The later replica is not behind in term, in what is committed or in what
is applied. -/
structure Onward (r r' : Replica σ) : Prop where
  term : r.node.record.currentTerm ≤ r'.node.record.currentTerm
  commit : r.node.record.commitLength ≤ r'.node.record.commitLength
  applied : r.node.lastApplied ≤ r'.node.lastApplied

omit [Storage σ ε] in
theorem Onward.refl (r : Replica σ) : r.Onward r :=
  ⟨Nat.le_refl _, Nat.le_refl _, Nat.le_refl _⟩

omit [Storage σ ε] in
theorem Onward.trans (h : r.Onward r') (h' : r'.Onward r'') : r.Onward r'' where
  term := Nat.le_trans h.term h'.term
  commit := Nat.le_trans h.commit h'.commit
  applied := Nat.le_trans h.applied h'.applied

omit [Storage σ ε] in
theorem onward_applyCommitted (r : Replica σ) : r.Onward r.applyCommitted :=
  ⟨Nat.le_refl _, Nat.le_refl _, Nat.le_add_right _ _⟩

/-- A node after its deeds, in whatever way the replica keeps it. -/
theorem onward_of_deeds {heard? : Option (NodeId × Message)} {now : Instant} {draw : Nat}
    {n' : Node} {commands : List Command}
    (deeds : Node.Deeds heard? now draw r.node n' commands) (unsaved : Bool) (storage : σ) :
    r.Onward { r with node := { n' with unsaved }, storage } where
  term := deeds.frame.term_le
  commit := deeds.commit_le
  applied := Nat.le_of_eq deeds.frame.lastApplied.symm

theorem Made.onward (h : r.Made r' result) : r.Onward r' := by
  cases h with
  | aside release => exact .refl r
  | report => exact ⟨Nat.le_refl _, Nat.le_refl _, Nat.le_refl _⟩
  | @unchanged heard? now draw n' commands deeds clean release =>
      exact (onward_of_deeds deeds n'.unsaved r.storage).trans (onward_applyCommitted _)
  | saved deeds save release =>
      exact (onward_of_deeds deeds false _).trans (onward_applyCommitted _)
  | failed deeds save => exact onward_of_deeds deeds false _

theorem Reporting.onward (h : Reporting r₀ r reported) : r₀.Onward r := by
  induction h with
  | start => exact .refl r₀
  | medium h storage ih => exact ih.trans ⟨Nat.le_refl _, Nat.le_refl _, Nat.le_refl _⟩
  | call h called ih => exact ih.trans (call_made called).onward

/-! ## What is applied -/

/-- The entries `loaded` were applied when the replica woke up, and after them
the entries `given`, one for each index. -/
structure Delivered (loaded : List LogEntry) (r : Replica σ)
    (given : List (LogIndex × LogEntry)) : Prop where
  indices : given.map (·.1) = List.range' (loaded.length + 1) given.length
  position : r.node.lastApplied = loaded.length + given.length
  within : r.node.lastApplied ≤ r.node.record.commitLength
  store : r.store = Store.replay (loaded ++ given.map (·.2))

theorem numbered_indices (offset : LogIndex) (entries : List LogEntry) :
    (Node.numbered offset entries).map (·.1) = List.range' (offset + 1) entries.length := by
  apply List.ext_getElem
  · simp [Node.numbered]
  · intro i hi hi'
    simp only [Node.numbered, List.getElem_map, List.getElem_mapIdx, List.getElem_range',
      Nat.one_mul]
    exact Nat.add_right_comm offset i 1

omit [Storage σ ε] in
theorem Delivered.applyCommitted {given : List (LogIndex × LogEntry)}
    (h : Delivered loaded r given) :
    Delivered loaded r.applyCommitted
      (given ++ Node.numbered r.node.lastApplied r.node.unapplied) := by
  have hlength : ∀ offset, (Node.numbered offset r.node.unapplied).length =
      r.node.unapplied.length := by
    intro offset
    simp [Node.numbered]
  constructor
  case indices =>
    rw [List.map_append, h.indices, numbered_indices, h.position, List.length_append, hlength,
      ← List.range'_append_1, Nat.add_right_comm]
  case position =>
    show r.node.lastApplied + r.node.unapplied.length = _
    rw [List.length_append, hlength, h.position, Nat.add_assoc]
  case within =>
    have htake : r.node.unapplied.length ≤ r.node.record.commitLength - r.node.lastApplied :=
      List.length_take_le _ _
    exact Nat.add_le_of_le_sub' h.within htake
  case store =>
    show r.store.applyAll ((Node.numbered _ _).map (·.2)) = _
    rw [h.store, applyAll_replay, List.map_append, List.append_assoc]

/-- What is delivered does not depend on the medium, on what is owed to it, or
on anything else that deeds change. -/
theorem Delivered.of_deeds {heard? : Option (NodeId × Message)} {now : Instant} {draw : Nat}
    {n' : Node} {commands : List Command} {given : List (LogIndex × LogEntry)}
    (h : Delivered loaded r given)
    (deeds : Node.Deeds heard? now draw r.node n' commands) (unsaved : Bool) (storage : σ) :
    Delivered loaded { r with node := { n' with unsaved }, storage } given where
  indices := h.indices
  position := deeds.frame.lastApplied.trans h.position
  within := by
    show n'.lastApplied ≤ n'.record.commitLength
    rw [deeds.frame.lastApplied]
    exact Nat.le_trans h.within deeds.commit_le
  store := h.store

/-- A call that reports nothing applies what comes next, or nothing. -/
theorem Made.delivered (h : r.Made r' result) (hquiet : entriesOf result = [])
    (hr : Delivered loaded r (reported ++ r.applied)) :
    Delivered loaded r' (reported ++ r'.applied) := by
  cases h with
  | aside release => exact hr
  | report =>
      -- an empty report leaves the replica as it was
      have hnone : r.applied = [] := hquiet
      rw [hnone] at hr
      exact ⟨hr.indices, hr.position, hr.within, hr.store⟩
  | @unchanged heard? now draw n' commands deeds clean release =>
      have hmore := (hr.of_deeds deeds n'.unsaved r.storage).applyCommitted
      rw [List.append_assoc] at hmore
      exact hmore
  | @saved heard? now draw n' commands storage deeds save release =>
      have hmore := (hr.of_deeds deeds false storage).applyCommitted
      rw [List.append_assoc] at hmore
      exact hmore
  | failed deeds save => exact hr.of_deeds deeds false _

theorem call_delivered {c : Call} (h : r.call c = .ok (r', result))
    (hr : Delivered loaded r (reported ++ r.applied)) :
    Delivered loaded r' (reported ++ entriesOf result ++ r'.applied) := by
  cases c with
  | event event now draw =>
      have hmade := call_made h
      obtain ⟨⟨kept, outcome⟩, hhandle, h⟩ := exists_of_bind_ok h
      obtain ⟨rfl, rfl⟩ := h
      have hquiet : entriesOf (outcome.map Release.commands) = [] := by cases outcome <;> rfl
      rw [hquiet, List.append_nil]
      exact hmade.delivered hquiet hr
  | request request now =>
      have hmade := call_made h
      have hresult : (r.serve request now).2.map Release.admission = result :=
        congrArg Prod.snd (Except.ok.inj h)
      have hquiet : entriesOf result = [] := by
        rw [← hresult]
        cases (r.serve request now).2 <;> rfl
      rw [hquiet, List.append_nil]
      exact hmade.delivered hquiet hr
  | report =>
      obtain ⟨rfl, rfl⟩ := h
      show Delivered loaded r.takeApplied.2 (reported ++ r.applied ++ [])
      rw [List.append_nil]
      exact ⟨hr.indices, hr.position, hr.within, hr.store⟩

theorem Reporting.delivered (h : Reporting r₀ r reported)
    (h₀ : Delivered loaded r₀ r₀.applied) : Delivered loaded r (reported ++ r.applied) := by
  induction h with
  | start => exact h₀
  | medium h storage ih => exact ⟨ih.indices, ih.position, ih.within, ih.store⟩
  | call h called ih => exact call_delivered called ih

/-- Waking up applies what is known to be committed and reports none of it. -/
theorem boot_delivered {i : NodeId} {peers : List NodeId} {config : TimerConfig} {medium : σ}
    {record : Record} {now : Instant} {draw : Nat} (hload : Storage.load medium = .ok record)
    (h : Replica.boot i peers config medium now draw = .ok (.ok r)) :
    r.applied = [] ∧ Delivered (record.log.take record.commitLength) r [] := by
  unfold boot at h
  rw [hload] at h
  obtain ⟨n, hn, h⟩ := exists_of_bind_ok h
  obtain ⟨electionAt, _, hn⟩ := exists_of_bind_ok hn
  obtain rfl := Except.ok.inj hn
  obtain rfl := Except.ok.inj (Except.ok.inj h)
  have hunapplied : (record.log.drop 0).take (min record.commitLength record.log.length - 0) =
      record.log.take record.commitLength := by
    rw [List.drop_zero, Nat.sub_zero, ← List.take_eq_take_min]
  refine ⟨rfl, rfl, ?_, ?_, ?_⟩
  case refine_1 =>
    show 0 + ((record.log.drop 0).take (min record.commitLength record.log.length - 0)).length = _
    rw [hunapplied, Nat.zero_add, List.length_nil, Nat.add_zero]
  case refine_2 =>
    show 0 + ((record.log.drop 0).take (min record.commitLength record.log.length - 0)).length ≤
      min record.commitLength record.log.length
    rw [hunapplied, Nat.zero_add, List.length_take]
  case refine_3 =>
    show Store.empty.applyAll ((Node.numbered 0 _).map (·.2)) = _
    rw [numbered_entries, List.map_nil, List.append_nil]
    exact congrArg Store.replay hunapplied

/-! ## A node without peers whose medium fails for a while -/

/-- A medium that holds one entry, and knows that it is committed. -/
def keeper : SwitchedStorage MemoryStorage where
  medium := { record := { currentTerm := 1, log := [⟨1, .set "a" "1"⟩], commitLength := 1 } }

/-- The node without peers that has just woken up over it. -/
def hermit : Replica (SwitchedStorage MemoryStorage) where
  node :=
    { id := 1, peers := [], config := {}, record := keeper.medium.record, lastApplied := 1
      role := .follower ⟨none, Duration.ofSeconds 5⟩, priorLease := {}, unsaved := false }
  store := .replay [⟨1, .set "a" "1"⟩]
  storage := keeper
  applied := []

/-- The same node as the leader of term 2, with these entries behind the two
that it started from. -/
def hermitLeading (written : List LogEntry) (lastApplied : LogIndex) : Node where
  id := 1
  peers := []
  config := {}
  record :=
    { currentTerm := 2, votedFor := some 1, commitLength := 2 + written.length
      log := [⟨1, .set "a" "1"⟩, .noOp 2] ++ written }
  lastApplied := lastApplied
  role :=
    .leader ⟨[], Duration.ofSeconds 1,
      ⟨Duration.ofMilliseconds 2500, 0, Duration.ofMilliseconds 2500, true, 1, 0, []⟩⟩
  priorLease := {}
  unsaved := false

/-- A write that was not saved, and is applied together with the next one. -/
def hermitServing : Replica (SwitchedStorage MemoryStorage) where
  node := hermitLeading [⟨2, .set "b" "2"⟩, ⟨2, .set "c" "3"⟩] 4
  store := .replay [⟨1, .set "a" "1"⟩, .noOp 2, ⟨2, .set "b" "2"⟩, ⟨2, .set "c" "3"⟩]
  storage :=
    { medium :=
        ⟨(hermitLeading [⟨2, .set "b" "2"⟩, ⟨2, .set "c" "3"⟩] 4).record, 1⟩
      saves := 1 }
  applied := [(3, ⟨2, .set "b" "2"⟩), (4, ⟨2, .set "c" "3"⟩)]

theorem hermit_reporting : Reporting hermit hermitServing [(2, .noOp 2)] := by
  have hstart : hermit.call (.event .electionTimeout 0 0) = .ok
      ({ node := hermitLeading [] 2, store := hermit.store, applied := [(2, .noOp 2)]
         storage := { medium := ⟨(hermitLeading [] 2).record, 1⟩, saves := 1 } },
        .ok (.commands [])) := rfl
  have hfail : ({ node := hermitLeading [] 2, store := hermit.store, applied := [(2, .noOp 2)]
                  storage := { keeper with saveFails := true } } :
      Replica (SwitchedStorage MemoryStorage)).call (.request (.set "b" "2") 0) = .ok
      ({ node := hermitLeading [⟨2, .set "b" "2"⟩] 2, store := hermit.store
         applied := [(2, .noOp 2)], storage := { keeper with saveFails := true } },
        .error .switchedOff) := rfl
  have hwrite : ({ node := hermitLeading [⟨2, .set "b" "2"⟩] 2, store := hermit.store
                   applied := [], storage := keeper } :
      Replica (SwitchedStorage MemoryStorage)).call (.request (.set "c" "3") 0) = .ok
      (hermitServing, .ok (.admission (.write 4 ⟨2, .set "c" "3"⟩))) := rfl
  have hbroken := (Reporting.start.call hstart).medium { keeper with saveFails := true }
  have hreported := ((hbroken.call hfail).call (c := .report) rfl).medium keeper
  exact hreported.call hwrite

end Replica

/-! ## Every sequence of calls -/

open Replica

variable {σ ε : Type} [Storage σ ε] {r₀ r r' : Replica σ} {i : NodeId} {peers : List NodeId}
  {config : TimerConfig} {medium : σ} {record : Record} {now : Instant} {draw : Nat}
  {reported : List (LogIndex × LogEntry)}

/-- The entries applied since a replica woke up, reported or not, are those
behind the ones that it woke up with, each once and in order, and its store is
what all of them make. No call takes back a term, a commitment or an entry that
was applied. -/
theorem applied_once_in_order (hload : Storage.load medium = .ok record)
    (hboot : Replica.boot i peers config medium now draw = .ok (.ok r₀))
    (h : Reporting r₀ r reported) :
    r₀.node.lastApplied = min record.commitLength record.log.length ∧
    r₀.node.lastApplied ≤ r.node.lastApplied ∧
    r.node.lastApplied ≤ r.node.record.commitLength ∧
    (reported ++ r.applied).map (·.1) =
      List.range' (r₀.node.lastApplied + 1) (r.node.lastApplied - r₀.node.lastApplied) ∧
    r.store = Store.replay
      (record.log.take r₀.node.lastApplied ++ (reported ++ r.applied).map (·.2)) ∧
    ∀ r' more, Reporting r r' more →
      r.node.record.currentTerm ≤ r'.node.record.currentTerm ∧
      r.node.record.commitLength ≤ r'.node.record.commitLength ∧
      r.node.lastApplied ≤ r'.node.lastApplied := by
  obtain ⟨hnone, hwoken⟩ := boot_delivered hload hboot
  have hlength : (record.log.take record.commitLength).length = r₀.node.lastApplied :=
    hwoken.position.symm
  have hdelivered := h.delivered (hnone ▸ hwoken)
  have hgiven : (reported ++ r.applied).length = r.node.lastApplied - r₀.node.lastApplied := by
    rw [hdelivered.position, hlength, Nat.add_sub_cancel_left]
  refine ⟨?_, h.onward.applied, hdelivered.within, ?_, ?_, ?_⟩
  · rw [← hlength, List.length_take]
  · rw [hdelivered.indices, hlength, hgiven]
  · rw [hdelivered.store, ← hlength, List.length_take, ← List.take_eq_take_min]
  · intro r' more hmore
    exact ⟨hmore.onward.term, hmore.onward.commit, hmore.onward.applied⟩

/-- The node without peers again: what it could not save is neither lost nor
applied twice. -/
theorem applied_once_in_order_hermit :
    Storage.load keeper = .ok keeper.medium.record ∧
    Replica.boot 1 [] {} keeper 0 0 = .ok (.ok hermit) ∧
    Reporting hermit hermitServing [(2, .noOp 2)] ∧
    hermitServing.store = Store.replay
      [⟨1, .set "a" "1"⟩, .noOp 2, ⟨2, .set "b" "2"⟩, ⟨2, .set "c" "3"⟩] := by
  have hload : Storage.load keeper = .ok keeper.medium.record := rfl
  have hboot : Replica.boot 1 [] {} keeper 0 0 = .ok (.ok hermit) := rfl
  obtain ⟨_, _, _, _, hstore, _⟩ := applied_once_in_order hload hboot hermit_reporting
  exact ⟨hload, hboot, hermit_reporting, hstore⟩

end Quorum
