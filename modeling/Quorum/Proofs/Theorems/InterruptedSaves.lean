import Quorum.Proofs.Run.Fleet
import Quorum.Proofs.Storage.Crash
import Quorum.Proofs.Theorems.Safety

/-!
# Crashes in the middle of a save

A node that crashes while it saves finds one of three records when it starts
over, and each of them holds what the node had committed
(`interrupted_save_harmless`). A log that replaces another may be shorter than
the one it replaces, so old metadata with a new log are sound for two reasons
only: the log is renamed first, and what is committed in a cluster is never
taken back.
-/

namespace Quorum

/-- What may be loaded in place of an old or a new record after a crash. -/
structure Record.Survives (loaded old new : Record) : Prop where
  /-- Never the new metadata with the old log. -/
  one : loaded = old ∨ loaded = new ∨ loaded = { old with log := new.log }
  within : loaded.commitLength ≤ loaded.log.length
  /-- What was committed is still there, and unchanged. -/
  committed : old.log.take old.commitLength <+: loaded.log

namespace Replica

variable {r : Replica DiskStorage} {r' : Replica InterruptedStorage} {c : Call}
  {result : Except Unit Release} {count : Nat} {garbage : Path → List UInt8}

/-- The replica as it is when its next save is to be cut short. -/
def doomed (r : Replica DiskStorage) (count : Nat) (garbage : Path → List UInt8) :
    Replica InterruptedStorage :=
  r.onMedium ⟨r.storage, count, garbage⟩

/-- A call leaves the files as they are, or it begins to save what it makes of
the record. -/
theorem call_doomed (h : (r.doomed count garbage).call c = .ok (r', result)) :
    ∃ p, r.plan c = .ok p ∧ r'.node.record = (p.node r.node).record ∧
      (r'.storage.disk = r.storage ∨
        r'.storage.disk = r.storage.interrupted (p.node r.node).record count garbage) := by
  have hplan : (r.doomed count garbage).plan c = r.plan c := r.plan_onMedium _ c
  rw [call_eq, hplan] at h
  cases hp : r.plan c with
  | error overflow =>
      rw [hp] at h
      exact nomatch h
  | ok p =>
      rw [hp] at h
      have hcarried : (r.doomed count garbage).carryOut p = (r', result) := Except.ok.inj h
      have hrecord := (r.doomed count garbage).carryOut_record p
      rw [hcarried] at hrecord
      refine ⟨p, rfl, hrecord, ?_⟩
      cases p with
      | rest release => exact .inl (congrArg (·.1.storage.disk) hcarried.symm)
      | report => exact .inl (congrArg (·.1.storage.disk) hcarried.symm)
      | move node release =>
          cases hunsaved : node.unsaved with
          | false =>
              rw [carryOut_clean hunsaved] at hcarried
              exact .inl (congrArg (·.1.storage.disk) hcarried.symm)
          | true =>
              rw [carryOut_unsaved hunsaved] at hcarried
              exact .inr (congrArg (·.1.storage.disk) hcarried.symm)

end Replica

namespace FileRun

variable {M : Roster} (R : FileRun M) {k : Nat} {i : NodeId} {action : Action} {c : Replica.Call}
  {r : Replica DiskStorage} {p : Replica.Plan}

/-- Between events the record of a node is on file. -/
theorem stored_of_up (up : (R.state k).host i = .up r) :
    Storage.load r.storage = .ok r.node.record := by
  have halike : ((R.state k).host i).Alike ((R.inMemory.state k).slot i).host :=
    (R.mirrors k).alike i
  rw [up] at halike
  obtain ⟨medium, hhost, stored⟩ := halike.exists_onMedium
  cases hslot : (R.inMemory.state k).slot i with
  | down storage =>
      rw [hslot] at hhost
      exact nomatch hhost
  | up replica =>
      rw [hslot] at hhost
      obtain rfl := Host.up.inj hhost
      obtain ⟨s, hs⟩ := R.inMemory.exists_scene k
      exact stored.trans (congrArg Except.ok (hs.current i _ hslot).stored)

theorem record_of_up (up : (R.state k).host i = .up r) :
    (R.inMemory.state k).record i = r.node.record :=
  (Option.some.inj (((congrArg Host.record? up).symm.trans ((R.mirrors k).record? i)))).symm

theorem host_succ (next : R.actions[k]? = some action)
    (happens : M.happening? (R.state k).sent action = some (i, .call c)) :
    (R.state (k + 1)).host i = (((R.state k).host i).step (M.identity i) (.call c)).1 := by
  have hstep : R.state (k + 1) = (R.state k).act M i (.call c) := by
    rw [state, Fleet.after_take_succ next]
    show (R.state k).step M action = _
    rw [Fleet.step, happens]
  rw [hstep]
  exact Function.update_self i _ _

/-- A node that runs on after a call was not stopped by the end of the clock. -/
theorem exists_plan {r₂ : Replica DiskStorage} (next : R.actions[k]? = some action)
    (happens : M.happening? (R.state k).sent action = some (i, .call c))
    (up : (R.state k).host i = .up r) (up₂ : (R.state (k + 1)).host i = .up r₂) :
    ∃ p, r.plan c = .ok p := by
  cases hplan : r.plan c with
  | ok p => exact ⟨p, rfl⟩
  | error overflow =>
      rw [R.host_succ next happens, up, Host.step_call_error (Host.call_unplanned hplan)] at up₂
      exact nomatch up₂

/-- A node that is called, and whose save is not cut short, has the record that
was planned. -/
theorem record_of_plan (next : R.actions[k]? = some action)
    (happens : M.happening? (R.state k).sent action = some (i, .call c))
    (up : (R.state k).host i = .up r) (hplan : r.plan c = .ok p) :
    (R.inMemory.state (k + 1)).record i = (p.node r.node).record ∧
      (p.node r.node).record.Recordable := by
  have hup : (R.state (k + 1)).host i = .up (r.carryOut p).1 := by
    rw [R.host_succ next happens, up, Host.step_planned hplan]
  have hrecordable := (R.mirrors (k + 1)).recordable i
  rw [hup] at hrecordable
  rw [R.record_of_up hup, r.carryOut_record p]
  exact ⟨rfl, r.carryOut_record p ▸ hrecordable.record⟩

end FileRun

/-- A crash in the middle of a save is harmless. In every run of a cluster over
files, whatever makes a node save and however many operations of that have been
carried out, the node will load the record it had, the one it was about to
have, or the old metadata with the new log; its commit length does not exceed
its log, and what it had committed is there. -/
theorem interrupted_save_harmless {M : Roster} (R : FileRun M) {k count : Nat} {action : Action}
    {i : NodeId} {c : Replica.Call} {r : Replica DiskStorage} {r' : Replica InterruptedStorage}
    {result : Except Unit Replica.Release} {garbage : Path → List UInt8}
    (next : R.actions[k]? = some action)
    (happens : M.happening? (R.state k).sent action = some (i, .call c))
    (up : (R.state k).host i = .up r)
    (crash : (r.doomed count garbage).call c = .ok (r', result)) :
    Storage.load r.storage = .ok r.node.record ∧
      ∃ loaded, Storage.load r'.storage.disk = .ok loaded ∧
        loaded.Survives r.node.record r'.node.record := by
  have hstored := R.stored_of_up up
  obtain ⟨p, hplan, hnew, hdisk⟩ := Replica.call_doomed crash
  obtain ⟨hrecord, hrecordable⟩ := R.record_of_plan next happens up hplan
  rw [← hnew] at hrecord hrecordable hdisk
  have hold := R.inMemory.commit_le_length k i
  have hwithin := R.inMemory.commit_le_length (k + 1) i
  obtain ⟨hle, hkept⟩ := commits_stay R.inMemory (Nat.le_succ k) i
  rw [R.record_of_up up] at hold hle hkept
  rw [hrecord] at hwithin hle hkept
  -- what was committed is the start of either log
  have hcommitted : r.node.record.log.take r.node.record.commitLength <+: r'.node.record.log :=
    hkept ▸ List.take_prefix _ _
  have hunchanged : r.node.record.Survives r.node.record r'.node.record :=
    ⟨.inl rfl, hold, List.take_prefix _ _⟩
  refine ⟨hstored, ?_⟩
  rcases hdisk with hdisk | hdisk
  · exact ⟨r.node.record, hdisk ▸ hstored, hunchanged⟩
  · obtain ⟨n, husable⟩ := (R.mirrors k).usable i
    rw [up] at husable
    have hload := husable.load_interrupted hstored hrecordable count garbage
    refine ⟨_, hdisk ▸ hload, ?_⟩
    split
    · exact ⟨.inr (.inl rfl), hwithin, hcommitted⟩
    · split
      · exact ⟨.inr (.inr rfl), Nat.le_trans hle hwithin, hcommitted⟩
      · exact hunchanged

theorem handover_short (k : Nat) : (handover.state k).fleet.Short := by
  have hmembers : ∀ k ≤ 22, ∀ i ∈ trio.ids,
      ((handover.state k).slot i).host.Holds Node.Short := by decide +kernel
  have hlast : ∀ k, 22 ≤ k → handover.state k = handover.state 22 := by
    intro k hk
    rw [Run.state, Run.state, List.take_of_length_le hk]
    rfl
  intro i
  show ((handover.state k).slot i).host.Holds Node.Short
  by_cases hi : i ∈ trio.ids
  · rcases Nat.le_total k 22 with hk | hk
    · exact hmembers k hk i hi
    · rw [hlast k hk]
      exact hmembers 22 (Nat.le_refl 22) i hi
  · cases hslot : (handover.state k).slot i with
    | down storage => trivial
    | up replica =>
        obtain ⟨s, hs⟩ := handover.exists_scene k
        obtain ⟨hid, hseat, _, _⟩ := hs.kept i replica hslot
        exact absurd (hid ▸ hseat.member) hi

theorem handover_texts : ∀ action ∈ handover.actions, action.FromText := by
  have hset : Request.ofText "SET k v" = .ok (.set "k" "v") ∧
      Request.ofText "SET a b" = .ok (.set "a" "b") := by decide +kernel
  simp only [handover, List.forall_mem_cons]
  refine ⟨trivial, trivial, trivial, trivial, trivial, trivial, ⟨"SET k v", hset.1⟩, ?_⟩
  refine ⟨trivial, trivial, trivial, trivial, trivial, trivial, trivial, trivial,
    ⟨"SET a b", hset.2⟩, ?_⟩
  exact ⟨trivial, trivial, trivial, trivial, trivial, trivial, List.forall_mem_nil _⟩

/-- The same with storage in files. -/
def handoverOnFiles : FileRun trio :=
  handover.onFiles (fun _ => DiskStorage.blank) (fun _ => DiskStorage.blank_fresh) (by decide)
    handover_texts handover_short

/-- Node 0 has two entries, and crashes when it has given its log the one entry
of node 1 instead, but not yet its metadata. -/
theorem interrupted_save_harmless_truncated :
    ∃ (action : Action) (c : Replica.Call) (r : Replica DiskStorage)
      (r' : Replica InterruptedStorage) (result : Except Unit Replica.Release),
      (handoverOnFiles.actions[14]? = some action ∧
        trio.happening? (handoverOnFiles.state 14).sent action = some (0, .call c) ∧
        (handoverOnFiles.state 14).host 0 = .up r ∧
        (r.doomed 5 fun _ => []).call c = .ok (r', result)) ∧
      r.node.record.log.length = 2 ∧ r'.node.record.log.length = 1 ∧
      ∃ loaded, Storage.load r'.storage.disk = .ok loaded ∧
        loaded.Survives r.node.record r'.node.record := by
  have hsent : ((handover.state 14).sent[8]?).map (·.receiver) = some 0 := by decide +kernel
  have hlengths : ((handover.state 14).record 0).log.length = 2 ∧
      ((handover.state 15).record 0).log.length = 1 := by decide +kernel
  have hrunning : ((handover.state 14).node? 0).isSome = true ∧
      ((handover.state 15).node? 0).isSome = true := by decide +kernel
  have hmirrors : (handoverOnFiles.state 14).Mirrors (handover.state 14).fleet :=
    handoverOnFiles.mirrors 14
  have hmirrors' : (handoverOnFiles.state 15).Mirrors (handover.state 15).fleet :=
    handoverOnFiles.mirrors 15
  obtain ⟨m, hm, hreceiver⟩ := Option.map_eq_some_iff.mp hsent
  have hm' : (handoverOnFiles.state 14).sent[8]? = some m := hmirrors.sent ▸ hm
  obtain ⟨r, hup⟩ := hmirrors.exists_up hrunning.1
  obtain ⟨r₂, hup₂⟩ := hmirrors'.exists_up hrunning.2
  have hnext : handoverOnFiles.actions[14]? = some (.deliver 8 0 0) := rfl
  have happens : trio.happening? (handoverOnFiles.state 14).sent (.deliver 8 0 0) =
      some (0, .call (.event (.message m.sender m.message) 0 0)) := by
    rw [Roster.happening?, hm', Option.map_some, hreceiver]
  obtain ⟨p, hplan⟩ := handoverOnFiles.exists_plan hnext happens hup hup₂
  have hcrash : (r.doomed 5 fun _ => []).call (.event (.message m.sender m.message) 0 0) =
      .ok ((r.doomed 5 fun _ => []).carryOut p) :=
    Host.call_planned ((r.plan_onMedium _ _).trans hplan)
  have hnew : ((r.doomed 5 fun _ => []).carryOut p).1.node.record = (handover.state 15).record 0 :=
    (Replica.carryOut_record _ p).trans
      (handoverOnFiles.record_of_plan hnext happens hup hplan).1.symm
  have hold : r.node.record = (handover.state 14).record 0 :=
    (handoverOnFiles.record_of_up hup).symm
  obtain ⟨_, hsurvives⟩ := interrupted_save_harmless handoverOnFiles hnext happens hup hcrash
  exact ⟨_, _, r, _, _, ⟨hnext, happens, hup, hcrash⟩, hold ▸ hlengths.1, hnew ▸ hlengths.2,
    hsurvives⟩

end Quorum
