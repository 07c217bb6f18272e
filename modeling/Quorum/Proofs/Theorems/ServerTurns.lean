import Quorum.Proofs.Server.Clients
import Quorum.Proofs.Storage.Saving

/-!
# A server, turn by turn

However many turns a server has taken, and whatever has come to it, each client
that has asked for something has one answer, or waits for it, or has given up
(`clients_served`). And as long as the server runs its files hold the record of
its node (`saved_while_running`): it stops with the first save that fails, so
none is ever owed.
-/

namespace Quorum

variable {ω : Type} {s₀ s : Server ω} {asked settled : List ω} {network : Network}
  {setup : ServerSetup} {files : FileTree} {taken : List SocketAddress} {now : Instant} {draw : Nat}

theorem Replica.boot_storage {σ ε : Type} [Storage σ ε] {id : NodeId} {peers : List NodeId}
    {config : TimerConfig} {storage : σ} {r : Replica σ}
    (h : boot id peers config storage now draw = .ok (.ok r)) : r.storage = storage := by
  unfold boot at h
  split at h
  · cases h
  · obtain ⟨node, _, h⟩ := exists_of_bind_ok h
    obtain rfl := Except.ok.inj (Except.ok.inj h)
    rfl

namespace Server

/-- What becomes of a server, with all clients that have asked for something and
those to whom nothing is owed any more: their answers were taken, or they have
given up. -/
inductive Course (s₀ : Server ω) : Server ω → List ω → List ω → Prop
  | start : Course s₀ s₀ [] []
  | turn {s s' : Server ω} {asked settled : List ω} {now : Instant} {draws : List Nat}
      {requests : List (ω × Request)} {arrival? : Option Arrival}
      (before : Course s₀ s asked settled) (call : s.turn now draws requests arrival? = .ok s') :
      Course s₀ s' (requests.map (·.1) ++ asked) settled
  | take {s : Server ω} {asked settled : List ω} (before : Course s₀ s asked settled) :
      Course s₀ s.takeOutput.2 asked (s.answered ++ settled)
  | forget {s : Server ω} {asked settled : List ω} (before : Course s₀ s asked settled)
      (gone : ω → Bool) : Course s₀ (s.forget gone) asked (s.waiting.filter gone ++ settled)

/-! ## Starting -/

/-- A server that starts knows of no clients, and keeps its files where it was
told to. -/
theorem start_ok (h : start network setup files taken now draw = .ok (.ok s)) :
    ∃ replica, s = { replica } ∧ replica.storage.directory = setup.directory := by
  unfold start at h
  split at h
  · cases h
  · split at h
    · cases h
    · next storage hopened =>
        obtain ⟨result, hboot, h⟩ := exists_of_bind_ok h
        cases result with
        | error cause => cases h
        | ok replica =>
            simp only [] at h
            split at h
            · cases h
            · refine ⟨replica, (Except.ok.inj (Except.ok.inj h)).symm, ?_⟩
              rw [Replica.boot_storage hboot]
              exact (congrArg (·.1.directory) hopened).symm

end Server

/-! ## Saving -/

namespace Replica

/-- What a replica over files has come to be since it was `r₀`: its files hold
the record of its node, or both are what they were. -/
structure Filed (r₀ r : Replica DiskStorage) : Prop where
  directory : r.storage.directory = r₀.storage.directory
  held : r.storage.Holds r.node.record ∨
    r.node.record = r₀.node.record ∧ r.storage = r₀.storage

theorem Filed.refl (r : Replica DiskStorage) : r.Filed r := ⟨rfl, .inr ⟨rfl, rfl⟩⟩

theorem Filed.congr {r₀ r r' : Replica DiskStorage} (h : r₀.Filed r)
    (record : r'.node.record = r.node.record) (storage : r'.storage = r.storage) :
    r₀.Filed r' := by
  obtain ⟨hdirectory, hheld⟩ := h
  refine ⟨storage ▸ hdirectory, ?_⟩
  rw [record, storage]
  exact hheld

/-- A call that succeeds has saved whatever it has changed. -/
theorem filed_lasts (r₀ : Replica DiskStorage) : Server.Lasts (Filed r₀) := by
  intro r r' c release h hcall
  cases call_made hcall with
  | aside release => exact h
  | report => exact h.congr rfl rfl
  | unchanged deeds clean release => exact h.congr (deeds.frame.saved clean).2 rfl
  | saved deeds save release =>
      exact ⟨(DiskStorage.save_directory save).trans h.directory,
        .inl (DiskStorage.holds_of_save save)⟩

end Replica

/-- On files that hold the record of a server, what is to be done succeeds and makes
them hold the record that it has later. -/
theorem Server.run_savesSince {before : Server ω} {d : DiskStorage} {k : Nat}
    (usable : d.Usable k) (directory : before.replica.storage.directory = d.directory) :
    ∃ files, d.files.run (s.savesSince before) = (files, .ok ()) ∧
      DiskStorage.Usable { d with files } k ∧
      (DiskStorage.Holds { d with files } s.replica.node.record ∨
        s.replica.node.record = before.replica.node.record ∧ files = d.files) := by
  unfold savesSince
  split
  · next same => exact ⟨d.files, rfl, usable, .inr ⟨same, rfl⟩⟩
  · rw [directory]
    obtain ⟨files, hrun, husable, holds⟩ := usable.run_save s.replica.node.record
    exact ⟨files, hrun, husable, .inl holds⟩

/-! ## Every course -/

namespace Server

theorem Course.filed (h : s₀.Course s asked settled) : s.Upholds (Replica.Filed s₀.replica) := by
  induction h with
  | start => exact fun _ => .refl _
  | turn before call ih => exact (ih.turn (Replica.filed_lasts _) _ _ _ _).holds _ call
  | take before ih => exact ih
  | forget before gone ih => exact ih

theorem Course.accounts (h : s₀.Course s asked settled) (start : s₀.Accounts [] []) :
    s.Accounts asked settled := by
  induction h with
  | start => exact start
  | turn before call ih => exact (ih.turn _ _ _ _).holds _ call
  | take before ih => exact ih.takeOutput
  | forget before gone ih => exact ih.forget gone

end Server

/-- Each client of a server that runs has an answer that has been given out, or
waits, or is owed nothing any more, and there is one of these for each time that it
has asked. -/
theorem clients_served (hstart : Server.start network setup files taken now draw = .ok (.ok s₀))
    (h : s₀.Course s asked settled) (running : s.isRunning = true) :
    (s.answered ++ s.waiting ++ settled).Perm asked := by
  obtain ⟨replica, rfl, _⟩ := Server.start_ok hstart
  exact (h.accounts (.start replica)).once running

/-- The files of a server that runs hold the text of the record of its node, unless
neither has changed since the server has started. So what is taken from it between
two turns is taken after its record has been saved. -/
theorem saved_while_running (h : s₀.Course s asked settled) (running : s.isRunning = true) :
    s.replica.storage.Holds s.replica.node.record ∨
      s.replica.node.record = s₀.replica.node.record ∧ s.replica.storage = s₀.replica.storage :=
  (h.filed running).held

end Quorum
