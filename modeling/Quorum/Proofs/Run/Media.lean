import Quorum.Proofs.Handlers.Recordable
import Quorum.Proofs.Run.Life
import Quorum.Proofs.Storage.Saving
import Quorum.Storage.Memory

/-!
# Replicas over two media

A replica asks its medium for nothing but to save a record and to load the last
one: what a call comes to is settled before the medium is used
(`Replica.call_eq`). So a replica over files and one over memory that hold the
same record go on in the same way, as long as no operation on the files fails.
-/

namespace Quorum

namespace Replica

variable {σ τ ε δ : Type}

/-- The replica with another medium in the place of its own. -/
def onMedium (r : Replica σ) (medium : τ) : Replica τ :=
  { node := r.node, store := r.store, storage := medium, applied := r.applied }

/-- What a call comes to if it can be saved. -/
inductive Plan where
  /-- Nothing changes. -/
  | rest (release : Release)
  | report
  /-- The node becomes another one, and then something is given out. -/
  | move (node : Node) (release : Release)

def Plan.node (before : Node) : Plan → Node
  | .rest _ => before
  | .report => before
  | .move node _ => node

def planRequest (r : Replica σ) (request : Request) (now : Instant) : Plan :=
  if !r.node.isLeader then .rest (.admission (.reply r.redirect))
  else if !r.isReady request now then .rest (.admission (.deferred request))
  else
    match request with
    | .get key => .rest (.admission (.reply (r.read key)))
    | .set key value =>
      match r.node.submit (.set key value) with
      | (_, none) => .rest (.admission (.reply r.redirect))
      | (node, some (index, entry)) => .move node (.admission (.write index entry))

def plan (r : Replica σ) : Call → Except ClockOverflow Plan
  | .event event now draw => do
    let (node, commands) ← r.node.handle event now draw
    return .move node (.commands commands)
  | .request request now => return r.planRequest request now
  | .report => return .report

/-- No plan depends on the medium. -/
theorem plan_onMedium (r : Replica σ) (medium : τ) (c : Call) :
    (r.onMedium medium).plan c = r.plan c := by
  cases c <;> rfl

/-- What a call brings fits the files. -/
def Call.Recordable : Call → Prop
  | .event (.message _ message) _ _ => message.Recordable
  | .request (.set key value) _ => (Operation.set key value).Recordable
  | _ => True

section

variable [Storage σ ε] [Storage τ δ] {r r' : Replica σ} {c : Call} {p : Plan}

/-- The replica after a plan. Nothing is given out if the node that it leads to
could not be saved. -/
def carryOut (r : Replica σ) : Plan → Replica σ × Except ε Release
  | .rest release => (r, .ok release)
  | .report => (r.takeApplied.2, .ok (.applied r.takeApplied.1))
  | .move node release =>
    match ({ r with node } : Replica σ).persist with
    | (r, .error e) => (r, .error e)
    | (r, .ok ()) => (r.applyCommitted, .ok release)

theorem serve_eq (r : Replica σ) (request : Request) (now : Instant) :
    ((r.serve request now).1, (r.serve request now).2.map .admission) =
      r.carryOut (r.planRequest request now) := by
  unfold serve planRequest
  split
  · rfl
  · split
    · rfl
    · cases request with
      | get key => rfl
      | set key value =>
          cases hsubmit : r.node.submit (.set key value) with
          | mk node place =>
              simp only [hsubmit]
              cases place with
              | none => rfl
              | some taken =>
                  show _ = r.carryOut (.move node (.admission (.write taken.1 taken.2)))
                  unfold carryOut
                  rcases hsaved : ({ r with node } : Replica σ).persist with ⟨kept, _ | _⟩ <;>
                    simp only [hsaved] <;> rfl

/-- What a call comes to is settled before the medium is used. -/
theorem call_eq (r : Replica σ) (c : Call) : r.call c = (r.plan c).map r.carryOut := by
  cases c with
  | report => rfl
  | request request now => exact congrArg Except.ok (r.serve_eq request now)
  | event event now draw =>
      rw [call, handle, plan]
      cases hnode : r.node.handle event now draw with
      | error overflow => rfl
      | ok outcome =>
          show _ = Except.ok (r.carryOut (.move outcome.1 (.commands outcome.2)))
          unfold carryOut
          rcases hsaved : ({ r with node := outcome.1 } : Replica σ).persist with ⟨kept, _ | _⟩ <;>
            simp only [bind, Except.bind, hsaved] <;> rfl

/-- A plan saves nothing if the node has not changed since it was saved. -/
theorem carryOut_clean {node : Node} (clean : node.unsaved = false) (release : Release) :
    r.carryOut (.move node release) =
      (({ r with node } : Replica σ).applyCommitted, .ok release) := by
  unfold carryOut persist Node.takeUnsaved
  simp only [clean, Bool.false_eq_true, if_false]
  rw [← clean]

theorem carryOut_unsaved {node : Node} (changed : node.unsaved = true) (release : Release) :
    r.carryOut (.move node release) =
      match Storage.save r.storage node.record with
      | (storage, .ok ()) =>
        (({ r with node := { node with unsaved := false }, storage } : Replica σ).applyCommitted,
          .ok release)
      | (storage, .error e) =>
        ({ r with node := { node with unsaved := false }, storage }, .error e) := by
  unfold carryOut persist Node.takeUnsaved
  simp only [changed, if_true]
  rcases Storage.save r.storage node.record with ⟨storage, _ | _⟩ <;> rfl

/-- The node after a plan is the planned one, but for what counts as saved and
applied. -/
theorem carryOut_node (r : Replica σ) (p : Plan) : ∃ unsaved lastApplied,
    (r.carryOut p).1.node = { p.node r.node with unsaved, lastApplied } := by
  cases p with
  | rest release => exact ⟨_, _, rfl⟩
  | report => exact ⟨_, _, rfl⟩
  | move node release =>
      cases hunsaved : node.unsaved with
      | false =>
          rw [carryOut_clean hunsaved]
          exact ⟨_, _, rfl⟩
      | true =>
          rw [carryOut_unsaved hunsaved]
          rcases Storage.save r.storage node.record with ⟨storage, _ | _⟩ <;> exact ⟨_, _, rfl⟩

theorem planRequest_node (r : Replica σ) (request : Request) (now : Instant) :
    (r.planRequest request now).node r.node = r.node ∨
      ∃ key value, request = .set key value ∧
        (r.planRequest request now).node r.node = (r.node.submit (.set key value)).1 := by
  unfold planRequest
  split
  · exact .inl rfl
  · split
    · exact .inl rfl
    · cases request with
      | get key => exact .inl rfl
      | set key value =>
          rcases hsubmit : r.node.submit (.set key value) with ⟨node, _ | taken⟩
          · simp only [hsubmit]
            exact .inl rfl
          · refine .inr ⟨key, value, rfl, ?_⟩
            simp only [hsubmit]
            rfl

theorem carryOut_record (r : Replica σ) (p : Plan) :
    (r.carryOut p).1.node.record = (p.node r.node).record := by
  obtain ⟨unsaved, lastApplied, hnode⟩ := r.carryOut_node p
  rw [hnode]

theorem carryOut_recordable (r : Replica σ) (h : (p.node r.node).Recordable) :
    (r.carryOut p).1.node.Recordable := by
  obtain ⟨unsaved, lastApplied, hnode⟩ := r.carryOut_node p
  rw [hnode]
  exact ⟨h.id, h.record, h.positive⟩

/-- What becomes of a node in a call can be saved, if the node could and its log
does not outgrow the word in which its length is counted. -/
theorem plan_recordable (h : r.plan c = .ok p) (given : c.Recordable) (hn : r.node.Recordable)
    (short : Word.fits (p.node r.node).record.log.length = true) :
    (p.node r.node).Recordable := by
  cases c with
  | event event now draw =>
      obtain ⟨⟨node, commands⟩, hhandle, h⟩ := exists_of_bind_ok h
      obtain rfl := Except.ok.inj h
      refine Node.handle_recordable hhandle hn (fun sender message heq => ?_) short
      rw [heq] at given
      exact given
  | request request now =>
      obtain rfl := Except.ok.inj h
      rcases r.planRequest_node request now with hsame | ⟨key, value, rfl, hsubmit⟩
      · rw [hsame]
        exact hn
      · rw [hsubmit] at short ⊢
        exact Node.submit_recordable hn given short
  | report =>
      obtain rfl := Except.ok.inj h
      exact hn

end

/-! ## Files and memory -/

variable {r r' : Replica DiskStorage} {m : MemoryStorage} {c : Call} {p : Plan} {release : Release}
  {k : Nat}

/-- A plan that is carried out over files is carried out over memory, and the
media hold the same record after it if they did before. -/
theorem carryOut_onMedium (stored : Storage.load r.storage = .ok m.record)
    (h : r.carryOut p = (r', .ok release)) (recordable : (p.node r.node).record.Recordable) :
    ∃ m' : MemoryStorage, (r.onMedium m).carryOut p = (r'.onMedium m', .ok release) ∧
      Storage.load r'.storage = .ok m'.record := by
  cases p with
  | rest given =>
      obtain ⟨rfl, hgiven⟩ := Prod.mk.inj h
      obtain rfl := Except.ok.inj hgiven
      exact ⟨m, rfl, stored⟩
  | report =>
      obtain ⟨rfl, hgiven⟩ := Prod.mk.inj h
      obtain rfl := Except.ok.inj hgiven
      exact ⟨m, rfl, stored⟩
  | move node given =>
      cases hunsaved : node.unsaved with
      | false =>
          rw [carryOut_clean hunsaved] at h
          obtain ⟨rfl, hgiven⟩ := Prod.mk.inj h
          obtain rfl := Except.ok.inj hgiven
          exact ⟨m, carryOut_clean hunsaved given, stored⟩
      | true =>
          rw [carryOut_unsaved hunsaved] at h
          rcases hsave : Storage.save r.storage node.record with ⟨disk, failure | _⟩
          · rw [hsave] at h
            exact nomatch (Prod.mk.inj h).2
          · rw [hsave] at h
            obtain ⟨rfl, hgiven⟩ := Prod.mk.inj h
            obtain rfl := Except.ok.inj hgiven
            obtain ⟨k, husable⟩ := DiskStorage.usable_of_save hsave
            obtain ⟨disk', hsave', _, hload⟩ := husable.save recordable
            obtain rfl := (Prod.mk.inj (hsave.symm.trans hsave')).1
            exact ⟨⟨node.record, m.saves + 1⟩, carryOut_unsaved hunsaved given, hload⟩

theorem carryOut_error {failure : DiskError} (h : r.carryOut p = (r', .error failure)) :
    ∃ cause, failure = .io cause := by
  cases p with
  | rest given => exact nomatch (Prod.mk.inj h).2
  | report => exact nomatch (Prod.mk.inj h).2
  | move node given =>
      cases hunsaved : node.unsaved with
      | false =>
          rw [carryOut_clean hunsaved] at h
          exact nomatch (Prod.mk.inj h).2
      | true =>
          rw [carryOut_unsaved hunsaved] at h
          rcases hsaved : r.storage.files.run (Disk.saveOperations r.storage.directory node.record)
            with ⟨files, cause | _⟩
          · rw [DiskStorage.save_eq r.storage node.record hsaved] at h
            exact ⟨cause, (Except.error.inj (Prod.mk.inj h).2).symm⟩
          · rw [DiskStorage.save_eq r.storage node.record hsaved] at h
            exact nomatch (Prod.mk.inj h).2

/-- Over a usable directory every plan is carried out. -/
theorem carryOut_usable (usable : r.storage.Usable k)
    (recordable : (p.node r.node).record.Recordable) :
    ∃ r' release, r.carryOut p = (r', .ok release) ∧ r'.storage.Usable k := by
  cases p with
  | rest given => exact ⟨_, _, rfl, usable⟩
  | report => exact ⟨_, _, rfl, usable⟩
  | move node given =>
      cases hunsaved : node.unsaved with
      | false => exact ⟨_, _, carryOut_clean hunsaved given, usable⟩
      | true =>
          replace recordable : node.record.Recordable := recordable
          obtain ⟨disk, hsave, husable, _⟩ := usable.save recordable
          have hmove := carryOut_unsaved (r := r) hunsaved given
          rw [hsave] at hmove
          exact ⟨_, _, hmove, husable⟩

end Replica

/-! ## Starting over -/

namespace Replica

variable {who : Identity} {disk : DiskStorage} {m : MemoryStorage}

theorem boot_loaded {σ ε : Type} [Storage σ ε] {medium : σ} {record : Record}
    (stored : Storage.load medium = .ok record) (now : Instant) (draw : Nat) :
    boot who.id who.peers who.config medium now draw = (do
      let node ← Node.restore who.id who.peers who.config record now draw
      return .ok { ({ node, store := .empty, storage := medium, applied := [] } :
        Replica σ).applyCommitted with applied := [] }) := by
  unfold boot
  rw [stored]

/-- A replica that wakes up over files wakes up over memory that holds the same
record, and its node can be saved. -/
theorem boot_onMedium (stored : Storage.load disk = .ok m.record) (hid : Word.fits who.id = true)
    (now : Instant) (draw : Nat) :
    (∃ overflow, boot who.id who.peers who.config disk now draw = .error overflow ∧
      boot who.id who.peers who.config m now draw = .error overflow) ∨
    ∃ r : Replica DiskStorage, boot who.id who.peers who.config disk now draw = .ok (.ok r) ∧
      boot who.id who.peers who.config m now draw = .ok (.ok (r.onMedium m)) ∧ r.storage = disk ∧
      r.node.Recordable := by
  have hmemory : Storage.load m = .ok m.record := rfl
  rw [boot_loaded stored, boot_loaded hmemory]
  cases hrestored : Node.restore who.id who.peers who.config m.record now draw with
  | error overflow => exact .inl ⟨overflow, rfl, rfl⟩
  | ok node =>
      refine .inr ⟨{ ({ node, store := .empty, storage := disk, applied := [] } :
        Replica DiskStorage).applyCommitted with applied := [] }, rfl, rfl, rfl, ?_⟩
      obtain ⟨electionAt, _, hnode⟩ := exists_of_bind_ok hrestored
      obtain rfl := Except.ok.inj hnode
      obtain ⟨hlegible, hcommit⟩ := DiskStorage.recordable_of_load stored
      exact {
        id := hid
        record := ⟨⟨hlegible.currentTerm, hlegible.votedFor, hlegible.log⟩,
          Word.fits_of_le (Nat.min_le_left _ _) hcommit⟩
        positive := .inl ⟨_, rfl⟩ }

end Replica

/-! ## Hosts -/

/-- Files can hold the length of the log. -/
def Node.Short (n : Node) : Prop := Word.fits n.record.log.length = true

instance : DecidablePred Node.Short := fun n =>
  inferInstanceAs (Decidable (Word.fits n.record.log.length = true))

/-- What happens brings nothing that does not fit the files, the identifier of
a replica that starts over included. -/
def Happening.Recordable (who : Identity) : Happening → Prop
  | .call c => c.Recordable
  | .crash => True
  | .restart _ _ => Word.fits who.id = true

namespace Host

section

variable {σ ε : Type} [Storage σ ε] {who : Identity} {r : Replica σ} {c : Replica.Call}
  {p : Replica.Plan}

/-- What a running node is like; a host that is down has none. -/
def Holds (property : Node → Prop) : Host σ → Prop
  | .up r => property r.node
  | .down _ => True

instance (property : Node → Prop) [DecidablePred property] (host : Host σ) :
    Decidable (host.Holds property) :=
  match host with
  | .up r => inferInstanceAs (Decidable (property r.node))
  | .down _ => isTrue trivial

/-- What is left of a host in a crash. -/
def medium : Host σ → σ
  | .up r => r.storage
  | .down medium => medium

/-- What is given out when something happens, if anything is. -/
def release? : Host σ → Happening → Option Replica.Release
  | .up r, .call c =>
    match r.call c with
    | .ok (_, .ok release) => some release
    | _ => none
  | _, _ => none

theorem call_planned (h : r.plan c = .ok p) : r.call c = .ok (r.carryOut p) := by
  rw [r.call_eq, h]
  rfl

theorem call_unplanned {overflow : ClockOverflow} (h : r.plan c = .error overflow) :
    r.call c = .error overflow := by
  rw [r.call_eq, h]
  rfl

theorem step_planned (h : r.plan c = .ok p) :
    ((up r).step who (.call c)).1 = .up (r.carryOut p).1 :=
  step_call_ok (call_planned h)

/-- The commands of a step are what it gives out, unless it gives out something
else. -/
theorem step_commands (host : Host σ) (happening : Happening) :
    (host.step who happening).2 =
      match host.release? happening with
      | some (.commands commands) => commands
      | _ => [] := by
  cases host with
  | down medium =>
      cases happening with
      | restart now draw =>
          obtain ⟨_, _, heq⟩ | ⟨_, heq⟩ := step_restart_cases who medium now draw <;>
            rw [heq] <;> rfl
      | call c => rfl
      | crash => rfl
  | up r =>
      cases happening with
      | call c =>
          unfold release?
          rcases hcall : r.call c with
            overflow | ⟨r', failure | ⟨commands | admission | entries⟩⟩ <;>
            simp only [step, hcall]
      | crash => rfl
      | restart now draw => rfl

end

/-- A host over files and one over memory that are in the same state: the same
node, store and entries to report, if they run, and the same record on both
media. -/
inductive Alike : Host DiskStorage → Host MemoryStorage → Prop
  | up {r : Replica DiskStorage} {m : MemoryStorage}
      (stored : Storage.load r.storage = .ok m.record) : Alike (.up r) (.up (r.onMedium m))
  | down {disk : DiskStorage} {m : MemoryStorage} (stored : Storage.load disk = .ok m.record) :
      Alike (.down disk) (.down m)

/-- The record of a node, or what it will find on its medium. -/
def record? {σ ε : Type} [Storage σ ε] : Host σ → Option Record
  | .up r => some r.node.record
  | .down medium => (Storage.load medium).toOption

/-- An operation on files fails in what happens. -/
def Breaks (host : Host DiskStorage) (happening : Happening) : Prop :=
  ∃ r c r' cause, host = .up r ∧ happening = .call c ∧ r.call c = .ok (r', .error (.io cause))

variable {who : Identity} {d : Host DiskStorage} {m : Host MemoryStorage} {happening : Happening}
  {k : Nat}

theorem Alike.record?_eq (alike : d.Alike m) : d.record? = m.record? := by
  cases alike with
  | up stored => rfl
  | down stored => rw [record?, stored]; rfl

/-- What runs over files runs over memory. -/
theorem Alike.exists_onMedium {r : Replica DiskStorage} (alike : (Host.up r).Alike m) :
    ∃ medium : MemoryStorage, m = .up (r.onMedium medium) ∧
      Storage.load r.storage = .ok medium.record := by
  cases alike with
  | up stored => exact ⟨_, rfl, stored⟩

/-- What runs over memory runs over files. -/
theorem Alike.exists_up {r : Replica MemoryStorage} (alike : d.Alike (.up r)) :
    ∃ r' : Replica DiskStorage, d = .up r' := by
  cases alike with
  | @up r' _ stored => exact ⟨r', rfl⟩

/-- Over both media a host runs after a call, or after it has started over, with
the same record, or it runs over neither. -/
theorem Alike.step_short (alike : d.Alike m) (given : happening.Recordable who) :
    (d.step who happening).1.Holds Node.Short ↔ (m.step who happening).1.Holds Node.Short := by
  cases alike with
  | @up r m stored =>
      cases happening with
      | restart now draw => exact .rfl
      | crash => exact .rfl
      | call c =>
          cases hplan : r.plan c with
          | error overflow =>
              rw [step_call_error (call_unplanned hplan),
                step_call_error (call_unplanned ((r.plan_onMedium m c).trans hplan))]
              exact .rfl
          | ok p =>
              rw [step_planned hplan, step_planned ((r.plan_onMedium m c).trans hplan)]
              simp only [Holds, Node.Short, Replica.carryOut_record]
              exact .rfl
  | @down disk m stored =>
      cases happening with
      | call c => exact .rfl
      | crash => exact .rfl
      | restart now draw =>
          rcases Replica.boot_onMedium stored given now draw with
            ⟨overflow, hd, hm⟩ | ⟨r, hd, hm, _⟩ <;> simp only [step, hd, hm] <;> exact .rfl

/-- Both go on in the same way, give out the same and hold the same record
again. -/
theorem Alike.step (alike : d.Alike m) (hd : d.Holds Node.Recordable)
    (given : happening.Recordable who)
    (short : (d.step who happening).1.Holds Node.Short) (fine : ¬ d.Breaks happening) :
    (d.step who happening).1.Alike (m.step who happening).1 ∧
      (d.step who happening).1.Holds Node.Recordable ∧
      d.release? happening = m.release? happening := by
  cases alike with
  | @up r m stored =>
      cases happening with
      | restart now draw => exact ⟨.up stored, hd, rfl⟩
      | crash => exact ⟨.down stored, trivial, rfl⟩
      | call c =>
          cases hplan : r.plan c with
          | error overflow =>
              have hd := call_unplanned hplan
              have hm := call_unplanned ((r.plan_onMedium m c).trans hplan)
              rw [step_call_error hd, step_call_error hm]
              refine ⟨.down stored, trivial, ?_⟩
              simp only [release?, hd, hm]
          | ok p =>
              have hplan' : (r.onMedium m).plan c = .ok p := (r.plan_onMedium m c).trans hplan
              rw [step_planned hplan] at short ⊢
              rw [step_planned hplan']
              have hrecordable : (p.node r.node).Recordable :=
                r.plan_recordable hplan given hd (r.carryOut_record p ▸ short)
              have hkept := r.carryOut_recordable hrecordable
              rcases hcarried : r.carryOut p with ⟨r', failure | release⟩
              · obtain ⟨cause, rfl⟩ := Replica.carryOut_error hcarried
                exact absurd ⟨r, c, r', cause, rfl, rfl, hcarried ▸ call_planned hplan⟩ fine
              · obtain ⟨m', hcarried', hstored⟩ :=
                  Replica.carryOut_onMedium stored hcarried hrecordable.record
                rw [hcarried] at hkept
                rw [hcarried']
                refine ⟨.up hstored, hkept, ?_⟩
                simp only [release?, call_planned hplan, call_planned hplan', hcarried, hcarried']
  | @down disk m stored =>
      cases happening with
      | call c => exact ⟨.down stored, trivial, rfl⟩
      | crash => exact ⟨.down stored, trivial, rfl⟩
      | restart now draw =>
          rcases Replica.boot_onMedium stored given now draw with
            ⟨overflow, hd, hm⟩ | ⟨r, hd, hm, rfl, hrecordable⟩
          · simp only [Host.step, hd, hm]
            exact ⟨.down stored, trivial, rfl⟩
          · simp only [Host.step, hd, hm]
            exact ⟨.up stored, hrecordable, rfl⟩

/-- In a usable directory no operation fails, and it stays usable. -/
theorem Alike.step_usable (alike : d.Alike m) (hd : d.Holds Node.Recordable)
    (given : happening.Recordable who)
    (short : (d.step who happening).1.Holds Node.Short) (usable : d.medium.Usable k) :
    ¬ d.Breaks happening ∧ (d.step who happening).1.medium.Usable k := by
  cases alike with
  | @up r m stored =>
      cases happening with
      | restart now draw => exact ⟨fun ⟨_, _, _, _, _, h, _⟩ => (nomatch h), usable⟩
      | crash => exact ⟨fun ⟨_, _, _, _, _, h, _⟩ => (nomatch h), usable⟩
      | call c =>
          cases hplan : r.plan c with
          | error overflow =>
              have hcall := call_unplanned hplan
              refine ⟨fun ⟨r₁, c₁, r', cause, hup, hc, hfails⟩ => ?_, ?_⟩
              · obtain rfl := Host.up.inj hup
                obtain rfl := Happening.call.inj hc
                exact nomatch hcall.symm.trans hfails
              · rw [step_call_error hcall]
                exact usable
          | ok p =>
              rw [step_planned hplan] at short ⊢
              have hrecordable : (p.node r.node).Recordable :=
                r.plan_recordable hplan given hd (r.carryOut_record p ▸ short)
              obtain ⟨r', release, hcarried, husable⟩ :=
                Replica.carryOut_usable usable hrecordable.record
              have hcall := call_planned hplan
              rw [hcarried] at hcall ⊢
              refine ⟨fun ⟨r₁, c₁, r₂, cause, hup, hc, hfails⟩ => ?_, husable⟩
              obtain rfl := Host.up.inj hup
              obtain rfl := Happening.call.inj hc
              exact nomatch (Prod.mk.inj (Except.ok.inj (hcall.symm.trans hfails))).2
  | @down disk m stored =>
      refine ⟨fun ⟨_, _, _, _, h, _⟩ => (nomatch h), ?_⟩
      cases happening with
      | call c => exact usable
      | crash => exact usable
      | restart now draw =>
          rcases Replica.boot_onMedium stored given now draw with
            ⟨overflow, hd, _⟩ | ⟨r, hd, _, rfl, _⟩ <;> simp only [Host.step, hd] <;> exact usable

end Host

end Quorum
