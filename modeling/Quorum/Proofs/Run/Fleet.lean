import Quorum.Proofs.Run.Basic
import Quorum.Proofs.Run.Media

/-!
# Clusters over any media

The runs of a cluster whose nodes keep their records on media of one kind.
With storage in memory these are the runs of `World` (`World.fleet_step`). With
files they go the same way, since each node does (`Fleet.Mirrors.step`).
-/

namespace Quorum

/-- A cluster at one moment, with all messages that were ever sent. -/
structure Fleet (σ : Type) where
  host : NodeId → Host σ
  sent : List InFlight

def Roster.identity (M : Roster) (i : NodeId) : Identity := ⟨i, M.peers i, M.config i⟩

/-- What an action makes happen to a node, and to which. -/
def Roster.happening? (M : Roster) (sent : List InFlight) : Action → Option (NodeId × Happening)
  | .timer i timer now draw => some (i, .call (.event timer.event now draw))
  | .deliver position now draw =>
    (sent[position]?).map fun m =>
      (m.receiver, .call (.event (.message m.sender m.message) now draw))
  | .request i request now => some (i, .call (.request request now))
  | .report i => some (i, .call .report)
  | .crash i => some (i, .crash)
  | .restart i now draw => if i ∈ M.ids then some (i, .restart now draw) else none

namespace Fleet

variable {σ ε : Type} [Storage σ ε] {M : Roster} {F : Fleet σ} {action : Action} {i : NodeId}
  {happening : Happening}

/-- All nodes are down. -/
def start (medium : NodeId → σ) : Fleet σ := ⟨fun i => .down (medium i), []⟩

/-- Something happens to a node, and what it says then is sent. -/
def act (M : Roster) (F : Fleet σ) (i : NodeId) (happening : Happening) : Fleet σ :=
  ⟨Function.update F.host i ((F.host i).step (M.identity i) happening).1,
    F.sent ++ sends i ((F.host i).step (M.identity i) happening).2⟩

def step (M : Roster) (F : Fleet σ) (action : Action) : Fleet σ :=
  match M.happening? F.sent action with
  | none => F
  | some (i, happening) => F.act M i happening

/-- The cluster after a list of actions, from the beginning. -/
def after (M : Roster) (medium : NodeId → σ) (actions : List Action) : Fleet σ :=
  actions.foldl (step M) (start medium)

theorem after_take_succ {medium : NodeId → σ} {actions : List Action} {k : Nat}
    (h : actions[k]? = some action) :
    after M medium (actions.take (k + 1)) = (after M medium (actions.take k)).step M action := by
  rw [after, List.take_add_one, h, Option.toList_some, List.foldl_append]
  rfl

theorem act_of_step (h : (F.host i).step (M.identity i) happening = (F.host i, [])) :
    F.act M i happening = F := by
  rw [act, h, Function.update_eq_self, sends_nil, List.append_nil]

end Fleet

/-! ## Storage in memory -/

def Slot.host : Slot → Host MemoryStorage
  | .up replica => .up replica
  | .down storage => .down storage

namespace World

def fleet (w : World) : Fleet MemoryStorage := ⟨Slot.host ∘ w.slot, w.sent⟩

variable (M : Roster) (w : World) (i : NodeId)

theorem fleet_put (slot : Slot) :
    (w.put i slot).fleet = ⟨Function.update w.fleet.host i slot.host, w.sent⟩ := by
  rw [fleet, put, Function.comp_update]
  rfl

/-- A node that is up or down, seen as a host. -/
theorem fleet_host {slot : Slot} (h : w.slot i = slot) : w.fleet.host i = slot.host :=
  congrArg Slot.host h

theorem fleet_handle (event : Event) (now : Instant) (draw : Nat) :
    (w.handle i event now draw).fleet = w.fleet.act M i (.call (.event event now draw)) := by
  unfold handle
  cases hslot : w.slot i with
  | down storage =>
      refine (Fleet.act_of_step ?_).symm
      rw [w.fleet_host i hslot]
      rfl
  | up r =>
      rw [Fleet.act, w.fleet_host i hslot]
      simp only [Slot.host]
      cases hhandle : r.handle event now draw with
      | error overflow =>
          have hcall : r.call (.event event now draw) = .error overflow := by
            rw [Replica.call, hhandle]
            rfl
          rw [Host.step_call_error hcall, sends_nil, List.append_nil]
          exact w.fleet_put i _
      | ok outcome =>
          obtain ⟨r', impossible | commands⟩ := outcome
          · exact impossible.elim
          · have hcall : r.call (.event event now draw) = .ok (r', .ok (.commands commands)) := by
              rw [Replica.call, hhandle]
              rfl
            simp only [Host.step, hcall]
            exact congrArg (fun F : Fleet MemoryStorage =>
              (⟨F.host, w.sent ++ sends i commands⟩ : Fleet MemoryStorage)) (w.fleet_put i _)

/-- Something happens to a node about which it says nothing. -/
theorem fleet_act_silent {happening : Happening} {slot : Slot}
    (h : (w.fleet.host i).step (M.identity i) happening = (slot.host, [])) :
    (w.put i slot).fleet = w.fleet.act M i happening := by
  rw [Fleet.act, h, sends_nil, List.append_nil]
  exact w.fleet_put i slot

theorem fleet_step (action : Action) : (w.step M action).fleet = w.fleet.step M action := by
  have hidle : ∀ {i happening slot}, w.slot i = slot →
      Host.step (M.identity i) slot.host happening = (slot.host, []) →
      w.fleet = w.fleet.act M i happening := by
    intro i happening slot hslot hstep
    rw [← w.fleet_host i hslot] at hstep
    exact (Fleet.act_of_step hstep).symm
  cases action with
  | timer i timer now draw => exact w.fleet_handle M i timer.event now draw
  | deliver position now draw =>
      unfold World.step Fleet.step Roster.happening?
      cases hsent : w.sent[position]? with
      | none => simp only [fleet, hsent, Option.map_none]
      | some m =>
          have hhandle := w.fleet_handle M m.receiver (.message m.sender m.message) now draw
          simp only [fleet, hsent, Option.map_some] at hhandle ⊢
          exact hhandle
  | request i request now =>
      show _ = w.fleet.act M i (.call (.request request now))
      rw [World.step]
      cases hslot : w.slot i with
      | down storage => exact hidle hslot rfl
      | up r =>
          refine w.fleet_act_silent M i ?_
          rw [w.fleet_host i hslot]
          have hcall : r.call (.request request now) =
              .ok ((r.serve request now).1, (r.serve request now).2.map .admission) := rfl
          rcases hserve : r.serve request now with ⟨r', impossible | admission⟩
          · exact impossible.elim
          · rw [hserve] at hcall
            simp only [Slot.host, Host.step, hcall]
            rfl
  | report i =>
      show _ = w.fleet.act M i (.call .report)
      rw [World.step]
      cases hslot : w.slot i with
      | down storage => exact hidle hslot rfl
      | up r =>
          refine w.fleet_act_silent M i ?_
          rw [w.fleet_host i hslot]
          rfl
  | crash i =>
      show _ = w.fleet.act M i .crash
      rw [World.step]
      cases hslot : w.slot i with
      | down storage => exact hidle hslot rfl
      | up r =>
          refine w.fleet_act_silent M i ?_
          rw [w.fleet_host i hslot]
          rfl
  | restart i now draw =>
      rw [World.step, Fleet.step, Roster.happening?]
      by_cases hi : i ∈ M.ids
      · simp only [hi, if_true]
        cases hslot : w.slot i with
        | up r => exact hidle hslot rfl
        | down storage =>
            simp only []
            cases hboot : Replica.boot i (M.peers i) (M.config i) storage now draw with
            | error overflow =>
                refine hidle hslot ?_
                simp only [Slot.host, Host.step, Roster.identity, hboot]
            | ok result =>
                obtain impossible | r := result
                · exact impossible.elim
                · refine w.fleet_act_silent M i ?_
                  rw [w.fleet_host i hslot]
                  simp only [Slot.host, Host.step, Roster.identity, hboot]
                  rfl
      · simp only [hi, if_false]
        cases w.slot i <;> rfl

end World

/-! ## Storage in files -/

namespace Host

variable {σ ε : Type} [Storage σ ε] {who : Identity} {host : Host σ} {happening : Happening}
  {command : Command}

/-- Commands are given out in events only. -/
theorem exists_event_of_said (h : command ∈ (host.step who happening).2) :
    ∃ event now draw, happening = .call (.event event now draw) := by
  rw [step_commands] at h
  cases host with
  | down medium => exact absurd h List.not_mem_nil
  | up r =>
      cases happening with
      | crash => exact absurd h List.not_mem_nil
      | restart now draw => exact absurd h List.not_mem_nil
      | call c =>
          cases c with
          | event event now draw => exact ⟨event, now, draw, rfl⟩
          | report => exact absurd h List.not_mem_nil
          | request request now =>
              have hcall : r.call (.request request now) =
                  .ok ((r.serve request now).1, (r.serve request now).2.map .admission) := rfl
              rcases hserve : r.serve request now with ⟨r', failure | admission⟩ <;>
                rw [hserve] at hcall <;> simp only [release?, hcall] at h <;>
                exact absurd h List.not_mem_nil

/-- What a host says is of the kind that it can hear. -/
theorem step_said_recordable {receiver : NodeId} {message : Message}
    (hn : host.Holds Node.Recordable) (given : happening.Recordable who)
    (hnext : (host.step who happening).1.Holds Node.Recordable)
    (said : .send receiver message ∈ (host.step who happening).2) : message.Recordable := by
  obtain ⟨event, now, draw, rfl⟩ := exists_event_of_said said
  obtain ⟨r, n', commands, r', rfl, hnode, hm, hup, _, hrecord⟩ := step_said said
  rw [hup] at hnext
  have hcommit : Word.fits r'.node.record.commitLength = true := hnext.record.commitLength
  refine Node.handle_said_recordable hnode hn (hrecord ▸ hcommit) (fun sender heard heq => ?_) hm
  rw [heq] at given
  exact given

end Host

/-- A client's request is one that was read from text. -/
def Action.FromText : Action → Prop
  | .request _ asked _ => ∃ text, Request.ofText text = .ok asked
  | _ => True

/-- Files can hold the lengths of all logs. -/
def Fleet.Short {σ : Type} (F : Fleet σ) : Prop := ∀ i, (F.host i).Holds Node.Short

namespace Fleet

/-- A cluster over files and one over memory that are in the same state, and what
is needed for them to stay so. -/
structure Mirrors (F : Fleet DiskStorage) (G : Fleet MemoryStorage) : Prop where
  alike : ∀ i, (F.host i).Alike (G.host i)
  sent : G.sent = F.sent
  recordable : ∀ i, (F.host i).Holds Node.Recordable
  usable : ∀ i, ∃ k, (F.host i).medium.Usable k
  carried : ∀ m ∈ F.sent, m.message.Recordable

variable {M : Roster} {F : Fleet DiskStorage} {G : Fleet MemoryStorage} {i : NodeId}
  {happening : Happening} {action : Action}

theorem Mirrors.start {disk : NodeId → DiskStorage} (fresh : ∀ i, (disk i).Fresh) :
    Mirrors (start disk) (World.start.fleet) where
  alike i := .down (fresh i).empty
  sent := rfl
  recordable _ := trivial
  usable i := (fresh i).usable
  carried _ h := nomatch h

theorem Mirrors.given (h : Mirrors F G) (words : ∀ i ∈ M.ids, Word.fits i = true)
    (text : action.FromText) (happens : M.happening? F.sent action = some (i, happening)) :
    happening.Recordable (M.identity i) := by
  cases action with
  | timer member timer now draw =>
      obtain ⟨rfl, rfl⟩ := Prod.mk.inj (Option.some.inj happens)
      cases timer <;> trivial
  | deliver position now draw =>
      obtain ⟨m, hm, heq⟩ := Option.map_eq_some_iff.mp happens
      obtain ⟨rfl, rfl⟩ := Prod.mk.inj heq
      exact h.carried m (List.mem_of_getElem? hm)
  | request member asked now =>
      obtain ⟨rfl, rfl⟩ := Prod.mk.inj (Option.some.inj happens)
      cases asked with
      | get key => trivial
      | set key value =>
          obtain ⟨written, hwritten⟩ := text
          exact Request.recordable_of_ofText hwritten
  | report member =>
      obtain ⟨rfl, rfl⟩ := Prod.mk.inj (Option.some.inj happens)
      trivial
  | crash member =>
      obtain ⟨rfl, rfl⟩ := Prod.mk.inj (Option.some.inj happens)
      trivial
  | restart member now draw =>
      by_cases hmember : member ∈ M.ids
      · rw [Roster.happening?, if_pos hmember] at happens
        obtain ⟨rfl, rfl⟩ := Prod.mk.inj (Option.some.inj happens)
        exact words member hmember
      · rw [Roster.happening?, if_neg hmember] at happens
        exact nomatch happens

theorem Mirrors.act (h : Mirrors F G) (given : happening.Recordable (M.identity i))
    (short : ((F.host i).step (M.identity i) happening).1.Holds Node.Short) :
    Mirrors (F.act M i happening) (G.act M i happening) := by
  obtain ⟨k, husable⟩ := h.usable i
  obtain ⟨hfine, husable'⟩ :=
    (h.alike i).step_usable (h.recordable i) given short husable
  obtain ⟨halike, hrecordable, hrelease⟩ := (h.alike i).step (h.recordable i) given short hfine
  have hsaid : ((G.host i).step (M.identity i) happening).2 =
      ((F.host i).step (M.identity i) happening).2 := by
    rw [Host.step_commands, Host.step_commands, hrelease]
  constructor
  case alike =>
    intro j
    by_cases hj : j = i
    · subst hj
      simpa only [Fleet.act, Function.update_self] using halike
    · simpa only [Fleet.act, Function.update_of_ne hj] using h.alike j
  case sent => rw [Fleet.act, Fleet.act, hsaid, h.sent]
  case recordable =>
    exact (Function.forall_update_iff F.host fun _ host => host.Holds Node.Recordable).mpr
      ⟨hrecordable, fun j _ => h.recordable j⟩
  case usable =>
    exact (Function.forall_update_iff F.host fun _ host => ∃ k, host.medium.Usable k).mpr
      ⟨⟨k, husable'⟩, fun j _ => h.usable j⟩
  case carried =>
    intro m hm
    rcases List.mem_append.mp hm with hm | hm
    · exact h.carried m hm
    · exact Host.step_said_recordable (h.recordable i) given hrecordable (mem_sends hm).2

theorem short_act_iff {σ ε : Type} [Storage σ ε] {F : Fleet σ} :
    (F.act M i happening).Short ↔
      ((F.host i).step (M.identity i) happening).1.Holds Node.Short ∧
        ∀ j, j ≠ i → (F.host j).Holds Node.Short :=
  Function.forall_update_iff F.host fun _ host => host.Holds Node.Short

theorem Mirrors.short_iff (h : Mirrors F G) : F.Short ↔ G.Short := by
  refine forall_congr' fun i => ?_
  have halike := h.alike i
  cases hd : F.host i <;> cases hm : G.host i <;> rw [hd, hm] at halike <;> cases halike <;>
    exact .rfl

/-- An action does the same to both, or it does nothing. -/
theorem Mirrors.step_cases (h : Mirrors F G) (words : ∀ i ∈ M.ids, Word.fits i = true)
    (text : action.FromText) :
    (F.step M action = F ∧ G.step M action = G) ∨
      ∃ i happening, happening.Recordable (M.identity i) ∧
        F.step M action = F.act M i happening ∧ G.step M action = G.act M i happening := by
  unfold step
  rw [h.sent]
  cases happens : M.happening? F.sent action with
  | none => exact .inl ⟨rfl, rfl⟩
  | some found => exact .inr ⟨found.1, found.2, h.given words text happens, rfl, rfl⟩

theorem Mirrors.step_short (h : Mirrors F G) (words : ∀ i ∈ M.ids, Word.fits i = true)
    (text : action.FromText) (hF : F.Short) :
    (F.step M action).Short ↔ (G.step M action).Short := by
  rcases h.step_cases words text with ⟨hd, hm⟩ | ⟨i, happening, hgiven, hd, hm⟩
  · rw [hd, hm]
    exact h.short_iff
  · rw [hd, hm, short_act_iff, short_act_iff]
    have hall := h.short_iff.mp hF
    refine and_congr ((h.alike i).step_short hgiven) ?_
    exact iff_of_true (fun j _ => hF j) fun j _ => hall j

/-- A cluster over files goes the way of one over memory. -/
theorem Mirrors.step (h : Mirrors F G) (words : ∀ i ∈ M.ids, Word.fits i = true)
    (text : action.FromText) (short : (F.step M action).Short) :
    Mirrors (F.step M action) (G.step M action) := by
  rcases h.step_cases words text with ⟨hd, hm⟩ | ⟨i, happening, hgiven, hd, hm⟩
  · rw [hd, hm]
    exact h
  · rw [hd] at short ⊢
    rw [hm]
    exact h.act hgiven (short_act_iff.mp short).1

/-- All along a run the cluster over files is in the state of the one over
memory, if no log outgrows its word in one of them. -/
theorem mirrors_after {disk : NodeId → DiskStorage} {actions : List Action}
    (fresh : ∀ i, (disk i).Fresh) (words : ∀ i ∈ M.ids, Word.fits i = true)
    (texts : ∀ action ∈ actions, action.FromText)
    (short : ∀ k, (after M disk (actions.take k)).Short ∨
      (World.after M (actions.take k)).fleet.Short) (k : Nat) :
    (after M disk (actions.take k)).Mirrors (World.after M (actions.take k)).fleet ∧
      (after M disk (actions.take k)).Short := by
  induction k with
  | zero => exact ⟨.start fresh, fun _ => trivial⟩
  | succ k ih =>
      obtain ⟨hmirrors, hshort⟩ := ih
      cases hk : actions[k]? with
      | none =>
          have hlength := List.getElem?_eq_none_iff.mp hk
          rw [List.take_of_length_le (Nat.le_succ_of_le hlength)]
          rw [List.take_of_length_le hlength] at hmirrors hshort
          exact ⟨hmirrors, hshort⟩
      | some action =>
          have htext := texts action (List.mem_of_getElem? hk)
          have hnext := short (k + 1)
          rw [after_take_succ hk, World.after_take_succ hk, World.fleet_step] at hnext ⊢
          have hshort' : ((after M disk (actions.take k)).step M action).Short :=
            hnext.elim id (hmirrors.step_short words htext hshort).mpr
          exact ⟨hmirrors.step words htext hshort', hshort'⟩

/-- No node is in the last term that a word can hold, or finds it on its medium. -/
def InRange {σ ε : Type} [Storage σ ε] (M : Roster) (F : Fleet σ) : Prop :=
  ∀ i ∈ M.ids, ∀ record, (F.host i).record? = some record → record.currentTerm < Word.max

theorem Mirrors.record? {w : World} (h : Mirrors F w.fleet) (i : NodeId) :
    (F.host i).record? = some (w.record i) := by
  rw [(h.alike i).record?_eq]
  show (w.slot i).host.record? = _
  rw [World.record]
  cases w.slot i <;> rfl

theorem Mirrors.exists_up {w : World} (h : Mirrors F w.fleet) (up : (w.node? i).isSome = true) :
    ∃ r, F.host i = .up r := by
  obtain ⟨n, hn⟩ := Option.isSome_iff_exists.mp up
  obtain ⟨replica, hslot, _⟩ := World.exists_up_of_node? hn
  have halike : (F.host i).Alike (w.slot i).host := h.alike i
  rw [hslot] at halike
  exact halike.exists_up

theorem Mirrors.inRange_iff {w : World} (h : Mirrors F w.fleet) : F.InRange M ↔ w.InRange M := by
  refine forall₂_congr fun i _ => ?_
  rw [h.record? i]
  simp only [Option.some.injEq, forall_eq']

end Fleet

/-! ## Runs -/

/-- A run of a cluster whose nodes save in files, each in a directory of its
own, and whose clients ask in text. Identifiers and lengths of logs are words,
and no term reaches the largest word. -/
structure FileRun (M : Roster) where
  disk : NodeId → DiskStorage
  actions : List Action
  fresh : ∀ i, (disk i).Fresh
  words : ∀ i ∈ M.ids, Word.fits i = true
  texts : ∀ action ∈ actions, action.FromText
  short : ∀ k, (Fleet.after M disk (actions.take k)).Short
  inRange : (Fleet.after M disk actions).InRange M

namespace FileRun

variable {M : Roster}

/-- The state of a run after its first `k` actions. -/
def state (R : FileRun M) (k : Nat) : Fleet DiskStorage :=
  Fleet.after M R.disk (R.actions.take k)

theorem mirrors_world (R : FileRun M) (k : Nat) :
    (R.state k).Mirrors (World.after M (R.actions.take k)).fleet :=
  (Fleet.mirrors_after R.fresh R.words R.texts (fun k => .inl (R.short k)) k).1

/-- The same run with storage in memory. -/
def inMemory (R : FileRun M) : Run M where
  actions := R.actions
  inRange := by
    have hmirrors := R.mirrors_world R.actions.length
    rw [state, List.take_length] at hmirrors
    exact hmirrors.inRange_iff.mp R.inRange

theorem mirrors (R : FileRun M) (k : Nat) : (R.state k).Mirrors (R.inMemory.state k).fleet :=
  R.mirrors_world k

end FileRun

/-- A run with storage in memory whose clients ask in text can be had with
storage in files. -/
def Run.onFiles {M : Roster} (run : Run M) (disk : NodeId → DiskStorage)
    (fresh : ∀ i, (disk i).Fresh) (words : ∀ i ∈ M.ids, Word.fits i = true)
    (texts : ∀ action ∈ run.actions, action.FromText)
    (short : ∀ k, (run.state k).fleet.Short) : FileRun M where
  disk := disk
  actions := run.actions
  fresh := fresh
  words := words
  texts := texts
  short k := (Fleet.mirrors_after fresh words texts (fun k => .inr (short k)) k).2
  inRange := by
    have hmirrors :=
      (Fleet.mirrors_after fresh words texts (fun k => .inr (short k)) run.actions.length).1
    rw [List.take_length] at hmirrors
    exact hmirrors.inRange_iff.mpr run.inRange

end Quorum
