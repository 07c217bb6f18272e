import Quorum.Proofs.Cluster.Bookkeeping
import Quorum.Proofs.Cluster.Enactment

/-!
# What members do for their clients in passing

Whenever something happens to a member, it deals with the requests that it has
deferred. A leader may then append writes to its log, but only once at one
instant: those that it may accept are accepted, and what is left waits for a
lease (`Cluster.Drained`). So an event at a member leaves its node as the event
makes it, apart from writes that had been waiting (`Cluster.handle_handled`).
-/

namespace Quorum

/-! ## One request -/

namespace Node

variable {n n' : Node} {now : Instant} {waiting more : List (RequestId × Request)}

theorem Tended.canAcceptWrites (h : n.Tended n') (now : Instant) :
    n'.canAcceptWrites now = n.canAcceptWrites now := by
  unfold Node.canAcceptWrites
  rw [h.role]

theorem canAcceptWrites_of_not_leader (h : n.isLeader = false) (now : Instant) :
    n.canAcceptWrites now = false := by
  unfold canAcceptWrites
  split
  · next l role =>
      rw [isLeader_iff.mpr ⟨l, role⟩] at h
      exact absurd h.symm Bool.false_ne_true
  · rfl

/-- Whether a leader accepts writes depends on the barrier of its lease alone. -/
theorem canAcceptWrites_of_barrier {l l' : Leader} (role : n.role = .leader l)
    (role' : n'.role = .leader l') (same : l'.lease.barrier = l.lease.barrier) :
    n'.canAcceptWrites now = n.canAcceptWrites now := by
  unfold canAcceptWrites
  rw [role, role']
  show l'.lease.isPastBarrier now = l.lease.isPastBarrier now
  unfold LeaderLease.isPastBarrier
  rw [same]

/-- None of the requests is a write that the node would accept now. -/
def Defers (n : Node) (now : Instant) (waiting : List (RequestId × Request)) : Prop :=
  n.canAcceptWrites now = true → ∀ w ∈ waiting, ∃ key, w.2 = .get key

theorem Defers.mono (h : n.Defers now waiting) (sub : more ⊆ waiting) : n.Defers now more :=
  fun accepts w hw => h accepts w (sub hw)

theorem Defers.of_refused (h : n.canAcceptWrites now = false)
    (waiting : List (RequestId × Request)) : n.Defers now waiting := by
  intro accepts
  rw [h] at accepts
  exact absurd accepts Bool.false_ne_true

theorem Defers.of_accepts (h : n.Defers now waiting)
    (accepts : n'.canAcceptWrites now = true → n.canAcceptWrites now = true) :
    n'.Defers now waiting :=
  fun haccepts => h (accepts haccepts)

theorem Tended.defers (h : n.Tended n') (hdefers : n.Defers now waiting) :
    n'.Defers now waiting :=
  hdefers.of_accepts fun haccepts => (h.canAcceptWrites now).symm.trans haccepts

theorem commit_le_submit (n : Node) (operation : Operation) :
    n.record.commitLength ≤ (n.submit operation).1.record.commitLength := by
  unfold submit
  split
  · next l role =>
      have hcommit := congrArg (·.record.commitLength)
        (commitTo_core (n := n.append ⟨n.record.currentTerm, operation⟩)
          ((n.append ⟨n.record.currentTerm, operation⟩).record.log.commitPoint
            n.record.currentTerm n.record.commitLength
            (l.replicatedOn (n.append ⟨n.record.currentTerm, operation⟩).lastIndex n.quorum)))
      exact Nat.le_trans (Nat.le_max_left _ _) (Nat.le_of_eq hcommit.symm)
  · exact Nat.le_refl _

end Node

namespace Replica

variable {r : Replica MemoryStorage} {now : Instant} {request command : Request} {id : RequestId}

theorem record_settle (r : Replica MemoryStorage) (n : Node) :
    (r.settle n).node.record = n.record :=
  congrArg Core.record (r.settle_core n)

theorem commit_le_serve (r : Replica MemoryStorage) (request : Request) (now : Instant) :
    r.node.record.commitLength ≤ (r.serve request now).1.node.record.commitLength := by
  rcases r.serve_cases request now with heq | ⟨operation, heq⟩
  · rw [heq]
  · rw [heq, record_settle]
    exact r.node.commit_le_submit operation

/-- Only a write that is accepted changes anything. -/
theorem serve_still (h : r.node.Defers now [(id, request)]) : (r.serve request now).1 = r := by
  unfold serve
  split
  · rfl
  · split
    · rfl
    · next ready =>
        cases request with
        | get key => rfl
        | set key value =>
            have haccepts : r.node.canAcceptWrites now = true := by simpa [isReady] using ready
            obtain ⟨_, hget⟩ := h haccepts _ List.mem_cons_self
            cases hget

/-- What is deferred is the request itself, which cannot be served yet. -/
theorem serve_deferred (h : always (r.serve request now).2 = .deferred command) :
    command = request ∧ r.isReady request now = false := by
  unfold serve at h
  split at h
  · cases h
  · split at h
    · next hwait =>
        obtain rfl := Admission.deferred.inj h
        exact ⟨rfl, by simpa using hwait⟩
    · split at h
      · cases h
      · split at h
        · cases h
        · split at h
          · next e _ => exact e.elim
          · cases h

theorem defers_of_deferred (h : always (r.serve request now).2 = .deferred command) :
    r.node.Defers now [(id, command)] := by
  obtain ⟨rfl, hwait⟩ := serve_deferred h
  intro accepts w hw
  obtain rfl := List.mem_singleton.mp hw
  cases command with
  | get key => exact ⟨key, rfl⟩
  | set key value => exact absurd (hwait.symm.trans accepts) Bool.false_ne_true

end Replica

/-! ## One member -/

namespace Cluster

variable {idle idle' : Prop} {c c' c₁ c₂ c₃ : Cluster} {i : Nat} {n n' : Node}
  {r r' : Replica MemoryStorage}

/-- The requests that a member has deferred. -/
def deferredAt (c : Cluster) (i : Nat) : List (RequestId × Request) := (c.takeDeferred i).1

/-- No write waits at the member that it would accept now. -/
def Drained (c : Cluster) (i : Nat) : Prop :=
  ∀ n, c.node? i = some n → n.Defers c.now (c.deferredAt i)

/-- The cluster after one member has served clients. When the member is `idle`,
that changes no record. -/
structure Served (idle : Prop) (i : Nat) (c c' : Cluster) : Prop where
  now : c'.now = c.now
  others : ∀ j, j ≠ i → c'.members[j]? = c.members[j]?
  own : ∀ n, c.node? i = some n → ∃ n', c'.node? i = some n' ∧ n.Tended n' ∧
    n.record.commitLength ≤ n'.record.commitLength ∧ (idle → n'.record = n.record)

theorem Served.refl (idle : Prop) (i : Nat) (c : Cluster) : Served idle i c c :=
  ⟨rfl, fun _ _ => rfl, fun n hn => ⟨n, hn, .refl n, Nat.le_refl _, fun _ => rfl⟩⟩

theorem Served.trans (h₁ : Served idle i c₁ c₂) (h₂ : Served idle i c₂ c₃) :
    Served idle i c₁ c₃ where
  now := h₂.now.trans h₁.now
  others j hj := (h₂.others j hj).trans (h₁.others j hj)
  own n hn := by
    obtain ⟨n₂, hn₂, ht₂, hle₂, hsame₂⟩ := h₁.own n hn
    obtain ⟨n₃, hn₃, ht₃, hle₃, hsame₃⟩ := h₂.own n₂ hn₂
    exact ⟨n₃, hn₃, ht₂.trans ht₃, Nat.le_trans hle₂ hle₃,
      fun h => (hsame₃ h).trans (hsame₂ h)⟩

theorem Served.weaken (h : Served idle i c c') (hidle : idle' → idle) : Served idle' i c c' where
  now := h.now
  others := h.others
  own n hn := by
    obtain ⟨n', hn', ht, hle, hsame⟩ := h.own n hn
    exact ⟨n', hn', ht, hle, fun h => hsame (hidle h)⟩

theorem Served.of_members (members : c'.members = c.members) (now : c'.now = c.now) :
    Served idle i c c' where
  now := now
  others j _ := by rw [members]
  own n hn := by
    refine ⟨n, ?_, .refl n, Nat.le_refl _, fun _ => rfl⟩
    rw [node?_eq, members, ← node?_eq]
    exact hn

theorem node?_modify (c : Cluster) (i : Nat) (change : Member → Member)
    (same : ∀ m, (change m).slot = m.slot) (j : Nat) : (c.modify i change).node? j = c.node? j := by
  rw [node?_eq_slot?, (modify_alike c i same).slots j, ← node?_eq_slot?]

theorem members_modify_of_ne (c : Cluster) (change : Member → Member) {j : Nat} (hj : j ≠ i) :
    (c.modify i change).members[j]? = c.members[j]? := by
  rw [modify, List.getElem?_modify]
  cases c.members[j]? with
  | none => rfl
  | some m => simp [Ne.symm hj]

/-- A change of a member that leaves its replica as it is. -/
theorem Served.modify (c : Cluster) {change : Member → Member}
    (same : ∀ m, (change m).slot = m.slot) : Served idle i c (c.modify i change) where
  now := rfl
  others _ hj := c.members_modify_of_ne change hj
  own n hn := by
    exact ⟨n, (c.node?_modify i change same i).trans hn, .refl n, Nat.le_refl _, fun _ => rfl⟩

theorem Served.foldl {α : Type} {f : Cluster → α → Cluster}
    (step : ∀ c a, Served idle i c (f c a)) (l : List α) (c : Cluster) :
    Served idle i c (l.foldl f c) := by
  induction l generalizing c with
  | nil => exact .refl idle i c
  | cons a rest ih => exact (step c a).trans (ih (f c a))

theorem Served.answers {α : Type} {f : Cluster → α → Cluster}
    (step : ∀ c a, ∃ request reply, f c a = c.answer request reply) (l : List α) (c : Cluster) :
    Served idle i c (l.foldl f c) := by
  refine .foldl (fun c a => ?_) l c
  obtain ⟨request, reply, heq⟩ := step c a
  rw [heq]
  exact .of_members rfl rfl

theorem Served.setReplica (hr : c.replica? i = some r) (tended : r.node.Tended r'.node)
    (commit : r.node.record.commitLength ≤ r'.node.record.commitLength)
    (still : idle → r'.node.record = r.node.record) : Served idle i c (c.setReplica i r') where
  now := rfl
  others _ hj := c.members_modify_of_ne _ hj
  own n hn := by
    obtain rfl := Option.some.inj ((node?_of_replica? hr).symm.trans hn)
    exact ⟨r'.node, node?_setReplica_self (lt_size_of_node? hn), tended, commit, still⟩

theorem Served.carryOut (c : Cluster) (request : RequestId) (admission : Admission) :
    Served idle i c (c.carryOut i request admission) := by
  cases admission with
  | reply reply => exact .of_members rfl rfl
  | deferred command => exact .modify c fun _ => rfl
  | write place entry =>
      unfold Cluster.carryOut
      simp only []
      split
      · exact .refl idle i c
      · next m _ =>
          have hinserted : Served idle i c
              (c.modify i ({ · with pending := (m.pending.insert place entry request).1 })) :=
            .modify c fun _ => rfl
          split
          · exact hinserted
          · exact hinserted.trans (.of_members rfl rfl)

theorem Served.offer (c : Cluster) (i : Nat) (request : RequestId) (command : Request) :
    Served (∀ n, c.node? i = some n → n.Defers c.now [(request, command)]) i c
      (c.offer i request command) := by
  unfold Cluster.offer
  split
  · exact .refl _ i c
  · next r hr =>
      have hserved : Served (∀ n, c.node? i = some n → n.Defers c.now [(request, command)]) i c
          (c.setReplica i (r.serve command c.now).1) := by
        refine .setReplica hr (r.serve_tended command c.now) (r.commit_le_serve command c.now)
          fun hidle => ?_
        have hstill := Replica.serve_still (hidle r.node (node?_of_replica? hr))
        exact congrArg (·.node.record) hstill
      exact hserved.trans (.carryOut _ request _)

/-- All requests in hand are handed to the member. -/
theorem Served.offers (i : Nat) : ∀ (waiting : List (RequestId × Request)) (c : Cluster),
    Served (∀ n, c.node? i = some n → n.Defers c.now waiting) i c
      (waiting.foldl (fun c w => c.offer i w.1 w.2) c) := by
  intro waiting
  induction waiting with
  | nil => exact fun c => .refl _ i c
  | cons w rest ih =>
      intro c
      have hfirst := Served.offer c i w.1 w.2
      rw [List.foldl_cons]
      refine (hfirst.weaken fun hidle n hn => ?_).trans ((ih (c.offer i w.1 w.2)).weaken
        fun hidle n' hn' => ?_)
      · exact (hidle n hn).mono (by simp)
      · -- the node is still the one that defers them all
        obtain ⟨n, hn, htended⟩ := exists_of_tended (offer_tended c i w.1 w.2) hn'
        rw [hfirst.now]
        exact htended.defers ((hidle n hn).mono (List.subset_cons_self w rest))

theorem Served.answerApplied (c : Cluster) (i : Nat) : Served idle i c (c.answerApplied i) := by
  unfold Cluster.answerApplied
  split
  · next r pending deferred hm =>
      refine Served.trans ?_ (.answers (fun c a => ⟨_, _, rfl⟩) _ _)
      refine ⟨rfl, fun j hj => c.members_modify_of_ne _ hj, fun n hn => ?_⟩
      rw [node?_eq, hm] at hn
      obtain rfl := Option.some.inj hn
      refine ⟨r.node, ?_, .refl r.node, Nat.le_refl _, fun _ => rfl⟩
      rw [node?_eq, Cluster.modify, List.getElem?_modify_eq, hm]
      rfl
  · exact .refl idle i c

/-- A member deals with all its clients. -/
theorem Served.settle (c : Cluster) (i : Nat) : Served (c.Drained i) i c (c.settle i) := by
  have htaken : Served (c.Drained i) i c (c.takeDeferred i).2 := .modify c fun _ => rfl
  have hoffers := Served.offers i (c.deferredAt i) (c.takeDeferred i).2
  refine (htaken.trans (hoffers.weaken fun hdrained n hn => ?_)).trans (.answerApplied _ i)
  have hsame := c.node?_modify i ({ · with deferred := [] }) (fun _ => rfl) i
  exact hdrained n (hsame.symm.trans hn)

/-! ## Nothing is left that could be served -/

theorem deferredAt_eq (c : Cluster) (i : Nat) :
    c.deferredAt i = ((c.members[i]?).map (·.deferred)).getD [] := rfl

theorem deferredAt_modify (c : Cluster) (i : Nat) {change : Member → Member}
    (same : ∀ m, (change m).deferred = m.deferred) :
    (c.modify i change).deferredAt i = c.deferredAt i := by
  rw [deferredAt_eq, deferredAt_eq, modify, List.getElem?_modify_eq]
  cases c.members[i]? with
  | none => rfl
  | some m => exact same m

theorem Drained.of_deferredAt (h : c.Drained i) (now : c'.now = c.now)
    (tended : ∀ n', c'.node? i = some n' → ∃ n, c.node? i = some n ∧ n.Tended n')
    (deferred : c'.deferredAt i = c.deferredAt i) : c'.Drained i := by
  intro n' hn'
  obtain ⟨n, hn, htended⟩ := tended n' hn'
  rw [now, deferred]
  exact htended.defers (h n hn)

theorem Drained.of_members (h : c.Drained i) (members : c'.members[i]? = c.members[i]?)
    (now : c'.now = c.now) : c'.Drained i := by
  refine h.of_deferredAt now (fun n' hn' => ⟨n', ?_, .refl n'⟩) ?_
  · rw [node?_eq, ← members, ← node?_eq]
    exact hn'
  · rw [deferredAt_eq, deferredAt_eq, members]

theorem Drained.answers {α : Type} {f : Cluster → α → Cluster}
    (step : ∀ c a, ∃ request reply, f c a = c.answer request reply) (l : List α) {c : Cluster}
    (h : c.Drained i) : (l.foldl f c).Drained i := by
  induction l generalizing c with
  | nil => exact h
  | cons a rest ih =>
      obtain ⟨request, reply, heq⟩ := step c a
      rw [List.foldl_cons, heq]
      exact ih (h.of_members rfl rfl)

theorem drained_takeDeferred (c : Cluster) (i : Nat) : (c.takeDeferred i).2.Drained i := by
  intro n hn accepts w hw
  have hnone : (c.takeDeferred i).2.deferredAt i = [] := by
    show (((c.modify i _).members[i]?).map (·.deferred)).getD [] = []
    rw [modify, List.getElem?_modify_eq]
    cases c.members[i]? <;> rfl
  rw [hnone] at hw
  exact absurd hw List.not_mem_nil

/-- A change of a member that leaves its replica and what it has deferred as they
are. -/
theorem Drained.modify (h : c.Drained i) {change : Member → Member}
    (slot : ∀ m, (change m).slot = m.slot) (deferred : ∀ m, (change m).deferred = m.deferred) :
    (c.modify i change).Drained i := by
  refine h.of_deferredAt rfl (fun n hn => ⟨n, ?_, .refl n⟩) (c.deferredAt_modify i deferred)
  exact (c.node?_modify i change slot i).symm.trans hn

/-- A request that cannot be served yet joins those that wait. -/
theorem Drained.defer {request : RequestId} {command : Request} (h : c.Drained i)
    (waits : ∀ n, c.node? i = some n → n.Defers c.now [(request, command)]) :
    (c.modify i fun m => { m with deferred := m.deferred ++ [(request, command)] }).Drained i := by
  intro n hn accepts w hw
  have hsame := c.node?_modify i
    (fun m => { m with deferred := m.deferred ++ [(request, command)] }) (fun _ => rfl) i
  replace hn : c.node? i = some n := hsame.symm.trans hn
  have hjoined : w ∈ c.deferredAt i ∨ w ∈ [(request, command)] := by
    rw [deferredAt_eq, Cluster.modify, List.getElem?_modify_eq] at hw
    rw [deferredAt_eq]
    cases hm : c.members[i]? with
    | none =>
        rw [hm] at hw
        exact absurd hw List.not_mem_nil
    | some m =>
        rw [hm] at hw
        exact List.mem_append.mp hw
  rcases hjoined with hold | hnew
  · exact h n hn accepts w hold
  · exact waits n hn accepts w hnew

theorem Drained.carryOut {request : RequestId} {admission : Admission} (h : c.Drained i)
    (waits : ∀ command, admission = .deferred command →
      ∀ n, c.node? i = some n → n.Defers c.now [(request, command)]) :
    (c.carryOut i request admission).Drained i := by
  cases admission with
  | reply reply => exact h.of_members rfl rfl
  | deferred command => exact h.defer (waits command rfl)
  | write place entry =>
      unfold Cluster.carryOut
      simp only []
      split
      · exact h
      · next m _ =>
          have hinserted :
              (c.modify i ({ · with pending := (m.pending.insert place entry request).1 })).Drained
                i := h.modify (fun _ => rfl) fun _ => rfl
          split
          · exact hinserted
          · exact hinserted.of_members rfl rfl

theorem Drained.offer (h : c.Drained i) (request : RequestId) (command : Request) :
    (c.offer i request command).Drained i := by
  unfold Cluster.offer
  split
  · exact h
  · next r hr =>
      have hn := node?_of_replica? hr
      have htended := r.serve_tended command c.now
      have hself : (c.setReplica i (r.serve command c.now).1).node? i =
          some (r.serve command c.now).1.node := node?_setReplica_self (lt_size_of_node? hn)
      have hserved : (c.setReplica i (r.serve command c.now).1).Drained i := by
        refine h.of_deferredAt rfl (fun n' hn' => ⟨r.node, hn, ?_⟩)
          (c.deferredAt_modify i fun _ => rfl)
        obtain rfl := Option.some.inj (hself.symm.trans hn')
        exact htended
      refine Drained.carryOut (c := c.setReplica i (r.serve command c.now).1) hserved
        fun command' hdeferred n' hn' => ?_
      obtain rfl := Option.some.inj (hself.symm.trans hn')
      exact htended.defers (Replica.defers_of_deferred hdeferred)

theorem Drained.offers : ∀ (waiting : List (RequestId × Request)) {c : Cluster}, c.Drained i →
    (waiting.foldl (fun c w => c.offer i w.1 w.2) c).Drained i := by
  intro waiting
  induction waiting with
  | nil => exact fun h => h
  | cons w rest ih => exact fun h => ih (h.offer w.1 w.2)

theorem Drained.answerApplied (h : c.Drained i) : (c.answerApplied i).Drained i := by
  unfold Cluster.answerApplied
  split
  · next r pending deferred hm =>
      refine Drained.answers (fun c a => ⟨_, _, rfl⟩) _ ?_
      refine h.of_deferredAt rfl (fun n' hn' => ⟨n', ?_, .refl n'⟩) ?_
      · rw [node?_eq, Cluster.modify, List.getElem?_modify_eq, hm] at hn'
        rw [node?_eq, hm]
        exact hn'
      · rw [deferredAt_eq, deferredAt_eq, Cluster.modify, List.getElem?_modify_eq, hm]
        rfl
  · exact h

/-- Whoever has just dealt with its clients has accepted what it may. -/
theorem drained_settle (c : Cluster) (i : Nat) : (c.settle i).Drained i :=
  .answerApplied (.offers (c.deferredAt i) (c.drained_takeDeferred i))

theorem Drained.execute (h : c.Drained i) (sender : NodeId) (command : Command) :
    (c.execute i sender command).Drained i := by
  cases command with
  | send receiver message => exact h.of_members rfl rfl
  | leadershipLost leader? =>
      exact .answers (fun c a => ⟨_, _, rfl⟩) _ (c.drained_takeDeferred i)

theorem Drained.executes (sender : NodeId) (commands : List Command) {c : Cluster}
    (h : c.Drained i) :
    (commands.foldl (fun c command => c.execute i sender command) c).Drained i := by
  induction commands generalizing c with
  | nil => exact h
  | cons command rest ih => exact ih (h.execute sender command)

theorem Served.execute (c : Cluster) (i : Nat) (sender : NodeId) (command : Command) :
    Served idle i c (c.execute i sender command) := by
  cases command with
  | send receiver message => exact .of_members rfl rfl
  | leadershipLost leader? =>
      have htaken : Served idle i c (c.takeDeferred i).2 := .modify c fun _ => rfl
      exact htaken.trans (.answers (fun c a => ⟨_, _, rfl⟩) _ _)

/-! ## Events -/

/-- An event has made the node of a member another one, the member has sent
something and dealt with its clients. That leaves the record as the event has
made it, unless the member is a leader that may accept what it could not accept
before. -/
structure Handled (c : Cluster) (i : Nat) (n n' : Node) (out : List InFlight) (c' : Cluster) :
    Prop where
  own : ∃ n₂, c'.node? i = some n₂ ∧ n'.Tended n₂ ∧
    n'.record.commitLength ≤ n₂.record.commitLength ∧
    (n'.Defers c.now (c.deferredAt i) → n₂.record = n'.record)
  others : ∀ j, j ≠ i → c'.members[j]? = c.members[j]?
  drained : c'.Drained i
  inFlight : c'.inFlight = c.inFlight ++ out
  now : c'.now = c.now
  isolated : c'.isolated = c.isolated
  config : c'.config = c.config
  size : c'.size = c.size

theorem handled_of_settle (hr : c.replica? i = some r) (frame : r.node.Frame n')
    (commands : List Command) :
    c.Handled i r.node n' (sends r.node.id commands)
      ((commands.foldl (fun (c : Cluster) command => c.execute i (r.settle n').node.id command)
        { c.setReplica i (r.settle n') with drawn := c.drawn + 1 }).settle i) := by
  have hn := node?_of_replica? hr
  let c₂ : Cluster := { c.setReplica i (r.settle n') with drawn := c.drawn + 1 }
  let c₃ : Cluster := commands.foldl (fun (c : Cluster) command =>
    c.execute i (r.settle n').node.id command) c₂
  have hkept : n'.Tended (r.settle n').node :=
    (Replica.persist_tended ({ r with node := n' } : Replica MemoryStorage)).trans
      (Replica.applyCommitted_tended _)
  have hself : c₂.node? i = some (r.settle n').node := node?_setReplica_self (lt_size_of_node? hn)
  have hserved : Served (c₃.Drained i) i c₂ (c₃.settle i) :=
    Served.trans (.foldl (fun c _ => .execute c i _ _) commands c₂) (.settle c₃ i)
  have hdrained : n'.Defers c.now (c.deferredAt i) → c₃.Drained i := by
    intro hdefers
    refine Drained.executes _ commands fun n hn => ?_
    obtain rfl := Option.some.inj (hself.symm.trans hn)
    have hsame : c₂.deferredAt i = c.deferredAt i := c.deferredAt_modify i fun _ => rfl
    rw [hsame]
    exact hkept.defers hdefers
  have htended := settle_tended c₃ i
  have halike := foldl_execute_alike i (r.settle n').node.id commands c₂
  have hid : (r.settle n').node.id = r.node.id := hkept.id.trans frame.id
  constructor
  case own =>
    obtain ⟨n₂, hn₂, hthen, hcommit, hsame⟩ := hserved.own _ hself
    rw [Replica.record_settle] at hcommit hsame
    exact ⟨n₂, hn₂, hkept.trans hthen, hcommit, fun hdefers => hsame (hdrained hdefers)⟩
  case others =>
    intro j hj
    exact (hserved.others j hj).trans (c.members_modify_of_ne _ hj)
  case drained => exact drained_settle c₃ i
  case inFlight => rw [← hid]; exact htended.inFlight.trans halike.inFlight
  case now => exact htended.now.trans halike.now
  case isolated => exact htended.isolated.trans halike.isolated
  case config => exact htended.config.trans halike.config
  case size => exact (htended.size.trans halike.size).trans (size_modify c i _)

/-- What an event at a member that is up ensures: what the event ensures for its
node, in every cluster that may come of it. -/
theorem handle_handled {safe : Prop} {event : Event} {P : Cluster → Prop}
    (down : c.node? i = none → P c)
    (up : ∀ n draw, c.node? i = some n → Ensures safe (n.handle event c.now draw) fun result =>
      ∀ c', c.Handled i n result.1 (sends n.id result.2) c' → P c') :
    Ensures safe (c.handle i event) P := by
  have hreturns : Ensures safe (c.handle i event) fun _ => True :=
    handle_ensures (fun _ => trivial) fun n draw hn =>
      (up n draw hn).mono fun _ _ _ _ _ _ => trivial
  refine ⟨fun c' call => ?_, hreturns.returns⟩
  unfold Cluster.handle at call
  cases hr : c.replica? i with
  | none =>
      rw [hr] at call
      obtain rfl := Except.ok.inj call
      exact down (by rw [node?, hr]; rfl)
  | some r =>
      rw [hr] at call
      have hn := node?_of_replica? hr
      obtain ⟨⟨r', result⟩, hhandle, call⟩ := exists_of_bind_ok call
      obtain rfl := Except.ok.inj call
      have hhandled : r.handle event c.now (c.draws c.drawn) = .ok (r', result) := by
        cases hresult : r.handle event c.now (c.draws c.drawn) with
        | error overflow =>
            rw [hresult] at hhandle
            cases hhandle
        | ok outcome =>
            rw [hresult] at hhandle
            exact congrArg _ (Except.ok.inj hhandle)
      obtain ⟨n', hnode, rfl⟩ := Replica.handle_ok hhandled
      refine (up r.node _ hn).holds (n', always result) hnode _ ?_
      exact handled_of_settle hr (Node.handle_deeds hnode).frame (always result)

theorem Handled.node?_of_ne {out : List InFlight} {j : Nat} (h : c.Handled i n n' out c')
    (hj : j ≠ i) : c'.node? j = c.node? j := by
  rw [node?_eq, node?_eq, h.others j hj]

/-- A leader whose lease keeps its barrier accepts nothing that had to wait
before. -/
theorem Handled.record_of_barrier {out : List InFlight} {l l' : Leader} {n₂ : Node}
    (h : c.Handled i n n' out c') (drained : c.Drained i) (hn : c.node? i = some n)
    (role : n.role = .leader l) (role' : n'.role = .leader l')
    (same : l'.lease.barrier = l.lease.barrier) (hn₂ : c'.node? i = some n₂) :
    n₂.record = n'.record := by
  obtain ⟨k, hk, _, _, hstill⟩ := h.own
  obtain rfl := Option.some.inj (hn₂.symm.trans hk)
  refine hstill ((drained n hn).of_accepts fun accepts => ?_)
  exact (Node.canAcceptWrites_of_barrier role role' same).symm.trans accepts

theorem Handled.drained_of_ne {out : List InFlight} {j : Nat} (h : c.Handled i n n' out c')
    (hj : j ≠ i) (drained : c.Drained j) : c'.Drained j :=
  drained.of_members (h.others j hj) h.now

/-- What the delivery of a message ensures in a cluster that loses none. -/
theorem deliver_handled {safe : Prop} {m : InFlight} {P : Cluster → Prop}
    (clear : c.isolated = []) (hn : c.node? m.receiver = some n)
    (heard : ∀ draw, Ensures safe (n.handleMessage m.sender m.message c.now draw) fun result =>
      ∀ c', c.Handled m.receiver n result.1 (sends n.id result.2) c' → P c') :
    Ensures safe (c.deliver m) P := by
  unfold deliver
  rw [clear]
  refine handle_handled (fun down => ?_) fun k draw hk => ?_
  · rw [hn] at down
    cases down
  · obtain rfl := Option.some.inj (hn.symm.trans hk)
    exact heard draw

end Cluster

end Quorum
