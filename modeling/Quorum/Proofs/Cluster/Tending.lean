import Quorum.Cluster.Control
import Quorum.Proofs.Cluster.Outcome
import Quorum.Proofs.Run.Calls
import Quorum.Proofs.Run.Basic

/-!
# Members of a simulated cluster

What happens to the nodes of a cluster and to the messages under way when a
member serves its clients (`Cluster.Tended`) and when an event happens to it
(`Cluster.Struck`). Clients only ever add to a leader's log. Everything else
that a cluster keeps, replies and waiting requests, is left out here.
-/

namespace Quorum

/-! ## Nodes that serve clients -/

/-- A node after it has served clients, saved and applied. -/
structure Node.Tended (n n' : Node) : Prop where
  id : n'.id = n.id
  peers : n'.peers = n.peers
  config : n'.config = n.config
  role : n'.role = n.role
  term : n'.record.currentTerm = n.record.currentTerm
  log : n.record.log <+: n'.record.log
  still : n.isLeader = false → n'.record.log = n.record.log

namespace Node

variable {n n' n₁ n₂ n₃ : Node}

theorem Tended.refl (n : Node) : n.Tended n :=
  ⟨rfl, rfl, rfl, rfl, rfl, List.prefix_rfl, fun _ => rfl⟩

theorem Tended.isLeader (h : n.Tended n') : n'.isLeader = n.isLeader := by
  unfold Node.isLeader
  rw [h.role]

theorem Tended.trans (h₁ : n₁.Tended n₂) (h₂ : n₂.Tended n₃) : n₁.Tended n₃ where
  id := h₂.id.trans h₁.id
  peers := h₂.peers.trans h₁.peers
  config := h₂.config.trans h₁.config
  role := h₂.role.trans h₁.role
  term := h₂.term.trans h₁.term
  log := h₁.log.trans h₂.log
  still hno := (h₂.still (h₁.isLeader.trans hno)).trans (h₁.still hno)

theorem commitTo_tended (n : Node) (length : LogIndex) : n.Tended (n.commitTo length) := by
  have hframe := n.commitTo_frame length
  obtain ⟨hrole, _, hterm, hlog⟩ := n.commitTo_same length
  exact ⟨hframe.id, hframe.peers, hframe.config, hrole, hterm, hlog ▸ List.prefix_rfl,
    fun _ => hlog⟩

theorem submit_tended (n : Node) (operation : Operation) : n.Tended (n.submit operation).1 := by
  unfold submit
  split
  · next l role =>
      have happend : n.Tended (n.append ⟨n.record.currentTerm, operation⟩) := by
        refine ⟨rfl, rfl, rfl, rfl, rfl, List.prefix_append _ _, fun hno => ?_⟩
        exact nomatch hno.symm.trans (isLeader_iff.mpr ⟨l, role⟩)
      exact happend.trans (commitTo_tended _ _)
  · exact .refl n

end Node

namespace Replica

variable {σ ε : Type}

theorem applyCommitted_tended (r : Replica σ) : r.node.Tended r.applyCommitted.node :=
  ⟨rfl, rfl, rfl, rfl, rfl, List.prefix_rfl, fun _ => rfl⟩

theorem persist_tended [Storage σ ε] (r : Replica σ) : r.node.Tended r.persist.1.node := by
  rcases persist_cases r with ⟨_, heq⟩ | ⟨storage, result, _, heq⟩
  · rw [heq]
    exact .refl r.node
  · rw [heq]
    exact ⟨rfl, rfl, rfl, rfl, rfl, List.prefix_rfl, fun _ => rfl⟩

theorem serve_tended [Storage σ ε] (r : Replica σ) (request : Request) (now : Instant) :
    r.node.Tended (r.serve request now).1.node := by
  unfold serve
  split
  · exact .refl r.node
  · split
    · exact .refl r.node
    · cases request with
      | get key => exact .refl r.node
      | set key value =>
          have hsubmit := r.node.submit_tended (.set key value)
          cases hsubmitted : r.node.submit (.set key value) with
          | mk node place =>
              rw [hsubmitted] at hsubmit
              cases place with
              | none => simpa only [hsubmitted] using Node.Tended.refl r.node
              | some place =>
                  have hpersist := persist_tended ({ r with node } : Replica σ)
                  cases hsaved : ({ r with node } : Replica σ).persist with
                  | mk kept saved =>
                      rw [hsaved] at hpersist
                      have hkept := hsubmit.trans hpersist
                      cases saved with
                      | error e => simpa only [hsubmitted, hsaved] using hkept
                      | ok _ =>
                          simpa only [hsubmitted, hsaved] using
                            hkept.trans (applyCommitted_tended kept)

/-- Over storage that never fails an event is what it is for the node. -/
theorem handle_eq (r : Replica MemoryStorage) (event : Event) (now : Instant) (draw : Nat) :
    ∃ finish : Node × List Command → Replica MemoryStorage × Except Empty (List Command),
      r.handle event now draw = (r.node.handle event now draw).map finish ∧
        ∀ n commands, n.Tended (finish (n, commands)).1.node ∧
          always (finish (n, commands)).2 = commands := by
  refine ⟨fun result =>
    ((({ r with node := result.1 } : Replica MemoryStorage).persist.1).applyCommitted,
      .ok result.2), ?_, fun n commands => ⟨?_, rfl⟩⟩
  · unfold handle
    cases r.node.handle event now draw with
    | error e => rfl
    | ok result =>
        obtain ⟨n, commands⟩ := result
        cases hsaved : ({ r with node := n } : Replica MemoryStorage).persist with
        | mk kept saved =>
            cases saved with
            | error e => exact e.elim
            | ok _ => simp [bind, Except.bind, Except.map, hsaved, pure, Except.pure]
  · exact (persist_tended ({ r with node := n } : Replica MemoryStorage)).trans
      (applyCommitted_tended _)

end Replica

/-! ## Clusters that serve clients -/

namespace Cluster

variable {c c' c₁ c₂ c₃ : Cluster} {i : Nat}

theorem node?_eq (c : Cluster) (j : Nat) :
    c.node? j = (c.members[j]?).bind (·.slot.node?) := by
  unfold node? replica?
  cases hm : c.members[j]? with
  | none => rfl
  | some m =>
      obtain ⟨slot, pending, deferred⟩ := m
      cases slot with
      | up replica => rfl
      | down storage => rfl

/-- Where a member runs, or what is left of it. -/
def slot? (c : Cluster) (j : Nat) : Option Slot :=
  (c.members[j]?).map (·.slot)

theorem node?_eq_slot? (c : Cluster) (j : Nat) : c.node? j = (c.slot? j).bind Slot.node? := by
  rw [node?_eq, slot?, Option.bind_map]
  rfl

theorem node?_of_replica? {replica : Replica MemoryStorage} (h : c.replica? i = some replica) :
    c.node? i = some replica.node := by
  rw [node?, h]
  rfl

theorem lt_size_of_node? {n : Node} (h : c.node? i = some n) : i < c.size := by
  rw [node?_eq] at h
  obtain ⟨m, hm, _⟩ := Option.bind_eq_some_iff.mp h
  exact (List.getElem?_eq_some_iff.mp hm).1

/-! ## What clients are owed -/

theorem size_modify (c : Cluster) (i : Nat) (change : Member → Member) :
    (c.modify i change).size = c.size :=
  List.length_modify ..

/-- Two clusters that differ at most in what they owe their clients. -/
structure Alike (c c' : Cluster) : Prop where
  slots : ∀ j, c'.slot? j = c.slot? j
  inFlight : c'.inFlight = c.inFlight
  now : c'.now = c.now
  isolated : c'.isolated = c.isolated
  config : c'.config = c.config
  size : c'.size = c.size

theorem Alike.refl (c : Cluster) : c.Alike c :=
  ⟨fun _ => rfl, rfl, rfl, rfl, rfl, rfl⟩

theorem Alike.trans (h₁ : c₁.Alike c₂) (h₂ : c₂.Alike c₃) : c₁.Alike c₃ where
  slots j := (h₂.slots j).trans (h₁.slots j)
  inFlight := h₂.inFlight.trans h₁.inFlight
  now := h₂.now.trans h₁.now
  isolated := h₂.isolated.trans h₁.isolated
  config := h₂.config.trans h₁.config
  size := h₂.size.trans h₁.size

theorem Alike.queueing (h : c.Alike c') (queue : List InFlight) :
    ({ c with inFlight := queue } : Cluster).Alike { c' with inFlight := queue } :=
  ⟨h.slots, rfl, h.now, h.isolated, h.config, h.size⟩

theorem Alike.foldl {α : Type} {f : Cluster → α → Cluster} (step : ∀ c a, Alike c (f c a))
    (l : List α) (c : Cluster) : c.Alike (l.foldl f c) := by
  induction l generalizing c with
  | nil => exact .refl c
  | cons a rest ih => exact (step c a).trans (ih (f c a))

/-- A change of a member that leaves its replica as it is. -/
theorem modify_alike (c : Cluster) (i : Nat) {change : Member → Member}
    (same : ∀ m, (change m).slot = m.slot) : c.Alike (c.modify i change) := by
  refine ⟨fun j => ?_, rfl, rfl, rfl, rfl, size_modify c i change⟩
  rw [slot?, slot?, modify, List.getElem?_modify]
  cases c.members[j]? with
  | none => rfl
  | some m =>
      by_cases hij : i = j
      · simp [hij, same]
      · simp [hij]

theorem answer_alike (c : Cluster) (request : RequestId) (reply : Reply) :
    c.Alike (c.answer request reply) :=
  ⟨fun _ => rfl, rfl, rfl, rfl, rfl, rfl⟩

theorem takeDeferred_alike (c : Cluster) (i : Nat) : c.Alike (c.takeDeferred i).2 :=
  modify_alike c i fun _ => rfl

theorem carryOut_alike (c : Cluster) (i : Nat) (request : RequestId) (admission : Admission) :
    c.Alike (c.carryOut i request admission) := by
  cases admission with
  | reply reply => exact answer_alike c request reply
  | deferred command => exact modify_alike c i fun _ => rfl
  | write place entry =>
      unfold carryOut
      simp only []
      split
      · exact .refl c
      · split
        · exact modify_alike c i fun _ => rfl
        · refine .trans ?_ (answer_alike _ _ _)
          exact modify_alike c i fun _ => rfl

/-- What a member asks for when it no longer leads concerns its clients alone. -/
theorem execute_alike (c : Cluster) (i : Nat) (sender : NodeId) (command : Command) :
    ({ c with inFlight := c.inFlight ++ sends sender [command] } : Cluster).Alike
      (c.execute i sender command) := by
  cases command with
  | send receiver message => exact .refl _
  | leadershipLost leader? =>
      have hsame : ({ c with inFlight := c.inFlight ++ sends sender [.leadershipLost leader?] } :
          Cluster).Alike c :=
        ⟨fun _ => rfl, (List.append_nil _).symm, rfl, rfl, rfl, rfl⟩
      exact (hsame.trans (takeDeferred_alike c i)).trans
        (.foldl (fun c _ => answer_alike c _ _) _ _)

theorem foldl_execute_alike (i : Nat) (sender : NodeId) (commands : List Command) (c : Cluster) :
    ({ c with inFlight := c.inFlight ++ sends sender commands } : Cluster).Alike
      (commands.foldl (fun c command => c.execute i sender command) c) := by
  induction commands generalizing c with
  | nil => exact ⟨fun _ => rfl, (List.append_nil _).symm, rfl, rfl, rfl, rfl⟩
  | cons command rest ih =>
      have hfirst := execute_alike c i sender command
      have hmore := ih (c.execute i sender command)
      have hqueue : (c.execute i sender command).inFlight ++ sends sender rest =
          c.inFlight ++ sends sender (command :: rest) := by
        rw [hfirst.inFlight, List.append_assoc, ← sends_append, List.singleton_append]
      rw [hqueue] at hmore
      exact (hfirst.queueing _).trans hmore

/-! ## Members that serve -/

/-- The cluster after members have served clients. -/
structure Tended (c c' : Cluster) : Prop where
  up : ∀ j n, c.node? j = some n → ∃ n', c'.node? j = some n' ∧ n.Tended n'
  down : ∀ j, c.node? j = none → c'.node? j = none
  inFlight : c'.inFlight = c.inFlight
  now : c'.now = c.now
  isolated : c'.isolated = c.isolated
  config : c'.config = c.config
  size : c'.size = c.size

theorem Tended.of_node?_eq (nodes : ∀ j, c'.node? j = c.node? j)
    (rest : c'.inFlight = c.inFlight ∧ c'.now = c.now ∧ c'.isolated = c.isolated ∧
      c'.config = c.config ∧ c'.size = c.size) : c.Tended c' where
  up j n h := ⟨n, (nodes j).trans h, .refl n⟩
  down j h := (nodes j).trans h
  inFlight := rest.1
  now := rest.2.1
  isolated := rest.2.2.1
  config := rest.2.2.2.1
  size := rest.2.2.2.2

theorem Tended.refl (c : Cluster) : c.Tended c :=
  .of_node?_eq (fun _ => rfl) ⟨rfl, rfl, rfl, rfl, rfl⟩

theorem Tended.trans (h₁ : c₁.Tended c₂) (h₂ : c₂.Tended c₃) : c₁.Tended c₃ where
  up j n h := by
    obtain ⟨n₂, hn₂, ht₂⟩ := h₁.up j n h
    obtain ⟨n₃, hn₃, ht₃⟩ := h₂.up j n₂ hn₂
    exact ⟨n₃, hn₃, ht₂.trans ht₃⟩
  down j h := h₂.down j (h₁.down j h)
  inFlight := h₂.inFlight.trans h₁.inFlight
  now := h₂.now.trans h₁.now
  isolated := h₂.isolated.trans h₁.isolated
  config := h₂.config.trans h₁.config
  size := h₂.size.trans h₁.size

/-- The node at a place after members have served clients. -/
theorem exists_of_tended {p : NodeId} {n' : Node} (tended : c.Tended c')
    (hn : c'.node? p = some n') : ∃ n, c.node? p = some n ∧ n.Tended n' := by
  cases hb : c.node? p with
  | none => exact nomatch (tended.down p hb).symm.trans hn
  | some n =>
      obtain ⟨n'', hn'', ht⟩ := tended.up p n hb
      obtain rfl := Option.some.inj (hn''.symm.trans hn)
      exact ⟨n, rfl, ht⟩

theorem Alike.tended (h : c.Alike c') : c.Tended c' := by
  refine .of_node?_eq (fun j => ?_) ⟨h.inFlight, h.now, h.isolated, h.config, h.size⟩
  rw [node?_eq_slot?, node?_eq_slot?, h.slots j]

theorem Tended.foldl {α : Type} {f : Cluster → α → Cluster} (step : ∀ c a, Tended c (f c a))
    (l : List α) (c : Cluster) : c.Tended (l.foldl f c) := by
  induction l generalizing c with
  | nil => exact .refl c
  | cons a rest ih => exact (step c a).trans (ih (f c a))

theorem node?_setReplica_self {replica : Replica MemoryStorage} (h : i < c.size) :
    (c.setReplica i replica).node? i = some replica.node := by
  rw [node?_eq, setReplica, modify, List.getElem?_modify, List.getElem?_eq_getElem h]
  simp [Slot.node?]

theorem node?_setReplica_of_ne {replica : Replica MemoryStorage} {j : Nat} (h : j ≠ i) :
    (c.setReplica i replica).node? j = c.node? j := by
  rw [node?_eq, node?_eq, setReplica, modify, List.getElem?_modify]
  cases c.members[j]? with
  | none => rfl
  | some m => simp [h.symm]

/-- Two replicas for one place, of which the second has been tended. -/
theorem setReplica_tended {r₁ r₂ : Replica MemoryStorage} (h : i < c.size)
    (tended : r₁.node.Tended r₂.node) : (c.setReplica i r₁).Tended (c.setReplica i r₂) where
  up j n hn := by
    by_cases hj : j = i
    · subst hj
      obtain rfl := Option.some.inj ((node?_setReplica_self h).symm.trans hn)
      exact ⟨r₂.node, node?_setReplica_self h, tended⟩
    · rw [node?_setReplica_of_ne hj] at hn
      exact ⟨n, (node?_setReplica_of_ne hj).trans hn, .refl n⟩
  down j hn := by
    by_cases hj : j = i
    · subst hj
      exact nomatch (node?_setReplica_self h).symm.trans hn
    · rw [node?_setReplica_of_ne hj] at hn
      exact (node?_setReplica_of_ne hj).trans hn
  inFlight := rfl
  now := rfl
  isolated := rfl
  config := rfl
  size := (size_modify c i _).trans (size_modify c i _).symm

/-- The replica in its place as it is. -/
theorem setReplica_self_tended {r : Replica MemoryStorage} (h : c.replica? i = some r) :
    c.Tended (c.setReplica i r) := by
  have hn := node?_of_replica? h
  refine .of_node?_eq (fun j => ?_) ⟨rfl, rfl, rfl, rfl, size_modify c i _⟩
  by_cases hj : j = i
  · subst hj
    exact (node?_setReplica_self (lt_size_of_node? hn)).trans hn.symm
  · exact node?_setReplica_of_ne hj

theorem Tended.sending (h : c.Tended c') (queue : List InFlight) (drawn : Nat) :
    ({ c with inFlight := queue } : Cluster).Tended { c' with inFlight := queue, drawn } :=
  ⟨h.up, h.down, rfl, h.now, h.isolated, h.config, h.size⟩

theorem offer_tended (c : Cluster) (i : Nat) (request : RequestId) (command : Request) :
    c.Tended (c.offer i request command) := by
  unfold offer
  split
  · exact .refl c
  · next r hr =>
      have hlt := lt_size_of_node? (node?_of_replica? hr)
      have hserved := (setReplica_self_tended hr).trans
        (setReplica_tended hlt (r.serve_tended command c.now))
      exact hserved.trans (carryOut_alike _ _ _ _).tended

theorem answerApplied_tended (c : Cluster) (i : Nat) : c.Tended (c.answerApplied i) := by
  unfold answerApplied
  split
  · next r pending deferred hm =>
      refine .trans ?_ (Alike.foldl (fun c _ => answer_alike c _ _) _ _).tended
      -- the member keeps its node, but not the list of what it has applied
      refine .of_node?_eq (fun j => ?_) ⟨rfl, rfl, rfl, rfl, size_modify c i _⟩
      rw [node?_eq, node?_eq, modify, List.getElem?_modify]
      by_cases hij : i = j
      · subst hij
        simp [hm, Slot.node?]
      · cases c.members[j]? with
        | none => rfl
        | some m => simp [hij]
  · exact .refl c

theorem settle_tended (c : Cluster) (i : Nat) : c.Tended (c.settle i) :=
  ((takeDeferred_alike c i).tended.trans (.foldl (fun c _ => offer_tended c i _ _) _ _)).trans
    (answerApplied_tended _ i)

theorem serve_tended (c : Cluster) (i : Nat) (text : String) : c.Tended (c.serve i text).1 := by
  have hasked : c.Tended { c with replies := c.replies ++ [none] } :=
    .of_node?_eq (fun _ => rfl) ⟨rfl, rfl, rfl, rfl, rfl⟩
  unfold serve
  simp only []
  split
  · exact hasked
  · refine (hasked.trans ?_).trans (settle_tended _ i)
    split
    · exact offer_tended _ i _ _
    · exact (answer_alike _ _ _).tended

/-! ## Events -/

/-- Another node at place `i`, and messages that it has sent. -/
structure Struck (c : Cluster) (i : Nat) (n' : Node) (out : List InFlight) (c' : Cluster) :
    Prop where
  self : c'.node? i = some n'
  others : ∀ j, j ≠ i → c'.node? j = c.node? j
  inFlight : c'.inFlight = c.inFlight ++ out
  now : c'.now = c.now
  isolated : c'.isolated = c.isolated
  config : c'.config = c.config
  size : c'.size = c.size

/-- What an event at a member that is up ensures: what the event ensures for
its node, in every cluster in which the node has taken that step and members
have served clients since. -/
theorem handle_ensures {safe : Prop} {event : Event} {P : Cluster → Prop}
    (down : c.node? i = none → P c)
    (up : ∀ n draw, c.node? i = some n →
      Ensures safe (n.handle event c.now draw) fun (n', commands) =>
        ∀ c₁ c', c.Struck i n' (sends n.id commands) c₁ → c₁.Tended c' → P c') :
    Ensures safe (c.handle i event) P := by
  unfold handle
  cases hr : c.replica? i with
  | none => exact .pure (down (by rw [node?, hr]; rfl))
  | some r =>
      have hn := node?_of_replica? hr
      have hlt := lt_size_of_node? hn
      obtain ⟨finish, heq, hfinish⟩ := r.handle_eq event c.now (c.draws c.drawn)
      simp only [heq]
      have hup := (up r.node (c.draws c.drawn) hn).self
      refine ((hup.map fun result h => ?_).mapError Halt.clock).bind fun _ h => h
      obtain ⟨n', commands⟩ := result
      obtain ⟨hnode, hstep⟩ := h
      obtain ⟨htended, hcommands⟩ := hfinish n' commands
      generalize hfinished : finish (n', commands) = finished at htended hcommands ⊢
      obtain ⟨r', result⟩ := finished
      have hid : r'.node.id = r.node.id :=
        htended.id.trans (Node.handle_deeds hnode).frame.id
      let struck : Cluster := { c.setReplica i { r' with node := n' } with
        inFlight := c.inFlight ++ sends r.node.id commands }
      have hstruck : c.Struck i n' (sends r.node.id commands) struck :=
        { self := node?_setReplica_self hlt
          others := fun j hj => node?_setReplica_of_ne hj
          inFlight := rfl
          now := rfl
          isolated := rfl
          config := rfl
          size := size_modify c i _ }
      refine .pure (hstep struck _ hstruck ?_)
      simp only [] at hcommands htended ⊢
      rw [hcommands, hid]
      have hreplaced : (c.setReplica i { r' with node := n' }).Tended (c.setReplica i r') :=
        setReplica_tended hlt htended
      refine ((hreplaced.sending _ (c.drawn + 1)).trans ?_).trans (settle_tended _ i)
      exact (foldl_execute_alike i r.node.id commands
        { c.setReplica i r' with drawn := c.drawn + 1 }).tended

/-- What the delivery of a message ensures, of something that lasts while
members serve clients: it holds if the message gets lost, and if it arrives. -/
theorem deliver_ensures {safe : Prop} {m : InFlight} {P : Cluster → Prop}
    (lasting : ∀ c₁ c₂, P c₁ → c₁.Tended c₂ → P c₂)
    (lost : m.sender ∈ c.isolated ∨ m.receiver ∈ c.isolated ∨ c.node? m.receiver = none → P c)
    (heard : ∀ n draw, c.node? m.receiver = some n → m.sender ∉ c.isolated →
      m.receiver ∉ c.isolated →
      Ensures safe (n.handleMessage m.sender m.message c.now draw) fun (n', commands) =>
        ∀ c', c.Struck m.receiver n' (sends n.id commands) c' → P c') :
    Ensures safe (c.deliver m) P := by
  unfold deliver
  split
  · next hlost =>
      rw [Bool.or_eq_true, List.contains_iff_mem, List.contains_iff_mem] at hlost
      exact .pure (lost (hlost.imp_right .inl))
  · next hheard =>
      rw [Bool.or_eq_true, List.contains_iff_mem, List.contains_iff_mem, not_or] at hheard
      refine handle_ensures (fun hdown => lost (.inr (.inr hdown))) fun n draw hn => ?_
      exact (heard n draw hn hheard.1 hheard.2).mono fun _ hnode c₁ c₂ hstruck htended =>
        lasting c₁ c₂ (hnode c₁ hstruck) htended

end Cluster

end Quorum
