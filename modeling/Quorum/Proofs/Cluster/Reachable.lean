import Quorum.Proofs.Cluster.Draining

/-!
# Reachable clusters

What can be done to a simulated cluster, one order after another. However it
was reached, every node in it has the identity, the peers and the
configuration of its place (`Reachable.seated`).
-/

namespace Quorum.Cluster

/-- What can be done to a cluster. -/
inductive Order where
  | advance (elapsed : Duration)
  | step (elapsed : Duration)
  | fire (index : Nat) (timer : Timer)
  | deliverAll
  | elect (index : Nat)
  | serve (index : Nat) (text : String)
  | isolate (index : Nat)
  | heal (index : Nat)
  | crash (index : Nat)
  | restart (index : Nat)
  deriving DecidableEq, Repr

def obey (c : Cluster) : Order → Except Halt Cluster
  | .advance elapsed => c.advance elapsed
  | .step elapsed => c.step elapsed
  | .fire index timer => c.handle index timer.event
  | .deliverAll => c.deliverAll
  | .elect index => (c.elect index).map (·.1)
  | .serve index text => return (c.serve index text).1
  | .isolate index => return c.isolate index
  | .heal index => return c.heal index
  | .crash index => c.crash index
  | .restart index => c.restart index

def obeyAll (c : Cluster) (orders : List Order) : Except Halt Cluster :=
  orders.foldlM obey c

/-- The clusters to which orders lead. -/
inductive Reachable : Cluster → Prop
  | start {size : Nat} {config : TimerConfig} {draws : Nat → Nat} {c : Cluster}
      (call : Cluster.start size config draws = .ok c) : Reachable c
  | obey {c c' : Cluster} {order : Order} (reached : Reachable c) (call : c.obey order = .ok c') :
      Reachable c'

theorem Reachable.obeyAll : ∀ {orders : List Order} {c c' : Cluster}, c.Reachable →
    c.obeyAll orders = .ok c' → c'.Reachable := by
  intro orders
  induction orders with
  | nil =>
      intro c c' h call
      obtain rfl := Except.ok.inj call
      exact h
  | cons order rest ih =>
      intro c c' h call
      obtain ⟨c₁, hfirst, hrest⟩ := exists_of_bind_ok call
      exact ih (h.obey hfirst) hrest

/-- Every node is the one that belongs in its place. -/
def Seated (c : Cluster) : Prop :=
  ∀ i n, c.node? i = some n → n.id = i ∧ n.peers = peersOf c.size i ∧ n.config = c.config

variable {c c' : Cluster} {i : Nat}

theorem mem_peersOf {size p i : Nat} : p ∈ peersOf size i ↔ p < size ∧ p ≠ i := by
  simp [peersOf]

theorem nodup_peersOf (size i : Nat) : (peersOf size i).Nodup := List.nodup_range.filter _

/-- A node's peers are all the others. -/
theorem Seated.mem_peers {p : NodeId} {n m : Node} (h : c.Seated) (hn : c.node? i = some n)
    (hm : c.node? p = some m) (hne : p ≠ i) : p ∈ n.peers := by
  rw [(h i n hn).2.1]
  exact mem_peersOf.mpr ⟨lt_size_of_node? hm, hne⟩

theorem Seated.not_mem_peers {n : Node} (h : c.Seated) (hn : c.node? i = some n) :
    i ∉ n.peers := by
  rw [(h i n hn).2.1]
  exact fun hi => (mem_peersOf.mp hi).2 rfl

theorem Seated.nodup_peers {n : Node} (h : c.Seated) (hn : c.node? i = some n) :
    n.peers.Nodup := by
  rw [(h i n hn).2.1]
  exact nodup_peersOf c.size i

theorem Seated.tended (h : c.Seated) (tended : c.Tended c') : c'.Seated := by
  intro j n' hn'
  cases hn : c.node? j with
  | none => exact nomatch (tended.down j hn).symm.trans hn'
  | some n =>
      obtain ⟨n'', hn'', htended⟩ := tended.up j n hn
      obtain rfl := Option.some.inj (hn''.symm.trans hn')
      obtain ⟨hid, hpeers, hconfig⟩ := h j n hn
      rw [htended.id, htended.peers, htended.config, tended.size, tended.config]
      exact ⟨hid, hpeers, hconfig⟩

theorem Seated.struck {n n' : Node} {out : List InFlight} (h : c.Seated) (hn : c.node? i = some n)
    (frame : n.Frame n') (struck : c.Struck i n' out c') : c'.Seated := by
  intro j m hm
  rw [struck.size, struck.config]
  by_cases hj : j = i
  · subst hj
    obtain rfl := Option.some.inj (struck.self.symm.trans hm)
    rw [frame.id, frame.peers, frame.config]
    exact h j n hn
  · exact h j m ((struck.others j hj).symm.trans hm)

theorem Seated.handle (h : c.Seated) (event : Event) : Ensures False (c.handle i event) Seated :=
  handle_ensures (fun _ => h) fun _ _ hn => .of_ok fun _ hnode _ _ hstruck htended =>
    (h.struck hn (Node.handle_deeds hnode).frame hstruck).tended htended

theorem Seated.deliver (h : c.Seated) (m : InFlight) : Ensures False (c.deliver m) Seated := by
  unfold Cluster.deliver
  split
  · exact .pure h
  · exact h.handle _

theorem Seated.deliverAll (h : c.Seated) : Ensures False c.deliverAll Seated := by
  refine (deliverAll_ensures h fun c m rest _ hc => ?_).mono fun _ h => h.1
  have hpopped : Seated { c with inFlight := rest } := hc
  exact hpopped.deliver m

theorem Seated.fireUpTo (index : Nat) : ∀ count {c : Cluster}, c.Seated →
    Ensures False (fireUpTo index count c) Seated := by
  intro count
  induction count with
  | zero => exact fun h => .pure h
  | succ count ih =>
      intro c h
      unfold Cluster.fireUpTo
      split
      · exact .pure h
      · exact (h.handle _).bind fun _ h => ih h

theorem advance_ensures (c : Cluster) (elapsed : Duration) :
    Ensures (c.now + elapsed < Instant.limit) (c.advance elapsed)
      (· = { c with now := c.now + elapsed }) :=
  ((Instant.after_ensures c.now elapsed).mapError Halt.clock).bind fun _ h => .pure (by rw [h])

theorem Seated.step (h : c.Seated) (elapsed : Duration) :
    Ensures False (c.step elapsed) Seated := by
  have hfire : ∀ index (_ : List Nat) (c : Cluster), c.Seated → Ensures False
      (do return (← Cluster.fireUpTo index firings c).settle index) Seated := by
    intro index _ c hc
    exact (hc.fireUpTo index firings).bind fun c h => .pure (h.tended (settle_tended c index))
  refine ((advance_ensures c elapsed).weaken False.elim).bind fun c₁ hc₁ => ?_
  have h₁ : c₁.Seated := by
    rw [hc₁]
    exact h
  exact (Ensures.foldlM (fun _ => Seated) hfire _ c₁ h₁).bind fun c h => h.deliverAll

theorem Seated.elect (h : c.Seated) (index : Nat) :
    Ensures False (c.elect index) fun result => result.1.Seated :=
  (h.handle .electionTimeout).bind fun _ h => h.deliverAll.bind fun _ h => .pure h

theorem boot_node {config : TimerConfig} {size index : Nat} {storage : MemoryStorage}
    {now : Instant} {draw : Nat} {r : Replica MemoryStorage}
    (h : boot config size index storage now draw = .ok r) :
    r.node.id = index ∧ r.node.peers = peersOf size index ∧ r.node.config = config := by
  unfold boot Replica.boot Node.restore at h
  simp only [Storage.load] at h
  unfold Instant.after at h
  split at h
  · obtain rfl := Except.ok.inj h
    exact ⟨rfl, rfl, rfl⟩
  · exact nomatch h

theorem start_seated {size : Nat} {config : TimerConfig} {draws : Nat → Nat}
    (call : Cluster.start size config draws = .ok c) : c.Seated := by
  obtain ⟨members, hmembers, call⟩ := exists_of_bind_ok call
  obtain rfl := Except.ok.inj call
  obtain ⟨hlength, hall⟩ := mapM_ok hmembers
  intro i n hn
  rw [node?_eq] at hn
  obtain ⟨m, hm, hn⟩ := Option.bind_eq_some_iff.mp hn
  obtain ⟨j, hj, hmade⟩ := hall i m hm
  obtain ⟨r, hboot, hmade⟩ := exists_of_bind_ok hmade
  obtain rfl := Except.ok.inj hmade
  obtain rfl := Option.some.inj hn
  obtain ⟨hlt, rfl⟩ := List.getElem?_eq_some_iff.mp hj
  have hsize : members.length = size := by rw [hlength, List.length_range]
  have hnode := boot_node hboot
  rw [List.getElem_range] at hnode
  show _ ∧ _ = peersOf members.length i ∧ _
  rw [hsize]
  exact hnode

theorem Seated.crash (h : c.Seated) (call : c.crash i = .ok c') : c'.Seated := by
  unfold Cluster.crash at call
  split at call
  · exact nomatch call
  · next m hm =>
      obtain rfl := Except.ok.inj call
      intro j n hn
      rw [size_modify]
      rw [node?_eq, modify, List.getElem?_modify] at hn
      refine h j n ?_
      rw [node?_eq]
      cases hj : c.members[j]? with
      | none => simp [hj] at hn
      | some m' =>
          rw [hj] at hn
          by_cases hij : i = j
          · simp [hij, Slot.node?] at hn
          · simpa [hij] using hn

theorem Seated.restart (h : c.Seated) (call : c.restart i = .ok c') : c'.Seated := by
  unfold Cluster.restart at call
  split at call
  · exact nomatch call
  · obtain rfl := Except.ok.inj call
    exact h
  · next storage pending deferred hm =>
      obtain ⟨r, hboot, call⟩ := exists_of_bind_ok call
      obtain rfl := Except.ok.inj call
      intro j n hn
      have hlt : i < c.size := (List.getElem?_eq_some_iff.mp hm).1
      show n.id = j ∧ n.peers = peersOf (c.setReplica i r).size j ∧ n.config = c.config
      rw [setReplica, size_modify]
      by_cases hj : j = i
      · subst hj
        obtain rfl := Option.some.inj ((node?_setReplica_self hlt).symm.trans hn)
        exact boot_node hboot
      · exact h j n ((node?_setReplica_of_ne hj).symm.trans hn)

theorem Seated.obey (h : c.Seated) {order : Order} (call : c.obey order = .ok c') : c'.Seated := by
  cases order with
  | advance elapsed =>
      rw [(advance_ensures c elapsed).holds _ call]
      exact h
  | step elapsed => exact (h.step elapsed).holds _ call
  | fire index timer => exact (h.handle _).holds _ call
  | deliverAll => exact h.deliverAll.holds _ call
  | elect index => exact ((h.elect index).map fun _ hc => hc).holds _ call
  | serve index text =>
      obtain rfl := Except.ok.inj call
      exact h.tended (serve_tended c index text)
  | isolate index =>
      obtain rfl := Except.ok.inj call
      exact h
  | heal index =>
      obtain rfl := Except.ok.inj call
      exact h
  | crash index => exact h.crash call
  | restart index => exact h.restart call

theorem Reachable.seated (h : c.Reachable) : c.Seated := by
  induction h with
  | start call => exact start_seated call
  | obey _ call ih => exact ih.obey call

end Quorum.Cluster
