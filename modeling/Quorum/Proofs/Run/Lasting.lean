import Quorum.Proofs.Run.Media

/-!
# What lasts as long as a node runs

A property of nodes that they have when they wake up, and that neither events
nor requests of clients take from them, holds in every state of a life
(`Life.holds`). Whether saves fail does not matter: a replica keeps the node
that its call has led to in any case.
-/

namespace Quorum

/-- Nodes of one identity have a property whenever they wake up, and keep it in
all that happens at `timely` instants. It does not depend on what is owed to the
medium, nor on what the store was given. -/
structure Lasting (who : Identity) (timely : Instant → Prop) (property : Node → Prop) : Prop where
  restored : ∀ {record now draw n}, timely now →
    Node.restore who.id who.peers who.config record now draw = .ok n → property n
  handled : ∀ {n event now draw n' commands}, timely now → property n →
    Node.handle n event now draw = .ok (n', commands) → property n'
  submitted : ∀ {n} operation, property n → property (Node.submit n operation).1
  blind : ∀ {n : Node} unsaved lastApplied, property n → property { n with unsaved, lastApplied }

variable {who : Identity} {timely : Instant → Prop} {property : Node → Prop}

/-- What happens happens at a timely instant, if at any. -/
def Happening.Timely (timely : Instant → Prop) (happening : Happening) : Prop :=
  ∀ now, happening.instant? = some now → timely now

instance [DecidablePred timely] (happening : Happening) :
    Decidable (happening.Timely timely) :=
  match h : happening.instant? with
  | none => isTrue fun _ hnow => nomatch h.symm.trans hnow
  | some t => decidable_of_iff (timely t)
      ⟨fun ht _ hnow => Option.some.inj (h.symm.trans hnow) ▸ ht, fun hall => hall t h⟩

namespace Lasting

variable {σ ε : Type} [Storage σ ε] {r r' : Replica σ} {c : Replica.Call} {p : Replica.Plan}
  {host : Host σ} {happening : Happening}

theorem plan (h : Lasting who timely property) (hr : property r.node)
    (hc : (Happening.call c).Timely timely) (hplan : r.plan c = .ok p) :
    property (p.node r.node) := by
  cases c with
  | event event now draw =>
      obtain ⟨⟨node, commands⟩, hhandle, hplan⟩ := exists_of_bind_ok hplan
      obtain rfl := Except.ok.inj hplan
      exact h.handled (hc now rfl) hr hhandle
  | request request now =>
      obtain rfl := Except.ok.inj hplan
      rcases r.planRequest_node request now with hsame | ⟨key, value, rfl, hsubmit⟩
      · rw [hsame]
        exact hr
      · rw [hsubmit]
        exact h.submitted _ hr
  | report =>
      obtain rfl := Except.ok.inj hplan
      exact hr

theorem boot {medium : σ} {now : Instant} {draw : Nat} (h : Lasting who timely property)
    (hnow : timely now)
    (hboot : Replica.boot who.id who.peers who.config medium now draw = .ok (.ok r)) :
    property r.node := by
  cases hload : Storage.load medium with
  | error e =>
      unfold Replica.boot at hboot
      rw [hload] at hboot
      exact nomatch Except.ok.inj hboot
  | ok record =>
      rw [Replica.boot_loaded hload] at hboot
      obtain ⟨n, hrestore, hboot⟩ := exists_of_bind_ok hboot
      obtain rfl := Except.ok.inj (Except.ok.inj hboot)
      exact h.blind n.unsaved _ (h.restored hnow hrestore)

theorem step (h : Lasting who timely property) (hhost : host.Holds property)
    (hhappening : happening.Timely timely) : (host.step who happening).1.Holds property := by
  cases host with
  | up r =>
      cases happening with
      | call c =>
          cases hplan : r.plan c with
          | error overflow =>
              rw [Host.step_call_error (Host.call_unplanned hplan)]
              exact trivial
          | ok p =>
              rw [Host.step_planned hplan]
              obtain ⟨unsaved, lastApplied, hnode⟩ := r.carryOut_node p
              show property (r.carryOut p).1.node
              rw [hnode]
              exact h.blind unsaved lastApplied (h.plan hhost hhappening hplan)
      | crash => exact trivial
      | restart now draw => exact hhost
  | down medium =>
      cases happening with
      | call c => exact trivial
      | crash => exact trivial
      | restart now draw =>
          obtain ⟨r, hboot, heq⟩ | ⟨_, heq⟩ := Host.step_restart_cases who medium now draw
          · rw [heq]
            exact h.boot (hhappening now rfl) hboot
          · rw [heq]
            exact trivial

end Lasting

/-- What lasts holds in every state of a life. -/
theorem Life.holds {σ ε : Type} [Storage σ ε] (l : Life σ) (k : Nat)
    (h : Lasting l.who timely property)
    (hhappenings : ∀ happening ∈ l.happenings.take k, happening.Timely timely) :
    (l.state k).Holds property := by
  have hrun : ∀ (happenings : List Happening) (host : Host σ),
      (∀ happening ∈ happenings, happening.Timely timely) → host.Holds property →
      (happenings.foldl (fun host happening => (host.step l.who happening).1) host).Holds
        property := by
    intro happenings
    induction happenings with
    | nil => exact fun host _ hhost => hhost
    | cons happening rest ih =>
        intro host hall hhost
        refine ih _ (fun later hlater => hall later (List.mem_cons_of_mem _ hlater)) ?_
        exact h.step hhost (hall happening List.mem_cons_self)
  exact hrun _ _ hhappenings trivial

/-! ## A node that stands for election -/

/-- A node of three that wakes up and, when nobody leads, stands for election. -/
def aspirant : Life MemoryStorage where
  who := { id := 1, peers := [2, 3], config := {} }
  medium := {}
  happenings := [.restart 0 0, .call (.event .electionTimeout (Duration.ofSeconds 5) 0)]

/-- The node in the given role, in the term in which it has stood. -/
def aspirantReplica (role : Role) (record : Record) (saves : Nat) : Replica MemoryStorage where
  node :=
    { id := 1, peers := [2, 3], config := {}, record, lastApplied := 0, role, priorLease := {}
      unsaved := false }
  store := .empty
  storage := { record, saves }
  applied := []

theorem aspirant_up :
    aspirant.state 1 = .up (aspirantReplica (.follower ⟨none, Duration.ofSeconds 5⟩) {} 0) ∧
    aspirant.state 2 = .up (aspirantReplica (.candidate (.stand 1 (Duration.ofSeconds 6) 0))
      { currentTerm := 1, votedFor := some 1 } 1) :=
  ⟨rfl, rfl⟩

end Quorum
