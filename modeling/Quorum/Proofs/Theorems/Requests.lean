import Quorum.Proofs.Cluster.Bookkeeping
import Quorum.Proofs.Cluster.Enactment
import Quorum.Proofs.Handlers.Lapses

/-!
# No request is lost, answered twice or forgotten

In whatever way a cluster came about, each request that was ever made of it is
answered, or waits at one member that is up, or is lost for one of two reasons:
the member it was made of was down, or crashed while the request waited there
(`requests_accounted`). A `Cluster.Course` keeps the list of what is lost. An
answer, once given, stays.
-/

namespace Quorum.Cluster

/-- The requests that an order loses: one that is made of a member that is down
or does not exist, and all that wait at a member when it crashes. -/
def losses (c : Cluster) : Order → List RequestId
  | .serve i _ => if (c.node? i).isNone then [c.replies.length] else []
  | .crash i => ((c.members[i]?).map Member.waiting).getD []
  | _ => []

/-- One thing that can happen to a cluster, and the requests lost by it. As in
`Attainable`, single messages may be delivered, repeated, reordered or lost. -/
inductive Move : Cluster → List RequestId → Cluster → Prop
  | obey {c c' : Cluster} {order : Order} (call : c.obey order = .ok c') :
      Move c (c.losses order) c'
  | shuffle {c : Cluster} {queue : List InFlight} (sent : queue ⊆ c.inFlight) :
      Move c [] { c with inFlight := queue }
  | deliver {c c' : Cluster} {m : InFlight} {rest : List InFlight} (queue : c.inFlight = m :: rest)
      (call : ({ c with inFlight := rest } : Cluster).deliver m = .ok c') : Move c [] c'

/-- What happens to a cluster, one thing after another, and all requests lost
on the way. -/
inductive Course : Cluster → List RequestId → Cluster → Prop
  | nil (c : Cluster) : Course c [] c
  | snoc {c c₁ c₂ : Cluster} {lost gone : List RequestId} (before : Course c lost c₁)
      (move : Move c₁ gone c₂) : Course c (lost ++ gone) c₂

variable {size : Nat} {config : TimerConfig} {draws : Nat → Nat} {c c₀ c' : Cluster}
  {told : List (Option Reply)} {lost gone : List RequestId}

/-- Every cluster that can come about has a course from its start. -/
theorem Attainable.exists_course (h : c.Attainable) : ∃ size config draws c₀ lost,
    Cluster.start size config draws = .ok c₀ ∧ c₀.Course lost c := by
  induction h with
  | @start size config draws c call => exact ⟨size, config, draws, c, [], call, .nil c⟩
  | obey _ call ih =>
      obtain ⟨size, config, draws, c₀, lost, hstart, hcourse⟩ := ih
      exact ⟨size, config, draws, c₀, _, hstart, hcourse.snoc (.obey call)⟩
  | shuffle _ sent ih =>
      obtain ⟨size, config, draws, c₀, lost, hstart, hcourse⟩ := ih
      exact ⟨size, config, draws, c₀, _, hstart, hcourse.snoc (.shuffle sent)⟩
  | deliver _ queue call ih =>
      obtain ⟨size, config, draws, c₀, lost, hstart, hcourse⟩ := ih
      exact ⟨size, config, draws, c₀, _, hstart, hcourse.snoc (.deliver queue call)⟩

/-! ## Books are kept -/

/-- In the beginning there is no request. -/
theorem start_books (call : Cluster.start size config draws = .ok c) :
    Books [] none [] [] c := by
  obtain ⟨members, hmembers, call⟩ := exists_of_bind_ok call
  obtain rfl := Except.ok.inj call
  obtain ⟨_, hall⟩ := mapM_ok hmembers
  have hmember : ∀ (j : Nat) m, members[j]? = some m → ∃ r, m = { slot := .up r } := by
    intro j m hm
    obtain ⟨i, _, hmade⟩ := hall j m hm
    obtain ⟨r, _, hmade⟩ := exists_of_bind_ok hmade
    exact ⟨r, (Except.ok.inj hmade).symm⟩
  constructor
  case once =>
    have hwaiting : members.flatMap Member.waiting = [] := by
      refine List.flatMap_eq_nil_iff.mpr fun m hm => ?_
      obtain ⟨j, hj⟩ := List.mem_iff_getElem?.mp hm
      obtain ⟨r, rfl⟩ := hmember j m hj
      rfl
    rw [waiting, hwaiting]
    exact .refl _
  case told =>
    intro r reply hr
    simp at hr
  case orderly =>
    intro j m hm
    obtain ⟨r, rfl⟩ := hmember j m hm
    exact ⟨List.nodup_nil, fun _ => rfl⟩
  case led =>
    intro j m hm _
    obtain ⟨r, rfl⟩ := hmember j m hm
    exact fun _ _ _ => rfl

theorem Books.obey (h : Books told none [] lost c) {order : Order}
    (call : c.obey order = .ok c') : Books told none [] (lost ++ c.losses order) c' := by
  have hnothing : ∀ {c : Cluster}, Books told none [] lost c → Books told none [] (lost ++ []) c :=
    fun h => (List.append_nil lost).symm ▸ h
  cases order with
  | serve i text =>
      obtain rfl := Except.ok.inj call
      exact h.serve i text
  | crash i => exact h.crash call
  | advance elapsed =>
      rw [(advance_ensures c elapsed).holds _ call]
      exact hnothing (h.congr rfl rfl)
  | step elapsed => exact hnothing ((h.step elapsed).holds _ call)
  | fire i timer => exact hnothing ((h.handle i timer.event).holds _ call)
  | deliverAll => exact hnothing (h.deliverAll.holds _ call)
  | elect i => exact hnothing (((h.elect i).map fun _ hc => hc).holds _ call)
  | isolate i =>
      obtain rfl := Except.ok.inj call
      exact hnothing (h.congr rfl rfl)
  | heal i =>
      obtain rfl := Except.ok.inj call
      exact hnothing (h.congr rfl rfl)
  | restart i => exact hnothing (h.restart call)

theorem Books.move (h : Books told none [] lost c) (hmove : Move c gone c') :
    Books told none [] (lost ++ gone) c' := by
  cases hmove with
  | obey call => exact h.obey call
  | shuffle sent =>
      rw [List.append_nil]
      exact h.congr rfl rfl
  | @deliver _ m rest queue call =>
      rw [List.append_nil]
      have hpopped : Books told none [] lost { c with inFlight := rest } := h.congr rfl rfl
      exact (hpopped.deliver m).holds _ call

theorem Books.course (h : Books told none [] lost c) (hcourse : c.Course gone c') :
    Books told none [] (lost ++ gone) c' := by
  induction hcourse with
  | nil =>
      rw [List.append_nil]
      exact h
  | snoc _ hmove ih =>
      rw [← List.append_assoc]
      exact ih.move hmove

/-! ## Where the requests are -/

/-- Each request that was made of a cluster is in exactly one place, and there
once: answered, among those that wait at a member for its lease or for their
entry to be applied, or lost. Nobody waits at a member that is down, and at one
that does not lead nobody waits for the lease. An answer that was given stays
the same, whatever happens. And a node gives notice that it leads no longer
once in every event that takes it out of leadership, and in no other. -/
theorem requests_accounted (call : Cluster.start size config draws = .ok c₀)
    (course : c₀.Course lost c) :
    (c.answered ++ c.waiting ++ lost).Perm (List.range c.replies.length) ∧
    (∀ (i : Nat) (m : Member), c.members[i]? = some m →
      (c.node? i = none → m.deferred = [] ∧ m.pending.writes = []) ∧
      ∀ n, c.node? i = some n → n.isLeader = false → m.deferred = []) ∧
    (∀ gone c', c.Course gone c' → ∀ (r : RequestId) (reply : Reply),
      c.replies[r]? = some (some reply) → c'.replies[r]? = some (some reply)) ∧
    ∀ (n n' : Node) (event : Event) (now : Instant) (draw : Nat) (commands : List Command),
      n.handle event now draw = .ok (n', commands) →
      lapses commands = if n.isLeader = true ∧ n'.isLeader = false then 1 else 0 := by
  have hbooks := (start_books call).course course
  refine ⟨?_, fun i m hm => ?_, fun gone c' hlater r reply hr => ?_,
    fun n n' event now draw commands h => Node.handle_lapses h⟩
  · have honce := hbooks.once
    rw [List.append_nil] at honce
    exact honce
  · have hnode : c.node? i = m.slot.node? := by
      rw [node?_eq, hm]
      rfl
    rw [hnode]
    refine ⟨fun hdown => ?_, hbooks.led i m hm fun hbusy => nomatch hbusy⟩
    have hnobody := List.append_eq_nil_iff.mp ((hbooks.orderly i m hm).down hdown)
    exact ⟨List.map_eq_nil_iff.mp hnobody.1, List.map_eq_nil_iff.mp hnobody.2⟩
  · -- from here on, what has been told is what has been answered by now
    have hnow : Books c.replies none [] lost c := by
      obtain ⟨honce, _, horderly, hled⟩ := hbooks
      exact ⟨honce, fun r reply hr => hr, horderly, hled⟩
    exact (hnow.course hlater).told r reply hr

/-- Request 0 waits for its entry to be applied, 1 has been sent on, 2 was made
of a member that is down, and 3 waits for a lease that has run out. -/
theorem requests_accounted_of_each :
    ∃ c₀ c, Cluster.start 3 {} (fun _ => 0) = .ok c₀ ∧ c₀.Course [2] c ∧ c.answered = [1] ∧
      c.waiting = [3, 0] ∧ (c.answered ++ c.waiting ++ [2]).Perm (List.range 4) := by
  have h : ∃ c₀, Cluster.start 3 {} (fun _ => 0) = .ok c₀ ∧
      ∃ c₁, c₀.obey (.elect 0) = .ok c₁ ∧
      ∃ c₂, c₁.obey (.serve 0 "SET k v") = .ok c₂ ∧
      ∃ c₃, c₂.obey (.serve 1 "GET k") = .ok c₃ ∧
      ∃ c₄, c₃.obey (.crash 2) = .ok c₄ ∧
      ∃ c₅, c₄.obey (.serve 2 "GET k") = .ok c₅ ∧
      ∃ c₆, c₅.obey (.advance (Duration.ofSeconds 10)) = .ok c₆ ∧
      ∃ c₇, c₆.obey (.serve 0 "GET k") = .ok c₇ ∧
        c₁.losses (.serve 0 "SET k v") ++ c₂.losses (.serve 1 "GET k") ++ c₃.losses (.crash 2) ++
          c₄.losses (.serve 2 "GET k") ++ c₆.losses (.serve 0 "GET k") = [2] ∧
        c₇.answered = [1] ∧ c₇.waiting = [3, 0] ∧ c₇.replies.length = 4 := by decide +kernel
  obtain ⟨c₀, hstart, c₁, h₁, c₂, h₂, c₃, h₃, c₄, h₄, c₅, h₅, c₆, h₆, c₇, h₇, hlost, hanswered,
    hwaiting, hlength⟩ := h
  have hcourse := (((((((Course.nil c₀).snoc (.obey h₁)).snoc (.obey h₂)).snoc (.obey h₃)).snoc
    (.obey h₄)).snoc (.obey h₅)).snoc (.obey h₆)).snoc (.obey h₇)
  have hall : c₀.Course [2] c₇ := by
    rw [← hlost]
    simpa [losses] using hcourse
  obtain ⟨hperm, _⟩ := requests_accounted hstart hall
  rw [hlength] at hperm
  exact ⟨c₀, c₇, hstart, hall, hanswered, hwaiting, hperm⟩

end Quorum.Cluster
