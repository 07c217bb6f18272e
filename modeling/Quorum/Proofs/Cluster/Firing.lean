import Quorum.Proofs.Cluster.Rounds
import Quorum.Proofs.Handlers.Alarms
import Quorum.Proofs.Server.Calls

/-!
# Firing whatever is due

Replicas, members of a cluster and servers fire the timers that are due, one
after another. Each event may save the record, apply entries and serve clients
on the way, but that leaves the deadlines of the node as the timer has set them.
-/

namespace Quorum

namespace Node

variable {now : Instant} {n n' n₁ : Node}

theorem Fired.tended (h : Fired now n n₁) (tended : n₁.Tended n') : Fired now n n' where
  config := tended.config.trans h.config
  peers := tended.peers.trans h.peers
  rearmed := h.rearmed.of_role tended.role

end Node

/-! ## A replica -/

namespace Replica

variable {σ ε : Type} [Storage σ ε] {r r' r₁ : Replica σ} {now last : Instant} {draw : Nat}
  {draws : List Nat} {event : Event}

theorem dueEvent?_eq_none_iff : r.dueEvent? now = none ↔ now < r.node.nextDeadline := by
  rw [dueEvent?, Option.map_eq_none_iff, Node.dueTimer?_eq_none_iff]

theorem nextDeadline_le (due : r.dueEvent? now = some event) : r.node.nextDeadline ≤ now := by
  obtain ⟨timer, htimer, _⟩ := Option.map_eq_some_iff.mp due
  exact Node.nextDeadline_le htimer

/-- Saving, and applying what is committed, touches no deadline. -/
theorem fire_ensures (valid : r.node.config.validate = .ok ())
    (due : r.dueEvent? now = some event) :
    Ensures (r.node.InReach now) (r.handle event now draw)
      fun (r', _) => Node.Fired now r.node r'.node := by
  obtain ⟨timer, htimer, rfl⟩ := Option.map_eq_some_iff.mp due
  refine (Node.fire_ensures valid htimer).bind fun (n', commands) h => ?_
  have hkept := h.tended (persist_tended ({ r with node := n' } : Replica σ))
  cases hsaved : ({ r with node := n' } : Replica σ).persist with
  | mk kept saved =>
      rw [hsaved] at hkept
      simp only [hsaved]
      cases saved with
      -- A save that fails has still left the node as the timer made it.
      | error cause => exact .pure hkept
      | ok _ => exact .pure (hkept.tended (applyCommitted_tended kept))

/-- Timers fire one after another, each when it is due, at instants from `now` to
`last`. The random numbers are those that the events are given. -/
inductive Fires (now last : Instant) : List Nat → Replica σ → Replica σ → Prop
  | done (r : Replica σ) : Fires now last [] r r
  | next {r r₁ r' : Replica σ} {instant : Instant} {event : Event} {draw : Nat}
      {commands : List Command} {draws : List Nat} (after : now ≤ instant)
      (before : instant ≤ last) (due : r.dueEvent? instant = some event)
      (handled : r.handle event instant draw = .ok (r₁, .ok commands))
      (more : Fires now last draws r₁ r') : Fires now last (draw :: draws) r r'

theorem Fires.alarms (h : Fires now last draws r r') (valid : r.node.config.validate = .ok ())
    (soon : last < now + r.node.config.respite) :
    draws.length + r'.node.alarms last ≤ r.node.alarms last := by
  -- The clock may move on between two events, but never past `last`.
  induction h with
  | done r => exact Nat.le_of_eq (Nat.zero_add _)
  | @next r r₁ r' instant event draw commands draws after before due handled more ih =>
      have hfired := (fire_ensures valid due).holds _ handled
      have hlt : r₁.node.alarms last < r.node.alarms last :=
        hfired.alarms_lt (nextDeadline_le due) before
          (Nat.lt_of_lt_of_le soon (Nat.add_le_add_right after _))
      have hrest := ih (hfired.config ▸ valid) (hfired.config ▸ soon)
      rw [List.length_cons]
      omega

end Replica

/-! ## A member of a cluster -/

namespace Cluster

variable {c c' : Cluster} {i : Nat} {n : Node} {timer : Timer}

theorem fire_ensures (hn : c.node? i = some n) (valid : n.config.validate = .ok ())
    (due : n.dueTimer? c.now = some timer) :
    Ensures (n.InReach c.now) (c.handle i timer.event) fun c' =>
      c'.now = c.now ∧ ∃ n', c'.node? i = some n' ∧ Node.Fired c.now n n' := by
  refine handle_ensures (fun hdown => nomatch hn.symm.trans hdown) fun k draw hk => ?_
  obtain rfl := Option.some.inj (hn.symm.trans hk)
  refine (Node.fire_ensures valid due).mono fun (n₁, commands) h c₁ c' hstruck htended => ?_
  obtain ⟨n', hn', hserved⟩ := htended.up i n₁ hstruck.self
  exact ⟨htended.now.trans hstruck.now, n', hn', h.tended hserved⟩

/-- Member `i` works with valid times, and no more than `count` of its timers
can fire now. -/
def AlarmsWithin (c : Cluster) (i count : Nat) : Prop :=
  ∀ n, c.node? i = some n → n.config.validate = .ok () ∧ n.alarms c.now ≤ count

/-- The timers of member `i` that are due now set no deadline past the end of the
clock. -/
def InReach (c : Cluster) (i : Nat) : Prop :=
  ∀ n, c.node? i = some n → n.nextDeadline ≤ c.now → n.InReach c.now

theorem AlarmsWithin.not_due (h : c.AlarmsWithin i 0) (hn : c.node? i = some n) :
    c.now < n.nextDeadline :=
  Node.lt_nextDeadline (h n hn).2

theorem AlarmsWithin.next {count : Nat} (h : c.AlarmsWithin i (count + 1))
    (hn : c.node? i = some n) (due : n.nextDeadline ≤ c.now)
    (fired : c'.now = c.now ∧ ∃ n', c'.node? i = some n' ∧ Node.Fired c.now n n') :
    c'.AlarmsWithin i count := by
  obtain ⟨valid, hcount⟩ := h n hn
  obtain ⟨hnow, n', hn', hfired⟩ := fired
  intro k hk
  obtain rfl := Option.some.inj (hn'.symm.trans hk)
  exact ⟨hfired.config ▸ valid, hnow ▸ hfired.alarms_le valid due hcount⟩

theorem InReach.next (h : c.InReach i) (hn : c.node? i = some n)
    (valid : n.config.validate = .ok ()) (due : n.nextDeadline ≤ c.now)
    (fired : c'.now = c.now ∧ ∃ n', c'.node? i = some n' ∧ Node.Fired c.now n n') :
    c'.InReach i := by
  obtain ⟨hnow, n', hn', hfired⟩ := fired
  intro k hk hdue
  obtain rfl := Option.some.inj (hn'.symm.trans hk)
  rw [hnow] at hdue ⊢
  exact hfired.inReach valid (h n hn due) hdue

theorem exists_due {event : Event} (h : (c.replica? i).bind (·.dueEvent? c.now) = some event) :
    ∃ n timer, c.node? i = some n ∧ n.dueTimer? c.now = some timer ∧ event = timer.event := by
  rw [Mandate.due_eq] at h
  obtain ⟨n, hn, h⟩ := Option.bind_eq_some_iff.mp h
  obtain ⟨timer, due, rfl⟩ := Option.map_eq_some_iff.mp h
  exact ⟨n, timer, hn, due, rfl⟩

/-- A bound beyond the number of timers that can fire changes nothing. -/
theorem fireUpTo_add (count : Nat) : ∀ c, c.AlarmsWithin i count → ∀ more,
    fireUpTo i (count + more) c = fireUpTo i count c := by
  -- The bound counts events, and each of them takes an alarm away.
  induction count with
  | zero =>
      intro c h more
      exact Mandate.fireUpTo_of_not_due
        (fun n hn => Node.dueTimer?_eq_none_iff.mpr (h.not_due hn)) (0 + more)
  | succ count ih =>
      intro c h more
      rw [Nat.succ_add]
      unfold fireUpTo
      cases hdue : (c.replica? i).bind (·.dueEvent? c.now) with
      | none => rfl
      | some event =>
          obtain ⟨n, timer, hn, due, rfl⟩ := exists_due hdue
          cases hc : c.handle i timer.event with
          | error halt => simp only [hc]; rfl
          | ok c₁ =>
              have hfired := (fire_ensures hn (h n hn).1 due).holds c₁ hc
              simp only [hc]
              exact ih c₁ (h.next hn (Node.nextDeadline_le due) hfired) more

theorem fireUpTo_ensures (count : Nat) : ∀ c, c.AlarmsWithin i count →
    Ensures (c.InReach i) (fireUpTo i count c) fun c' =>
      c'.now = c.now ∧ ∀ n, c'.node? i = some n → c'.now < n.nextDeadline := by
  induction count with
  | zero => exact fun c h => .pure ⟨rfl, fun n hn => h.not_due hn⟩
  | succ count ih =>
      intro c h
      unfold fireUpTo
      cases hdue : (c.replica? i).bind (·.dueEvent? c.now) with
      | none =>
          refine .pure ⟨rfl, fun n hn => Node.dueTimer?_eq_none_iff.mp ?_⟩
          rw [Mandate.due_eq, hn, Option.bind_some, Option.map_eq_none_iff] at hdue
          exact hdue
      | some event =>
          obtain ⟨n, timer, hn, due, rfl⟩ := exists_due hdue
          have hpassed := Node.nextDeadline_le due
          have valid := (h n hn).1
          refine ((fire_ensures hn valid due).weaken fun reach => reach n hn hpassed).bind
            fun c₁ hfired => ?_
          exact ((ih c₁ (h.next hn hpassed hfired)).weaken fun reach =>
            reach.next hn valid hpassed hfired).mono fun c' h' => ⟨h'.1.trans hfired.1, h'.2⟩

end Cluster

/-! ## A server -/

namespace Server

variable {ω : Type} {s s' : Server ω} {now : Instant} {draw : Nat} {event : Event}

theorem fire_ensures (running : s.isRunning = true)
    (valid : s.replica.node.config.validate = .ok ())
    (due : s.replica.dueEvent? now = some event) :
    Ensures (s.replica.node.InReach now) (s.handle event now draw) fun s' =>
      Node.Fired now s.replica.node s'.replica.node := by
  rw [handle, running]
  refine (Replica.fire_ensures valid due).bind fun handled h => ?_
  obtain ⟨r', result⟩ := handled
  cases result with
  | error cause => exact .pure h
  | ok commands =>
      have hsame : (commands.foldl execute { s with replica := r' }).replica = r' :=
        congrArg Prod.fst (foldl_machine execute_machine commands { s with replica := r' })
      exact .pure (hsame.symm ▸ h)

theorem fireTimers_of_not_due (later : now < s.replica.node.nextDeadline) (draws : List Nat) :
    s.fireTimers now draws = .ok s := by
  cases draws with
  | nil => rfl
  | cons draw draws =>
      unfold fireTimers
      rw [Replica.dueEvent?_eq_none_iff.mpr later]
      rfl

/-- A server that has not stopped works with valid times, and no more than `count`
of its timers can fire at `now`. -/
def AlarmsWithin (s : Server ω) (now : Instant) (count : Nat) : Prop :=
  s.isRunning = true → s.replica.node.config.validate = .ok () ∧ s.replica.node.alarms now ≤ count

theorem AlarmsWithin.next {count : Nat} (h : s.AlarmsWithin now (count + 1))
    (running : s.isRunning = true) (due : s.replica.node.nextDeadline ≤ now)
    (fired : Node.Fired now s.replica.node s'.replica.node) : s'.AlarmsWithin now count := by
  obtain ⟨valid, hcount⟩ := h running
  exact fun _ => ⟨fired.config ▸ valid, fired.alarms_le valid due hcount⟩

/-- More random numbers than timers that can fire change nothing. -/
theorem fireTimers_append (draws : List Nat) : ∀ s : Server ω, s.AlarmsWithin now draws.length →
    ∀ more, s.fireTimers now (draws ++ more) = s.fireTimers now draws := by
  induction draws with
  | nil =>
      intro s h more
      cases running : s.isRunning with
      | false => exact fireTimers_of_stopped running now more
      | true => exact fireTimers_of_not_due (Node.lt_nextDeadline (h running).2) more
  | cons draw draws ih =>
      intro s h more
      cases running : s.isRunning with
      | false => rw [fireTimers_of_stopped running, fireTimers_of_stopped running]
      | true =>
          rw [List.cons_append]
          unfold fireTimers
          cases due : s.replica.dueEvent? now with
          | none => rfl
          | some event =>
              cases hs : s.handle event now draw with
              | error overflow => simp only [hs]; rfl
              | ok s₁ =>
                  have hfired := (fire_ensures running (h running).1 due).holds s₁ hs
                  simp only [hs]
                  exact ih s₁ (h.next running (Replica.nextDeadline_le due) hfired) more

theorem fireTimers_ensures (draws : List Nat) : ∀ s : Server ω, s.AlarmsWithin now draws.length →
    Ensures (s.replica.node.nextDeadline ≤ now → s.replica.node.InReach now)
      (s.fireTimers now draws) fun s' =>
        s'.isRunning = true → now < s'.replica.node.nextDeadline := by
  induction draws with
  | nil => exact fun s h => .pure fun running => Node.lt_nextDeadline (h running).2
  | cons draw draws ih =>
      intro s h
      cases running : s.isRunning with
      | false =>
          rw [fireTimers_of_stopped running]
          exact .pure fun hrunning => nomatch running.symm.trans hrunning
      | true =>
          unfold fireTimers
          cases due : s.replica.dueEvent? now with
          | none => exact .pure fun _ => Replica.dueEvent?_eq_none_iff.mp due
          | some event =>
              have hpassed := Replica.nextDeadline_le due
              have valid := (h running).1
              refine ((fire_ensures running valid due).weaken fun reach => reach hpassed).bind
                fun s₁ hfired => ?_
              exact (ih s₁ (h.next running hpassed hfired)).weaken fun reach =>
                hfired.inReach valid (reach hpassed)

end Server

end Quorum
