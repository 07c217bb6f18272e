import Quorum.Proofs.Cluster.Firing
import Quorum.Proofs.Theorems.Overflow

/-!
# Firing due timers comes to an end

A simulated cluster and a server fire timers in a loop, for as long as one is
due, and one that fires may make another one due. With times that are valid the
loop ends after two events at most: the longest chain is that of a node that
stands for election and loses at once, because the round in which it waits for
votes has no length. A bound on the number of rounds of the loop, as `fireUpTo`
and `fireTimers` have it, is therefore no restriction.
-/

namespace Quorum

variable {now : Instant}

namespace Replica

variable {σ ε : Type} [Storage σ ε] {r : Replica σ}

/-- Whatever timers fire at `now`, the next one that is due can be handled: saving
does not fail, and no deadline lies past the end of the clock. -/
def Handles (r : Replica σ) (now : Instant) : Prop :=
  ∀ draws r₁ event draw, Fires now now draws r r₁ → r₁.dueEvent? now = some event →
    ∃ r₂ commands, r₁.handle event now draw = .ok (r₂, .ok commands)

/-- Firing the timers of a replica that are due at `now`. -/
structure Drains (r : Replica σ) (now : Instant) : Prop where
  due : (r.dueEvent? now).isSome = true ↔ r.node.nextDeadline ≤ now
  /-- No more than two events follow on each other, even if the clock moves on
  while they are handled, as long as it does so by less than the respite. -/
  few : ∀ last draws r', last < now + r.node.config.respite → Fires now last draws r r' →
    draws.length ≤ 2
  /-- After two events no timer is due, whatever random numbers are drawn. -/
  rests : r.Handles now → ∀ first second, ∃ draws r', draws <+: [first, second] ∧
    Fires now now draws r r' ∧ r'.dueEvent? now = none
  /-- They can be handled if saves do not fail and the clock reaches far enough. -/
  handles : Storage.Reliable σ → (r.node.nextDeadline ≤ now → r.node.InReach now) → r.Handles now

/-- As many draws as there are alarms are enough to come to rest. -/
theorem exists_fires (draws : List Nat) : ∀ r : Replica σ, r.node.config.validate = .ok () →
    r.node.alarms now ≤ draws.length → r.Handles now →
    ∃ used r', used <+: draws ∧ Fires now now used r r' ∧ r'.dueEvent? now = none := by
  induction draws with
  | nil =>
      intro r valid hcount handles
      exact ⟨[], r, List.prefix_rfl, .done r,
        dueEvent?_eq_none_iff.mpr (Node.lt_nextDeadline hcount)⟩
  | cons draw draws ih =>
      intro r valid hcount handles
      cases due : r.dueEvent? now with
      | none => exact ⟨[], r, List.nil_prefix, .done r, due⟩
      | some event =>
          obtain ⟨r₁, commands, handled⟩ := handles [] r event draw (.done r) due
          have hnext : ∀ {used r'}, Fires now now used r₁ r' →
              Fires now now (draw :: used) r r' := fun more =>
            .next (Nat.le_refl _) (Nat.le_refl _) due handled more
          have hfired := (fire_ensures valid due).holds _ handled
          obtain ⟨used, r', hused, hmore, hrests⟩ := ih r₁ (hfired.config ▸ valid)
            (hfired.alarms_le valid (nextDeadline_le due) hcount)
            fun draws r₂ event draw fires => handles _ r₂ event draw (hnext fires)
          exact ⟨draw :: used, r', List.cons_prefix_cons.mpr ⟨rfl, hused⟩, hnext hmore, hrests⟩

theorem handles_of_inReach (reliable : Storage.Reliable σ)
    (valid : r.node.config.validate = .ok ())
    (reach : r.node.nextDeadline ≤ now → r.node.InReach now) : r.Handles now := by
  intro draws r₁ event draw fires due
  induction fires with
  | done r =>
      obtain ⟨timer, htimer, rfl⟩ := Option.map_eq_some_iff.mp due
      exact (handle_returns_iff reliable).mpr
        ((Node.fire_ensures valid htimer).returns (reach (nextDeadline_le due)))
  | @next r r₁ _ instant _ _ _ _ after before fired handled more ih =>
      -- All of it happens at one instant, at which the next timer is in reach again.
      obtain rfl : instant = now := Nat.le_antisymm before after
      have hfired := (fire_ensures valid fired).holds _ handled
      exact ih (hfired.config ▸ valid) (hfired.inReach valid (reach (nextDeadline_le fired))) due

theorem drains (valid : r.node.config.validate = .ok ()) (now : Instant) : r.Drains now where
  due := by rw [dueEvent?, Option.isSome_map, Node.dueTimer?_isSome_iff]
  few last draws r' soon h :=
    Nat.le_trans (Nat.le_of_add_right_le (h.alarms valid soon)) (r.node.alarms_le_two last)
  rests handles first second :=
    exists_fires [first, second] r valid (r.node.alarms_le_two now) handles
  handles reliable := handles_of_inReach reliable valid

end Replica

namespace Cluster

variable {c : Cluster} {i : Nat}

/-- Firing the timers of member `i` that are due. -/
structure Drains (c : Cluster) (i : Nat) : Prop where
  /-- No bound on the number of events beyond two makes a difference. -/
  bounded : ∀ more, fireUpTo i (2 + more) c = fireUpTo i 2 c
  /-- After two events no timer is due. -/
  rests : ∀ c', fireUpTo i 2 c = .ok c' →
    c'.now = c.now ∧ (c'.replica? i).bind (·.dueEvent? c'.now) = none
  /-- Only the end of the clock keeps them from being handled. -/
  returns : c.InReach i → ∃ c', fireUpTo i 2 c = .ok c'

theorem drains (valid : ∀ n, c.node? i = some n → n.config.validate = .ok ()) : c.Drains i := by
  have hwithin : c.AlarmsWithin i 2 := fun n hn => ⟨valid n hn, n.alarms_le_two c.now⟩
  have hensures := fireUpTo_ensures 2 c hwithin
  refine ⟨fireUpTo_add 2 c hwithin, fun c' h => ?_, hensures.returns⟩
  obtain ⟨hnow, hlater⟩ := hensures.holds c' h
  refine ⟨hnow, ?_⟩
  rw [Mandate.due_eq]
  cases hn : c'.node? i with
  | none => rfl
  | some n => rw [Option.bind_some, Node.dueTimer?_eq_none_iff.mpr (hlater n hn), Option.map_none]

end Cluster

namespace Server

variable {ω : Type} {s : Server ω}

/-- Firing the timers of a server that are due at `now`. -/
structure Drains (s : Server ω) (now : Instant) : Prop where
  /-- No more than two random numbers are ever used. -/
  bounded : ∀ first second more,
    s.fireTimers now (first :: second :: more) = s.fireTimers now [first, second]
  /-- After two events no timer is due, unless saving has failed. -/
  rests : ∀ first second s', s.fireTimers now [first, second] = .ok s' → s'.isRunning = true →
    s'.replica.dueEvent? now = none
  /-- Only the end of the clock keeps them from being handled. -/
  returns : (s.replica.node.nextDeadline ≤ now → s.replica.node.InReach now) →
    ∀ first second, ∃ s', s.fireTimers now [first, second] = .ok s'

theorem drains (valid : s.replica.node.config.validate = .ok ()) (now : Instant) :
    s.Drains now := by
  have hwithin : s.AlarmsWithin now 2 := fun _ => ⟨valid, s.replica.node.alarms_le_two now⟩
  exact {
    bounded first second more := fireTimers_append [first, second] s hwithin more
    rests first second s' h running :=
      Replica.dueEvent?_eq_none_iff.mpr ((fireTimers_ensures _ s hwithin).holds s' h running)
    returns reach first second := (fireTimers_ensures [first, second] s hwithin).returns reach }

end Server

/-- With valid times there is some respite, a timer is due just when the next
deadline has come, and the loops that fire what is due end after at most two
events: over any storage, in a cluster that is simulated and in a server, and for
every state of the node. -/
theorem due_timers_drain {config : TimerConfig} (valid : config.validate = .ok ()) :
    0 < config.respite ∧
    (∀ {σ ε : Type} [Storage σ ε] (r : Replica σ) (now : Instant), r.node.config = config →
      r.Drains now) ∧
    (∀ (c : Cluster) (i : Nat), (∀ n, c.node? i = some n → n.config = config) → c.Drains i) ∧
    ∀ {ω : Type} (s : Server ω) (now : Instant), s.replica.node.config = config → s.Drains now :=
  ⟨TimerConfig.respite_pos valid, fun _ now same => Replica.drains (same ▸ valid) now,
    fun _ _ same => Cluster.drains fun n hn => same n hn ▸ valid,
    fun _ now same => Server.drains (same ▸ valid) now⟩

/-! ## The longest chain -/

/-- Valid times with which a vote round is over when it begins. -/
def hurried : TimerConfig := { rpc := 0 }

/-- A node of three that is about to stand for election. -/
def hurriedFollower : Replica MemoryStorage where
  node :=
    { id := 1, peers := [2, 3], config := hurried, record := {}, lastApplied := 0
      role := .follower ⟨none, Duration.ofSeconds 5⟩, priorLease := {}, unsaved := false }
  store := .empty
  storage := {}
  applied := []

/-- It stands, and has lost at the same instant: one event makes another one due,
and with the second one the timers are drained. -/
theorem due_timers_drain_hurried :
    (∃ result, hurriedFollower.handle .electionTimeout (Duration.ofSeconds 5) 0 = .ok result ∧
      result.1.dueEvent? (Duration.ofSeconds 5) = some .voteRoundTimeout) ∧
    ∃ draws r', draws <+: [0, 0] ∧
      hurriedFollower.Fires (Duration.ofSeconds 5) (Duration.ofSeconds 5) draws r' ∧
      r'.dueEvent? (Duration.ofSeconds 5) = none := by
  have hvalid : hurried.validate = .ok () := rfl
  have hdrains := (due_timers_drain hvalid).2.1 hurriedFollower (Duration.ofSeconds 5) rfl
  have hreach : hurriedFollower.node.InReach (Duration.ofSeconds 5) :=
    .of_peers (by decide) (List.cons_ne_nil _ _)
  exact ⟨⟨_, rfl, rfl⟩,
    hdrains.rests (hdrains.handles MemoryStorage.reliable fun _ => hreach) 0 0⟩

end Quorum
