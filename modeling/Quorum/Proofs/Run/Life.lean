import Quorum.Proofs.Handlers.Vows
import Quorum.Proofs.Run.Calls

/-!
# The life of a replica

A replica by itself, over any medium, from the first time that it is started:
anybody may call it with anything at any time, it may crash between calls, and
it starts over from what its medium holds. `Life.said` tells what it sends in
each step.
-/

namespace Quorum

/-- Who a replica is whenever it starts. -/
structure Identity where
  id : NodeId
  peers : List NodeId
  config : TimerConfig

/-- A replica that runs, or the medium that is left of it. -/
inductive Host (σ : Type) where
  | up (replica : Replica σ)
  | down (medium : σ)

/-- What can happen to a replica. -/
inductive Happening where
  | call (call : Replica.Call)
  | crash
  /-- It starts over from its medium. -/
  | restart (now : Instant) (draw : Nat)

/-- When something happens, if it needs a clock. -/
def Happening.instant? : Happening → Option Instant
  | .call (.event _ now _) => some now
  | .call (.request _ now) => some now
  | .call .report => none
  | .crash => none
  | .restart now _ => some now

namespace Host

variable {σ ε : Type} [Storage σ ε]

def isUp : Host σ → Bool
  | .up _ => true
  | .down _ => false

/-- The estimate of earlier leases that a running node has. -/
def estimate? : Host σ → Option Instant
  | .up replica => some replica.node.priorLease.endsAt
  | .down _ => none

theorem exists_estimate {host : Host σ} (h : host.isUp = true) :
    ∃ e, host.estimate? = some e := by
  cases host with
  | up replica => exact ⟨_, rfl⟩
  | down medium => exact nomatch h

/-- What becomes of a replica, and the commands that it gives out. One whose
deadline would lie beyond the end of the clock stops, and one whose medium
does not load stays down. -/
def step (who : Identity) : Host σ → Happening → Host σ × List Command
  | .up r, .call c =>
    match r.call c with
    | .error _ => (.down r.storage, [])
    | .ok (r', .ok (.commands commands)) => (.up r', commands)
    | .ok (r', _) => (.up r', [])
  | .up r, .crash => (.down r.storage, [])
  | .down medium, .restart now draw =>
    match Replica.boot who.id who.peers who.config medium now draw with
    | .ok (.ok r) => (.up r, [])
    | _ => (.down medium, [])
  | host, _ => (host, [])

variable {who : Identity} {r r' : Replica σ} {c : Replica.Call} {result : Except ε Replica.Release}

/-- A replica that is called runs on, whatever it has given out. -/
theorem step_call_ok (h : r.call c = .ok (r', result)) :
    ((up r).step who (.call c)).1 = .up r' := by
  rcases result with failure | ⟨commands | admission | entries⟩ <;> simp only [step, h]

theorem step_call_error {overflow : ClockOverflow} (h : r.call c = .error overflow) :
    (up r).step who (.call c) = (.down r.storage, []) := by
  simp only [step, h]

/-- A medium wakes up as a replica, or is left as it is. -/
theorem step_restart_cases (who : Identity) (medium : σ) (now : Instant) (draw : Nat) :
    (∃ r, Replica.boot who.id who.peers who.config medium now draw = .ok (.ok r) ∧
      (down medium).step who (.restart now draw) = (.up r, [])) ∨
    ((∀ r, Replica.boot who.id who.peers who.config medium now draw ≠ .ok (.ok r)) ∧
      (down medium).step who (.restart now draw) = (.down medium, [])) := by
  cases hboot : Replica.boot who.id who.peers who.config medium now draw with
  | error overflow => exact .inr ⟨fun r h => (nomatch h), by simp only [step, hboot]⟩
  | ok loaded =>
      cases loaded with
      | error e => exact .inr ⟨fun r h => (nomatch h), by simp only [step, hboot]⟩
      | ok r => exact .inl ⟨r, rfl, by simp only [step, hboot]⟩

end Host

/-- What has happened to a replica since it was down for the first time. -/
structure Life (σ : Type) where
  who : Identity
  medium : σ
  happenings : List Happening

namespace Life

variable {σ ε : Type} [Storage σ ε]

/-- The state of a life after its first `k` happenings, and its last state
from its end on. -/
def state (l : Life σ) (k : Nat) : Host σ :=
  (l.happenings.take k).foldl (fun host happening => (host.step l.who happening).1)
    (.down l.medium)

/-- What is given out in the step after the first `k`. -/
def said (l : Life σ) (k : Nat) : List Command :=
  match l.happenings[k]? with
  | none => []
  | some happening => ((l.state k).step l.who happening).2

/-- The clock never goes back, whatever happens in between. -/
def Clocked (l : Life σ) : Prop :=
  (l.happenings.filterMap Happening.instant?).Pairwise (· ≤ ·)

theorem state_succ (l : Life σ) {k : Nat} {happening : Happening}
    (h : l.happenings[k]? = some happening) :
    l.state (k + 1) = ((l.state k).step l.who happening).1 := by
  rw [state, state, List.take_add_one, h, Option.toList_some, List.foldl_append]
  rfl

theorem state_of_length_le (l : Life σ) {k : Nat} (h : l.happenings.length ≤ k) :
    l.state (k + 1) = l.state k := by
  rw [state, state, List.take_of_length_le h, List.take_of_length_le (Nat.le_succ_of_le h)]

end Life

/-! ## Estimates -/

namespace Replica

variable {σ ε : Type} [Storage σ ε] {r r' : Replica σ} {result : Except ε Release}
  {event : Event} {now : Instant} {draw : Nat} {commands : List Command}

/-- No call makes a replica expect an earlier lease to end sooner. -/
theorem Made.estimate_le (h : r.Made r' result) :
    r.node.priorLease.endsAt ≤ r'.node.priorLease.endsAt := by
  cases h with
  | aside release => exact Nat.le_refl _
  | report => exact Nat.le_refl _
  | unchanged deeds clean release => exact deeds.estimate_le
  | saved deeds save release => exact deeds.estimate_le
  | failed deeds save => exact deeds.estimate_le

/-- What a replica says in an event is what its node says, and the estimate
and the record that are left are those of the node. -/
theorem handle_said (h : r.handle event now draw = .ok (r', .ok commands)) :
    ∃ n', r.node.handle event now draw = .ok (n', commands) ∧
      r'.node.priorLease = n'.priorLease ∧ r'.node.record = n'.record := by
  obtain ⟨⟨n', said⟩, hnode, h⟩ := exists_of_bind_ok h
  rcases persist_cases ({ r with node := n' } : Replica σ) with
    ⟨_, heq⟩ | ⟨storage, tried, _, heq⟩
  · simp only [heq] at h
    obtain ⟨rfl, rfl⟩ := h
    exact ⟨n', hnode, rfl, rfl⟩
  · simp only [heq] at h
    cases tried with
    | error e => obtain ⟨_, h⟩ := h
    | ok _ =>
        obtain ⟨rfl, rfl⟩ := h
        exact ⟨n', hnode, rfl, rfl⟩

end Replica

namespace Host

variable {σ ε : Type} [Storage σ ε] {r : Replica σ} {who : Identity} {happening : Happening}
  {event : Event} {now e : Instant} {draw : Nat} {command : Command}

/-- A replica that goes on running does not expect earlier leases to end
sooner. -/
theorem step_estimate_le (h : ((up r).step who happening).1.estimate? = some e) :
    r.node.priorLease.endsAt ≤ e := by
  cases happening with
  | crash => exact nomatch h
  | restart now draw => exact Nat.le_of_eq (Option.some.inj h)
  | call c =>
      cases hcall : r.call c with
      | error overflow =>
          rw [step_call_error hcall] at h
          exact nomatch h
      | ok outcome =>
          obtain ⟨r', result⟩ := outcome
          have hmade := (Replica.call_made hcall).estimate_le
          rw [step_call_ok hcall] at h
          exact Option.some.inj h ▸ hmade

/-- What is given out in an event was said by the node of a running replica,
and its estimate and its record are those that are left. -/
theorem step_said {host : Host σ}
    (h : command ∈ (host.step who (.call (.event event now draw))).2) :
    ∃ r n' commands r', host = .up r ∧ r.node.handle event now draw = .ok (n', commands) ∧
      command ∈ commands ∧ (host.step who (.call (.event event now draw))).1 = .up r' ∧
      r'.node.priorLease = n'.priorLease ∧ r'.node.record = n'.record := by
  cases host with
  | down medium => exact nomatch h
  | up r =>
      cases hhandle : r.handle event now draw with
      | error overflow =>
          have hcall : r.call (.event event now draw) = .error overflow := by
            rw [Replica.call, hhandle]
            rfl
          rw [step_call_error hcall] at h
          exact nomatch h
      | ok outcome =>
          obtain ⟨r', result⟩ := outcome
          have hcall : r.call (.event event now draw) = .ok (r', result.map .commands) := by
            rw [Replica.call, hhandle]
            rfl
          rw [step_call_ok hcall]
          simp only [step, hcall] at h
          cases result with
          | error failure => exact nomatch h
          | ok commands =>
              obtain ⟨n', hnode, hprior, hrecord⟩ := Replica.handle_said hhandle
              exact ⟨r, n', commands, r', rfl, hnode, h, rfl, hprior, hrecord⟩

end Host

namespace Life

variable {σ ε : Type} [Storage σ ε] {l : Life σ} {j k : Nat} {e e' : Instant}

/-- A replica runs in all states from one to another. -/
def Runs (l : Life σ) (j k : Nat) : Prop :=
  ∀ m, j ≤ m → m ≤ k → (l.state m).isUp = true

/-- As long as a replica runs its estimate never falls. -/
theorem Runs.estimate_le (h : l.Runs j k) (hjk : j ≤ k) (he : (l.state j).estimate? = some e) :
    ∃ e', (l.state k).estimate? = some e' ∧ e ≤ e' := by
  induction hjk with
  | refl => exact ⟨e, he, Nat.le_refl _⟩
  | @step k hjk ih =>
      obtain ⟨e₁, he₁, hle⟩ := ih fun m hjm hmk => h m hjm (Nat.le_succ_of_le hmk)
      cases hhappening : l.happenings[k]? with
      | none =>
          rw [l.state_of_length_le (List.getElem?_eq_none_iff.mp hhappening)]
          exact ⟨e₁, he₁, hle⟩
      | some happening =>
          have hup := h (k + 1) (Nat.le_succ_of_le hjk) (Nat.le_refl _)
          rw [l.state_succ hhappening] at hup ⊢
          cases hstate : l.state k with
          | down medium =>
              rw [hstate] at he₁
              exact nomatch he₁
          | up r =>
              rw [hstate] at he₁ hup
              obtain rfl := Option.some.inj he₁
              obtain ⟨e₂, he₂⟩ := Host.exists_estimate hup
              exact ⟨e₂, he₂, Nat.le_trans hle (Host.step_estimate_le he₂)⟩

end Life

end Quorum
