import Quorum.Proofs.Cluster.Outcome
import Quorum.Proofs.Run.Calls
import Quorum.Server

/-!
# What a server does to its replica

A server does nothing to its replica but call it, and once a call has failed it
does not even do that. So whatever the calls that succeed keep is kept by a
server as long as it runs (`Server.Upholds`).
-/

namespace Quorum.Server

variable {ω : Type} {s s' : Server ω} {now : Instant} {draw : Nat} {event : Event}

/-! ## A server that has stopped -/

theorem handle_of_stopped (stopped : s.isRunning = false) : s.handle event now draw = .ok s := by
  rw [handle, stopped]
  rfl

theorem fireTimers_of_stopped (stopped : s.isRunning = false) (now : Instant) (draws : List Nat) :
    s.fireTimers now draws = .ok s := by
  induction draws with
  | nil => rfl
  | cons draw draws ih =>
      unfold fireTimers
      split
      · rfl
      · rw [handle_of_stopped stopped]
        exact ih

theorem offer_of_stopped (stopped : s.isRunning = false) (waiter : ω) (request : Request)
    (now : Instant) : s.offer waiter request now = s := by
  rw [offer, stopped]
  rfl

/-! ## Dealing with clients -/

/-- What a server is apart from its clients. -/
def machine (s : Server ω) : Replica DiskStorage × Option DiskError := (s.replica, s.failure?)

theorem foldl_machine {α : Type} {f : Server ω → α → Server ω}
    (step : ∀ s a, (f s a).machine = s.machine) (l : List α) (s : Server ω) :
    (l.foldl f s).machine = s.machine := by
  induction l generalizing s with
  | nil => rfl
  | cons a rest ih => exact (ih (f s a)).trans (step s a)

theorem execute_machine (s : Server ω) (command : Command) :
    (s.execute command).machine = s.machine := by
  cases command with
  | send receiver message => rfl
  | leadershipLost leader? =>
      unfold execute
      refine (foldl_machine ?_ s.deferred _).trans rfl
      exact fun _ _ => rfl

/-- Whoever gives way to a write is told that it has failed. -/
theorem carryOut_write (s : Server ω) (waiter : ω) (index : LogIndex) (entry : LogEntry) :
    s.carryOut waiter (.write index entry) =
      (s.pending.insert index entry waiter).2.toList.foldl
        (fun s other => s.give (.answer other (s.replica.writeReply false)))
        { s with pending := (s.pending.insert index entry waiter).1 } := by
  unfold carryOut
  cases hat : s.pending.at? index <;> simp [PendingWrites.insert, hat]

theorem carryOut_machine (s : Server ω) (waiter : ω) (admission : Admission) :
    (s.carryOut waiter admission).machine = s.machine := by
  cases admission with
  | reply reply => rfl
  | deferred request => rfl
  | write index entry =>
      rw [carryOut_write]
      refine (foldl_machine ?_ _ _).trans rfl
      exact fun _ _ => rfl

theorem answerApplied_machine (s : Server ω) :
    s.answerApplied.machine = (s.replica.takeApplied.2, s.failure?) := by
  unfold answerApplied
  refine (foldl_machine ?_ _ _).trans rfl
  exact fun _ _ => rfl

/-! ## Calls -/

/-- The replica has the property, unless the server has stopped. -/
def Upholds (P : Replica DiskStorage → Prop) (s : Server ω) : Prop :=
  s.isRunning = true → P s.replica

/-- Every call that succeeds keeps the property. -/
def Lasts (P : Replica DiskStorage → Prop) : Prop :=
  ∀ (r r' : Replica DiskStorage) (c : Replica.Call) (release : Replica.Release),
    P r → r.call c = .ok (r', .ok release) → P r'

namespace Upholds

variable {P : Replica DiskStorage → Prop}

theorem congr (h : s.Upholds P) (same : s'.machine = s.machine) : s'.Upholds P := by
  obtain ⟨hreplica, hfailure⟩ := Prod.mk.inj same
  intro running
  rw [isRunning, hfailure] at running
  exact hreplica ▸ h running

theorem offer (h : s.Upholds P) (lasts : Lasts P) (waiter : ω) (request : Request)
    (now : Instant) : (s.offer waiter request now).Upholds P := by
  cases running : s.isRunning with
  | false =>
      rw [offer_of_stopped running]
      exact h
  | true =>
      have hcall : s.replica.call (.request request now) =
          .ok ((s.replica.serve request now).1, (s.replica.serve request now).2.map .admission) :=
        rfl
      rw [Server.offer, running]
      cases hserve : s.replica.serve request now with
      | mk replica result =>
          rw [hserve] at hcall
          cases result with
          | error cause => exact fun running => nomatch running
          | ok admission =>
              have hserved : ({ s with replica } : Server ω).Upholds P := fun _ =>
                lasts _ _ _ _ (h running) hcall
              exact hserved.congr (carryOut_machine _ waiter admission)

theorem offerAll (h : s.Upholds P) (lasts : Lasts P) (asked : List (ω × Request))
    (now : Instant) : (s.offerAll asked now).Upholds P := by
  induction asked generalizing s with
  | nil => exact h
  | cons a rest ih => exact ih (h.offer lasts a.1 a.2 now)

theorem answerApplied (h : s.Upholds P) (lasts : Lasts P) : s.answerApplied.Upholds P := by
  have hreported : ({ s with replica := s.replica.takeApplied.2 } : Server ω).Upholds P :=
    fun running => lasts _ _ .report _ (h running) rfl
  exact hreported.congr s.answerApplied_machine

theorem settle (h : s.Upholds P) (lasts : Lasts P) (now : Instant) :
    (s.settle now).Upholds P := by
  have htaken : ({ s with deferred := [] } : Server ω).Upholds P := h
  have hoffered := htaken.offerAll lasts s.deferred now
  unfold Server.settle
  simp only []
  split
  · exact hoffered.answerApplied lasts
  · exact hoffered

theorem handle (h : s.Upholds P) (lasts : Lasts P) (event : Event) (now : Instant) (draw : Nat) :
    Ensures False (s.handle event now draw) (Upholds P) := by
  cases running : s.isRunning with
  | false =>
      rw [handle_of_stopped running]
      exact .pure h
  | true =>
      refine .of_ok fun s' call => ?_
      rw [Server.handle, running] at call
      obtain ⟨⟨replica, result⟩, hhandle, call⟩ := exists_of_bind_ok call
      have hcall : s.replica.call (.event event now draw) = .ok (replica, result.map .commands) := by
        rw [Replica.call, hhandle]
        rfl
      cases result with
      | error cause =>
          obtain rfl := Except.ok.inj call
          exact fun running => nomatch running
      | ok commands =>
          obtain rfl := Except.ok.inj call
          have hhandled : ({ s with replica } : Server ω).Upholds P := fun _ =>
            lasts _ _ _ _ (h running) hcall
          exact hhandled.congr (foldl_machine execute_machine commands _)

theorem fireTimers (h : s.Upholds P) (lasts : Lasts P) (now : Instant) (draws : List Nat) :
    Ensures False (s.fireTimers now draws) (Upholds P) := by
  induction draws generalizing s with
  | nil => exact .pure h
  | cons draw draws ih =>
      unfold Server.fireTimers
      split
      · exact .pure h
      · exact (h.handle lasts _ now draw).bind fun _ h => ih h

theorem receive (h : s.Upholds P) (lasts : Lasts P) (sender : NodeId) (message : Message)
    (now : Instant) (draw : Nat) :
    Ensures False (s.receive sender message now draw) (Upholds P) :=
  (h.handle lasts _ now draw).bind fun _ h => .pure (h.settle lasts now)

/-- A turn keeps whatever calls keep. -/
theorem turn (h : s.Upholds P) (lasts : Lasts P) (now : Instant) (draws : List Nat)
    (asked : List (ω × Request)) (arrival? : Option Arrival) :
    Ensures False (s.turn now draws asked arrival?) (Upholds P) := by
  refine (h.fireTimers lasts now draws).bind fun s₁ h₁ => ?_
  have h₂ := (h₁.offerAll lasts asked now).settle lasts now
  cases arrival? with
  | none => exact .pure h₂
  | some a => exact h₂.receive lasts a.sender a.message a.now a.draw

end Upholds

end Quorum.Server
