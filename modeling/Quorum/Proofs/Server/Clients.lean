import Quorum.Proofs.Server.Calls
import Quorum.Proofs.Server.Pending

/-!
# Clients of a server

A server that runs owes an answer to each client that has asked it for
something. While it deals with them it has some in hand, and `Server.Accounts`
says that each client is in one place, and there once: its answer has been given
out, or it waits, or it is in hand. Whatever happens to a server moves clients
from one place to another.
-/

namespace Quorum

variable {ω : Type}

/-- The client that is answered. -/
def ServerOutput.answered? : ServerOutput ω → Option ω
  | .answer waiter _ => some waiter
  | .send _ _ => none

namespace Server

/-- Who has an answer that has not been taken yet. -/
def answered (s : Server ω) : List ω := s.output.filterMap ServerOutput.answered?

/-- Who waits, for the lease or for an entry to be applied. -/
def waiting (s : Server ω) : List ω := s.deferred.map (·.1) ++ s.pending.waiters

/-- Each client that the server knows of is in one place, unless the server has
stopped. -/
structure Accounts (known hand : List ω) (s : Server ω) : Prop where
  distinct : s.pending.Distinct
  once : s.isRunning = true → (s.answered ++ s.waiting ++ hand).Perm known

variable {s s' : Server ω} {known hand hand' : List ω} {waiter : ω} {reply : Reply}
  {now : Instant} {draw : Nat}

namespace Accounts

/-- In the beginning there are no clients. -/
theorem start (replica : Replica DiskStorage) : ({ replica } : Server ω).Accounts [] [] :=
  ⟨List.nodup_nil, fun _ => .refl _⟩

/-- A server that has stopped owes nothing. -/
theorem of_stopped (distinct : s.pending.Distinct) (stopped : s.isRunning = false) :
    s.Accounts known hand :=
  ⟨distinct, fun running => nomatch stopped.symm.trans running⟩

/-- Clients move between waiting and the hand. -/
theorem move (h : s.Accounts known hand) (distinct : s'.pending.Distinct)
    (running : s'.isRunning = true → s.isRunning = true) (output : s'.output = s.output)
    (moves : (s'.waiting ++ hand').Perm (s.waiting ++ hand)) : s'.Accounts known hand' := by
  refine ⟨distinct, fun hrunning => .trans ?_ (h.once (running hrunning))⟩
  have hanswered : s'.answered = s.answered := congrArg (List.filterMap _) output
  rw [hanswered, List.append_assoc, List.append_assoc]
  exact moves.append_left _

/-- A client in hand is answered. -/
theorem answer (h : s.Accounts known (waiter :: hand)) (reply : Reply) :
    (s.give (.answer waiter reply)).Accounts known hand := by
  refine ⟨h.distinct, fun running => .trans ?_ (h.once running)⟩
  have hanswered : (s.give (.answer waiter reply)).answered = s.answered ++ [waiter] :=
    List.filterMap_append
  have hwaiting : (s.give (.answer waiter reply)).waiting = s.waiting := rfl
  classical
  refine List.perm_iff_count.mpr fun a => ?_
  simp only [hanswered, hwaiting, List.count_append, List.count_cons, List.count_nil]
  omega

/-- All the clients in hand are answered. -/
theorem answers {α : Type} {client : α → ω} {serve : Server ω → α → Server ω}
    (serves : ∀ s a, ∃ reply, serve s a = s.give (.answer (client a) reply)) (l : List α)
    (h : s.Accounts known (l.map client ++ hand)) :
    (l.foldl serve s).Accounts known hand := by
  induction l generalizing s with
  | nil => exact h
  | cons a rest ih =>
      obtain ⟨reply, hserve⟩ := serves s a
      rw [List.foldl_cons, hserve]
      exact ih (h.answer reply)

theorem send (h : s.Accounts known hand) (receiver : NodeId) (message : Message) :
    (s.give (.send receiver message)).Accounts known hand := by
  refine ⟨h.distinct, fun running => ?_⟩
  have hanswered : (s.give (.send receiver message)).answered = s.answered :=
    List.filterMap_append.trans (List.append_nil _)
  rw [hanswered]
  exact h.once running

/-- Those who wait for the lease are taken into hand. -/
theorem takeDeferred (h : s.Accounts known hand) :
    ({ s with deferred := [] } : Server ω).Accounts known (s.deferred.map (·.1) ++ hand) := by
  refine h.move h.distinct (fun running => running) rfl ?_
  show (s.pending.waiters ++ (s.deferred.map (·.1) ++ hand)).Perm
    (s.deferred.map (·.1) ++ s.pending.waiters ++ hand)
  rw [← List.append_assoc]
  exact List.perm_append_comm.append_right _

/-- What the replica decides on a client in hand is carried out. -/
theorem carryOut (h : s.Accounts known (waiter :: hand)) (admission : Admission) :
    (s.carryOut waiter admission).Accounts known hand := by
  classical
  cases admission with
  | reply reply => exact h.answer reply
  | deferred request =>
      refine h.move h.distinct (fun running => running) rfl (List.perm_iff_count.mpr fun a => ?_)
      simp only [Server.carryOut, waiting, List.map_append, List.map_cons, List.map_nil,
        List.count_append, List.count_cons, List.count_nil]
      omega
  | write index entry =>
      have hperm := h.distinct.insert_perm index entry waiter
      have hinserted : ({ s with pending := (s.pending.insert index entry waiter).1 } :
          Server ω).Accounts known
            ((s.pending.insert index entry waiter).2.toList.map id ++ hand) := by
        refine h.move (h.distinct.insert index entry waiter) (fun running => running) rfl
          (List.perm_iff_count.mpr fun a => ?_)
        have hcount := List.perm_iff_count.mp hperm a
        simp only [waiting, List.map_id, List.count_append, List.count_cons] at hcount ⊢
        omega
      rw [carryOut_write]
      exact hinserted.answers (fun _ _ => ⟨_, rfl⟩) _

/-- A client in hand is let in. -/
theorem offer (h : s.Accounts known (waiter :: hand)) (request : Request) (now : Instant) :
    (s.offer waiter request now).Accounts known hand := by
  cases running : s.isRunning with
  | false =>
      rw [offer_of_stopped running]
      exact .of_stopped h.distinct running
  | true =>
      rw [Server.offer, running]
      cases s.replica.serve request now with
      | mk replica result =>
          cases result with
          | error cause => exact .of_stopped h.distinct rfl
          | ok admission =>
              have hserved : ({ s with replica } : Server ω).Accounts known (waiter :: hand) :=
                ⟨h.distinct, h.once⟩
              exact hserved.carryOut admission

theorem offerAll (asked : List (ω × Request)) (now : Instant)
    (h : s.Accounts known (asked.map (·.1) ++ hand)) :
    (s.offerAll asked now).Accounts known hand := by
  induction asked generalizing s with
  | nil => exact h
  | cons a rest ih => exact ih (h.offer a.2 now)

/-- The writes whose indices have been applied are answered. -/
theorem answerApplied (h : s.Accounts known hand) : s.answerApplied.Accounts known hand := by
  have hresolved : ({ s with
      replica := s.replica.takeApplied.2
      pending := (s.pending.resolve s.replica.applied).1 } : Server ω).Accounts known
        ((s.pending.resolve s.replica.applied).2.map (·.1) ++ hand) := by
    classical
    refine h.move (h.distinct.resolve _) (fun running => running) rfl
      (List.perm_iff_count.mpr fun a => ?_)
    have hcount := List.perm_iff_count.mp (h.distinct.resolve_perm s.replica.applied) a
    simp only [waiting, List.count_append] at hcount ⊢
    omega
  exact hresolved.answers (fun _ _ => ⟨_, rfl⟩) _

/-- The server deals with all its clients. -/
theorem settle (h : s.Accounts known hand) (now : Instant) :
    (s.settle now).Accounts known hand := by
  have hoffered := h.takeDeferred.offerAll s.deferred now
  unfold Server.settle
  simp only []
  split
  · exact hoffered.answerApplied
  · exact hoffered

/-- If the server leads no longer, whoever it has deferred is sent on. -/
theorem execute (h : s.Accounts known hand) (command : Command) :
    (s.execute command).Accounts known hand := by
  cases command with
  | send receiver message => exact h.send receiver message
  | leadershipLost leader? => exact h.takeDeferred.answers (fun _ _ => ⟨_, rfl⟩) s.deferred

theorem executes (commands : List Command) (h : s.Accounts known hand) :
    (commands.foldl Server.execute s).Accounts known hand := by
  induction commands generalizing s with
  | nil => exact h
  | cons command rest ih => exact ih (h.execute command)

/-! ## Turns -/

theorem handle (h : s.Accounts known hand) (event : Event) (now : Instant) (draw : Nat) :
    Ensures False (s.handle event now draw) (Accounts known hand) := by
  refine .of_ok fun s' call => ?_
  unfold Server.handle at call
  split at call
  · obtain rfl := Except.ok.inj call
    exact h
  · obtain ⟨⟨replica, result⟩, _, call⟩ := exists_of_bind_ok call
    cases result with
    | error cause =>
        obtain rfl := Except.ok.inj call
        exact .of_stopped h.distinct rfl
    | ok commands =>
        obtain rfl := Except.ok.inj call
        have hhandled : ({ s with replica } : Server ω).Accounts known hand := ⟨h.distinct, h.once⟩
        exact hhandled.executes commands

theorem fireTimers (h : s.Accounts known hand) (now : Instant) (draws : List Nat) :
    Ensures False (s.fireTimers now draws) (Accounts known hand) := by
  induction draws generalizing s with
  | nil => exact .pure h
  | cons draw draws ih =>
      unfold Server.fireTimers
      split
      · exact .pure h
      · exact (h.handle _ now draw).bind fun _ h => ih h

theorem receive (h : s.Accounts known hand) (sender : NodeId) (message : Message)
    (now : Instant) (draw : Nat) :
    Ensures False (s.receive sender message now draw) (Accounts known hand) :=
  (h.handle _ now draw).bind fun _ h => .pure (h.settle now)

/-- New clients are in hand first. -/
theorem ask (h : s.Accounts known hand) (clients : List ω) :
    s.Accounts (clients ++ known) (clients ++ hand) := by
  refine ⟨h.distinct, fun running => .trans ?_ ((h.once running).append_left clients)⟩
  rw [← List.append_assoc, ← List.append_assoc]
  exact List.perm_append_comm.append_right hand

/-- In a turn the server gets to know the clients that ask. -/
theorem turn (h : s.Accounts known hand) (now : Instant) (draws : List Nat)
    (asked : List (ω × Request)) (arrival? : Option Arrival) :
    Ensures False (s.turn now draws asked arrival?)
      (Accounts (asked.map (·.1) ++ known) hand) := by
  refine (h.fireTimers now draws).bind fun s₁ h₁ => ?_
  have hsettled := ((h₁.ask (asked.map (·.1))).offerAll asked now).settle now
  cases arrival? with
  | none => exact .pure hsettled
  | some a => exact hsettled.receive a.sender a.message a.now a.draw

/-- Clients whose answers are taken are in hand. -/
theorem takeOutput (h : s.Accounts known hand) :
    s.takeOutput.2.Accounts known (s.answered ++ hand) := by
  refine ⟨h.distinct, fun running => .trans ?_ (h.once running)⟩
  show (s.waiting ++ (s.answered ++ hand)).Perm (s.answered ++ s.waiting ++ hand)
  rw [← List.append_assoc]
  exact List.perm_append_comm.append_right hand

/-- Clients that have given up are in hand. -/
theorem forget (h : s.Accounts known hand) (gone : ω → Bool) :
    (s.forget gone).Accounts known (s.waiting.filter gone ++ hand) := by
  refine h.move (h.distinct.retain _) (fun running => running) rfl ?_
  have hwaiting : (s.forget gone).waiting = s.waiting.filter (!gone ·) := by
    unfold waiting Server.forget
    rw [PendingWrites.waiters_retain, List.filter_append, List.filter_map]
    rfl
  rw [hwaiting, ← List.append_assoc]
  exact (List.perm_append_comm.trans (List.filter_append_perm gone s.waiting)).append_right hand

end Accounts

end Server

end Quorum
