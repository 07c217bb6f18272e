import Quorum.Proofs.Handlers.Hints

/-!
# A leader says so when it stops leading

Clients wait for a leader. Whatever takes a node out of leadership makes it
give notice once, and nothing else does (`Node.handle_lapses`).
-/

namespace Quorum

/-- A node gives notice that it leads no longer. -/
def Command.isLapse : Command → Bool
  | .send _ _ => false
  | .leadershipLost _ => true

/-- How often it does so. -/
def lapses (commands : List Command) : Nat := commands.countP Command.isLapse

@[simp] theorem lapses_nil : lapses [] = 0 := rfl

@[simp] theorem lapses_append (a b : List Command) : lapses (a ++ b) = lapses a + lapses b :=
  List.countP_append

/-- Messages are no notice. -/
theorem lapses_eq_zero {commands : List Command}
    (sends : ∀ command ∈ commands, ∃ receiver message, command = .send receiver message) :
    lapses commands = 0 := by
  refine List.countP_eq_zero.mpr fun command hcommand => ?_
  obtain ⟨receiver, message, rfl⟩ := sends command hcommand
  exact Bool.false_ne_true

namespace Node

variable {now : Instant} {draw : Nat} {n n' : Node} {sender : NodeId} {message : Message}
  {l : Leader} {c : Candidate} {commands said : List Command}

/-- An event takes the node out of leadership. -/
def Resigns (n n' : Node) : Prop := n.isLeader = true ∧ n'.isLeader = false

instance (n n' : Node) : Decidable (n.Resigns n') :=
  inferInstanceAs (Decidable (_ ∧ _))

/-- Notice is given once if the node leads no longer, and never if it did not
lead before or still does. -/
def Notices (n n' : Node) (commands : List Command) : Prop :=
  lapses commands = if n.Resigns n' then 1 else 0

theorem Notices.of_aside (silent : lapses commands = 0) (aside : n.isLeader = false) :
    n.Notices n' commands := by
  have hstays : ¬ n.Resigns n' := fun h => Bool.false_ne_true (aside.symm.trans h.1)
  rw [Notices, if_neg hstays, silent]

theorem Notices.of_leads (silent : lapses commands = 0) (leads : n'.isLeader = true) :
    n.Notices n' commands := by
  have hstays : ¬ n.Resigns n' := fun h => Bool.false_ne_true (h.2.symm.trans leads)
  rw [Notices, if_neg hstays, silent]

theorem Notices.of_same (silent : lapses commands = 0) (same : n'.isLeader = n.isLeader) :
    n.Notices n' commands := by
  cases hleads : n.isLeader with
  | true => exact .of_leads silent (same.trans hleads)
  | false => exact .of_aside silent hleads

theorem lapses_farewell (n : Node) (leader? : Option NodeId) :
    lapses (n.farewell leader?) = if n.isLeader = true then 1 else 0 := by
  unfold farewell isLeader
  cases n.role <;> rfl

/-- Who gives up its role, if any, says its farewell as a leader only. -/
theorem Notices.of_farewell {leader? : Option NodeId} (silent : lapses said = 0)
    (follows : n'.isLeader = false) : n.Notices n' (n.farewell leader? ++ said) := by
  have hresigns : n.Resigns n' ↔ n.isLeader = true := and_iff_left follows
  rw [Notices, lapses_append, silent, lapses_farewell]
  simp only [hresigns, Nat.add_zero]

theorem lapses_roundRequests (n : Node) (l : Leader) : lapses (n.roundRequests l) = 0 := by
  refine lapses_eq_zero fun command hcommand => ?_
  obtain ⟨p, _, hmade⟩ := List.mem_filterMap.mp hcommand
  obtain ⟨q, _, rfl⟩ := Option.map_eq_some_iff.mp hmade
  exact ⟨p, _, rfl⟩

theorem isLeader_advanceCommit (n : Node) (l : Leader) :
    (n.advanceCommit l).isLeader = n.isLeader := by
  obtain ⟨hrole, _⟩ := n.commitTo_same (n.record.log.commitPoint n.record.currentTerm
    n.record.commitLength (l.replicatedOn n.lastIndex n.quorum))
  exact isLeader_of_role hrole

theorem isLeader_asFollower (n : Node) (leader? : Option NodeId) (now : Instant) (draw : Nat) :
    (n.asFollower leader? now draw).isLeader = false := by
  unfold asFollower
  split <;> rfl

/-! ## Timers -/

theorem lapses_canvass (n : Node) (now : Instant) : lapses (n.canvass now) = 0 := by
  refine lapses_eq_zero fun command hcommand => ?_
  obtain ⟨peer, _, rfl⟩ := List.mem_map.mp hcommand
  exact ⟨peer, _, rfl⟩

theorem Expiry.lapses {timer : Timer} (h : Expiry now draw n timer n' said) :
    n.Notices n' said := by
  cases h with
  | idle => exact .of_same rfl rfl
  | stand free => exact .of_aside (lapses_canvass n now) free.1
  | fail free => exact .of_aside (lapses_canvass n now) free.1
  | win free granted begun =>
      refine .of_aside ?_ free.1
      rw [lapses_append, lapses_canvass, lapses_roundRequests]
  | lose role tallying passed => exact .of_aside rfl (isLeader_of_candidate role)
  | round role begun =>
      exact .of_leads (lapses_roundRequests _ _) (isLeader_advanceCommit _ _)
  | resign role expired =>
      have hnotices : n.Notices (n.asFollower none now draw) (n.farewell none ++ []) :=
        .of_farewell lapses_nil (n.isLeader_asFollower none now draw)
      rwa [List.append_nil] at hnotices

/-! ## Messages -/

theorem Response.lapses (h : Response now draw n sender message n' said) :
    n.Notices n' said := by
  cases h with
  | grant grants => exact .of_same rfl (isLeader_of_role (voteFor_role n _))
  | deny grants => exact .of_same rfl rfl
  | discard idle => exact .of_same rfl rfl
  | count role tallying current => exact .of_aside rfl (isLeader_of_candidate role)
  | lose role tallying current => exact .of_aside rfl (isLeader_of_candidate role)
  | win role tallying current majority granted begun =>
      exact .of_aside (lapses_roundRequests _ _) (isLeader_of_candidate role)
  | reject stale => exact .of_same rfl rfl
  | refuse current accepts => exact .of_farewell rfl rfl
  | accept current accepts =>
      exact .of_farewell rfl (isLeader_of_role (accepting_same _ _).1)
  | ignore idle => exact .of_same rfl rfl
  | note role current success recorded => exact .of_leads rfl (isLeader_advanceCommit _ _)
  | lower role current failure => exact .of_leads rfl rfl

theorem handleMessage_lapses (h : n.handleMessage sender message now draw = .ok (n', commands)) :
    n.Notices n' commands := by
  obtain ⟨n₁, lost, said, hadopt, hresponse, rfl⟩ := handleMessage_responds h
  obtain ⟨_, rfl, rfl⟩ | ⟨_, rfl, rfl⟩ := adoptTerm_cases hadopt
  · -- a node that has adopted a newer term follows, and goes on following
    have hfollows : (n.inTerm message.term now draw).isLeader = false :=
      isLeader_asFollower _ none now draw
    obtain ⟨f, role⟩ := n.inTerm_role message.term now draw
    refine .of_farewell ?_ (hresponse.idle (.of_follower role)).1
    rw [hresponse.lapses, if_neg fun h => Bool.false_ne_true (hfollows.symm.trans h.1)]
  · exact hresponse.lapses

/-- Whatever happens to a node, it gives notice once if that takes it out of
leadership, and not at all otherwise. -/
theorem handle_lapses {event : Event} (h : n.handle event now draw = .ok (n', commands)) :
    Quorum.lapses commands = if n.isLeader = true ∧ n'.isLeader = false then 1 else 0 := by
  have hnotices : n.Notices n' commands := by
    cases event with
    | electionTimeout => exact (timer_expires .election h).lapses
    | voteRoundTimeout => exact (timer_expires .voteRound h).lapses
    | heartbeatTimeout => exact (timer_expires .heartbeat h).lapses
    | leaseTimeout => exact (timer_expires .leaseExpiry h).lapses
    | message sender message => exact handleMessage_lapses h
  exact hnotices

end Node

end Quorum
