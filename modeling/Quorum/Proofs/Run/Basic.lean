import Mathlib.Logic.Function.Basic
import Quorum.Cluster.Basic

/-!
# Runs of a cluster

A cluster under an adversary: any timer may fire at any node at any time, any
message that was ever sent may be delivered at any time, again and again or
never, clients may ask any node for anything, and nodes crash between events
and come back with what they saved. A run is a finite list of such actions;
`Run.state` gives the world after each of them.

Messages are never taken out of `World.sent`, so loss, delay, reordering and
duplication need no actions of their own: they are choices of what to deliver
and when. In the beginning every node is down over an empty storage.
-/

namespace Quorum

/-- The nodes of a cluster: their identifiers, all different, and what each
of them is started with. The peers of a node are all the others, in any
order. -/
structure Roster where
  ids : List NodeId
  nodup : ids.Nodup
  peers : NodeId → List NodeId
  peers_perm : ∀ i ∈ ids, (peers i).Perm (ids.erase i)
  config : NodeId → TimerConfig

/-- How many nodes make a majority. -/
def Roster.quorum (M : Roster) : Nat := M.ids.length / 2 + 1

/-- What a member of a cluster would find after a crash: its record, which a
node that is up has saved. -/
def Slot.record : Slot → Record
  | .up replica => replica.node.record
  | .down storage => storage.record

/-- The node of a member that is up. -/
def Slot.node? : Slot → Option Node
  | .up replica => some replica.node
  | .down _ => none

/-- A cluster at one moment, with all messages that were ever sent. -/
structure World where
  slot : NodeId → Slot
  sent : List InFlight

/-- What can happen to a cluster. Every action at a node that cannot take it
leaves the world as it is. -/
inductive Action where
  /-- A timer of a node fires, due or not. -/
  | timer (member : NodeId) (timer : Timer) (now : Instant) (draw : Nat)
  /-- The message at some position among those ever sent reaches its
  receiver. -/
  | deliver (position : Nat) (now : Instant) (draw : Nat)
  /-- A client asks a node for something. -/
  | request (member : NodeId) (request : Request) (now : Instant)
  /-- A node is asked for the entries it has applied. -/
  | report (member : NodeId)
  | crash (member : NodeId)
  /-- A node that is down starts over its storage. -/
  | restart (member : NodeId) (now : Instant) (draw : Nat)

/-- When an action happens, if it needs a clock. -/
def Action.instant? : Action → Option Instant
  | .timer _ _ now _ => some now
  | .deliver _ now _ => some now
  | .request _ _ now => some now
  | .report _ => none
  | .crash _ => none
  | .restart _ now _ => some now

/-- The messages among the commands that a node gives out. -/
def sends (sender : NodeId) (commands : List Command) : List InFlight :=
  commands.filterMap fun
    | .send receiver message => some { sender, receiver, message }
    | .leadershipLost _ => none

@[simp] theorem sends_nil (i : NodeId) : sends i [] = [] := rfl

@[simp] theorem sends_append (i : NodeId) (a b : List Command) :
    sends i (a ++ b) = sends i a ++ sends i b := List.filterMap_append

@[simp] theorem sends_send (i receiver : NodeId) (message : Message) :
    sends i [.send receiver message] = [⟨i, receiver, message⟩] := rfl

theorem mem_sends {i : NodeId} {said : List Command} {m : InFlight} (h : m ∈ sends i said) :
    m.sender = i ∧ .send m.receiver m.message ∈ said := by
  obtain ⟨command, hc, hm⟩ := List.mem_filterMap.mp h
  cases command with
  | send receiver message =>
      obtain rfl := Option.some.inj hm
      exact ⟨rfl, hc⟩
  | leadershipLost leader? => simp at hm

namespace World

/-- All nodes are down, nothing was ever saved and nothing sent. -/
def start : World := ⟨fun _ => .down {}, []⟩

/-- The record that a node has saved. -/
def record (w : World) (i : NodeId) : Record := (w.slot i).record

/-- A node that is up. -/
def node? (w : World) (i : NodeId) : Option Node := (w.slot i).node?

theorem record_of_up {w : World} {i : NodeId} {replica : Replica MemoryStorage}
    (up : w.slot i = .up replica) : w.record i = replica.node.record :=
  congrArg Slot.record up

theorem exists_up_of_node? {w : World} {i : NodeId} {n : Node} (h : w.node? i = some n) :
    ∃ r, w.slot i = .up r ∧ r.node = n := by
  rw [node?] at h
  cases hslot : w.slot i with
  | up r => exact ⟨r, rfl, by rw [hslot] at h; exact Option.some.inj h⟩
  | down storage => rw [hslot] at h; exact nomatch h

theorem record_of_node? {w : World} {i : NodeId} {n : Node} (h : w.node? i = some n) :
    w.record i = n.record := by
  obtain ⟨replica, up, rfl⟩ := exists_up_of_node? h
  exact record_of_up up

/-- The world after a change of one member. -/
def put (w : World) (i : NodeId) (slot : Slot) : World :=
  { w with slot := Function.update w.slot i slot }

/-- Something happens to a node. One whose deadline would lie beyond the end
of the clock stops there and then, with nothing saved and nothing sent. -/
def handle (w : World) (i : NodeId) (event : Event) (now : Instant) (draw : Nat) : World :=
  match w.slot i with
  | .down _ => w
  | .up replica =>
    match replica.handle event now draw with
    | .error _ => w.put i (.down replica.storage)
    | .ok (replica', result) =>
      { w.put i (.up replica') with sent := w.sent ++ sends i (always result) }

/-- The world after an action. -/
def step (M : Roster) (w : World) : Action → World
  | .timer i timer now draw => w.handle i timer.event now draw
  | .deliver position now draw =>
    match w.sent[position]? with
    | none => w
    | some m => w.handle m.receiver (.message m.sender m.message) now draw
  | .request i request now =>
    match w.slot i with
    | .down _ => w
    | .up replica => w.put i (.up (replica.serve request now).1)
  | .report i =>
    match w.slot i with
    | .down _ => w
    | .up replica => w.put i (.up replica.takeApplied.2)
  | .crash i =>
    match w.slot i with
    | .down _ => w
    | .up replica => w.put i (.down replica.storage)
  | .restart i now draw =>
    match w.slot i with
    | .up _ => w
    | .down storage =>
      if i ∈ M.ids then
        match Replica.boot i (M.peers i) (M.config i) storage now draw with
        | .error _ => w
        | .ok result => w.put i (.up (always result))
      else w

/-- The event that an action brings, and the node that it happens to. -/
def brings (w : World) : Action → Option (NodeId × Event)
  | .timer i timer _ _ => some (i, timer.event)
  | .deliver position _ _ =>
    (w.sent[position]?).map fun m => (m.receiver, .message m.sender m.message)
  | _ => none

/-- A message that an action brings is delivered. -/
theorem deliver_of_brings {w : World} {action : Action} {i sender : NodeId} {message : Message}
    (h : w.brings action = some (i, .message sender message)) :
    ∃ position now draw, action = .deliver position now draw ∧
      w.sent[position]? = some ⟨sender, i, message⟩ := by
  cases action with
  | timer i timer now draw => cases timer <;> exact nomatch h
  | deliver position now draw =>
      obtain ⟨m, hm, heq⟩ := Option.map_eq_some_iff.mp h
      obtain ⟨rfl, hevent⟩ := Prod.mk.inj heq
      obtain ⟨rfl, rfl⟩ := Event.message.inj hevent
      exact ⟨position, now, draw, rfl, hm⟩
  | request i request now => exact nomatch h
  | report i => exact nomatch h
  | crash i => exact nomatch h
  | restart i now draw => exact nomatch h

theorem mem_sent_of_brings {w : World} {action : Action} {i sender : NodeId} {message : Message}
    (h : w.brings action = some (i, .message sender message)) :
    ⟨sender, i, message⟩ ∈ w.sent := by
  obtain ⟨position, _, _, _, hm⟩ := deliver_of_brings h
  exact List.mem_of_getElem? hm

/-- The node `i` is up and leads in the given term. -/
def Leads (w : World) (i : NodeId) (term : Term) : Prop :=
  ∃ n, w.node? i = some n ∧ n.isLeader = true ∧ n.record.currentTerm = term

instance (w : World) (i : NodeId) (term : Term) : Decidable (w.Leads i term) :=
  decidable_of_iff ((w.node? i).any fun n => n.isLeader && n.record.currentTerm == term) (by
    simp [Leads, Option.any_eq_true])

/-- The world after a list of actions, from the beginning. -/
def after (M : Roster) (actions : List Action) : World :=
  actions.foldl (step M) start

theorem after_concat (M : Roster) (actions : List Action) (a : Action) :
    after M (actions ++ [a]) = (after M actions).step M a := by
  rw [after, List.foldl_append]
  rfl

theorem after_take_succ {M : Roster} {actions : List Action} {k : Nat} {a : Action}
    (h : actions[k]? = some a) :
    after M (actions.take (k + 1)) = (after M (actions.take k)).step M a := by
  rw [List.take_add_one, h, Option.toList_some, after_concat]

theorem after_take_of_length_le {M : Roster} {actions : List Action} {k : Nat}
    (h : actions.length ≤ k) : after M (actions.take (k + 1)) = after M (actions.take k) := by
  rw [List.take_of_length_le h, List.take_of_length_le (Nat.le_succ_of_le h)]

/-- No node is in the last term that a word can hold. -/
def InRange (M : Roster) (w : World) : Prop :=
  ∀ i ∈ M.ids, (w.record i).currentTerm < Word.max

instance (M : Roster) (w : World) : Decidable (w.InRange M) :=
  inferInstanceAs (Decidable (∀ i ∈ M.ids, (w.record i).currentTerm < Word.max))

end World

/-- A run of a cluster: what happened, in its order, with no term reaching
the largest word. Terms never fall, so it is enough to look at the end. -/
structure Run (M : Roster) where
  actions : List Action
  inRange : (World.after M actions).InRange M

/-- The state of a run after its first `k` actions, and its last state from
its end on. -/
def Run.state {M : Roster} (r : Run M) (k : Nat) : World :=
  World.after M (r.actions.take k)

theorem Run.state_succ {M : Roster} (r : Run M) {k : Nat} {a : Action}
    (h : r.actions[k]? = some a) : r.state (k + 1) = (r.state k).step M a :=
  World.after_take_succ h

theorem Run.state_of_length_le {M : Roster} (r : Run M) {k : Nat} (h : r.actions.length ≤ k) :
    r.state (k + 1) = r.state k :=
  World.after_take_of_length_le h

end Quorum
