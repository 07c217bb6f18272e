import Quorum.Cluster.Delivery

/-!
# Control of a cluster

What a test does with a cluster: start it, let time pass, fire timers, issue
client commands, cut members off, crash and restart them, and look at the
result.
-/

namespace Quorum.Cluster

/-- The peers of a member in a cluster of the given size. -/
def peersOf (size index : Nat) : List NodeId :=
  (List.range size).filter (· != index)

/-- The replica of a member that starts over its storage. -/
def boot (config : TimerConfig) (size index : Nat) (storage : MemoryStorage) (now : Instant)
    (draw : Nat) : Except Halt (Replica MemoryStorage) :=
  ((Replica.boot index (peersOf size index) config storage now draw).map always).mapError
    Halt.clock

/-- A cluster of followers in term zero. -/
def start (size : Nat) (config : TimerConfig) (draws : Nat → Nat) : Except Halt Cluster := do
  let members ← (List.range size).mapM fun index => do
    return { slot := .up (← boot config size index {} 0 (draws index)) }
  return { config, members, draws, drawn := size }

/-- Lets time pass without firing anything. -/
def advance (c : Cluster) (elapsed : Duration) : Except Halt Cluster := do
  return { c with now := ← (Instant.after c.now elapsed).mapError Halt.clock }

/-- Fires the timers of a member that are due, at most `count` of them. -/
def fireUpTo (index : Nat) : Nat → Cluster → Except Halt Cluster
  | 0, c => return c
  | count + 1, c =>
    match (c.replica? index).bind (·.dueEvent? c.now) with
    | none => return c
    | some event => do fireUpTo index count (← c.handle index event)

/-- How many timers of one member are fired at one instant before it is left
alone. Unless some interval is zero two are enough: one that ends an old
role and one that starts an election. -/
def firings : Nat := 8

/-- Lets time pass, fires every timer that is due, and delivers all
messages. -/
def step (c : Cluster) (elapsed : Duration) : Except Halt Cluster := do
  let c ← c.advance elapsed
  let c ← (List.range c.size).foldlM (fun c index => do
    return (← fireUpTo index firings c).settle index) c
  c.deliverAll

/-- Makes steps, at most `count`, until the goal is reached or the clock has
reached the deadline; tells whether the goal was reached. -/
def runUpTo (goal : Cluster → Bool) (deadline : Instant) (tick : Duration) :
    Nat → Cluster → Except Halt (Cluster × Bool)
  | 0, c => return (c, goal c)
  | count + 1, c =>
    if goal c then return (c, true)
    else if deadline ≤ c.now then return (c, false)
    else do runUpTo goal deadline tick count (← c.step tick)

/-- Makes steps of length `tick` until the goal is reached or `limit` has
passed. With steps of no length the cluster comes to rest at once. -/
def runUntil (c : Cluster) (limit tick : Duration) (goal : Cluster → Bool) :
    Except Halt (Cluster × Bool) := do
  let deadline ← (Instant.after c.now limit).mapError Halt.clock
  runUpTo goal deadline tick (if tick = 0 then firings else limit / tick + 1) c

/-- Lets a member stand for election and delivers what follows; tells whether
it leads. -/
def elect (c : Cluster) (index : Nat) : Except Halt (Cluster × Bool) := do
  let c ← c.handle index .electionTimeout
  let c ← c.deliverAll
  return (c, ((c.node? index).map (·.isLeader)).getD false)

/-- Issues a client command at a member and gives the number of the request.
A member that is down never answers. -/
def serve (c : Cluster) (index : Nat) (text : String) : Cluster × RequestId :=
  let request := c.replies.length
  let c := { c with replies := c.replies ++ [none] }
  match c.replica? index with
  | none => (c, request)
  | some replica =>
    let c := match Request.ofText text with
      | .ok command => c.offer index request command
      | .error e => c.answer request (.fail e.message replica.node.leader?)
    (c.settle index, request)

/-- Loses all messages from and to a member from now on. -/
def isolate (c : Cluster) (index : Nat) : Cluster :=
  { c with isolated := c.isolated.insert index }

/-- Lets the messages of a member through again. -/
def heal (c : Cluster) (index : Nat) : Cluster :=
  { c with isolated := c.isolated.filter (· != index) }

/-- Crashes a member. Its storage survives; its clients never hear back. -/
def crash (c : Cluster) (index : Nat) : Except Halt Cluster :=
  match c.members[index]? with
  | none => .error (.noMember c.size index)
  | some m =>
    let storage := match m.slot with
      | .up replica => replica.storage
      | .down storage => storage
    .ok (c.modify index fun _ => { slot := .down storage })

/-- Starts a member that is down over what its storage holds. -/
def restart (c : Cluster) (index : Nat) : Except Halt Cluster :=
  match c.members[index]? with
  | none => .error (.noMember c.size index)
  | some ⟨.up _, _, _⟩ => return c
  | some ⟨.down storage, _, _⟩ => do
    let replica ← boot c.config c.size index storage c.now (c.draws c.drawn)
    return { c.setReplica index replica with drawn := c.drawn + 1 }

/-- The leader of the highest term, the last one if several members lead
it. -/
def leader? (c : Cluster) : Option Nat :=
  let better (best : Option (Nat × Term)) (index : Nat) : Option (Nat × Term) :=
    match c.node? index with
    | none => best
    | some n =>
      if !n.isLeader then best
      else
        match best with
        | none => some (index, n.record.currentTerm)
        | some (_, term) =>
          if term ≤ n.record.currentTerm then some (index, n.record.currentTerm) else best
  ((List.range c.size).foldl better none).map (·.1)

/-- The nodes of the members that are up, in the order of the members. -/
def nodes (c : Cluster) : List Node :=
  (List.range c.size).filterMap c.node?

/-- How many of the members that are up follow, how many stand for election,
and how many lead. -/
def roleCounts (c : Cluster) : Nat × Nat × Nat :=
  (c.nodes.countP (fun n => n.role matches .follower _),
    c.nodes.countP (fun n => n.role matches .candidate _),
    c.nodes.countP (fun n => n.role matches .leader _))

end Quorum.Cluster
