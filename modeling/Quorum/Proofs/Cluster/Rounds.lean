import Quorum.Proofs.Cluster.Mandate

/-!
# Steps of a cluster with a leader in touch

A step lets time pass, fires the timers that are due and delivers all
messages. With a leader at rest it either changes nothing that matters, or it
is the step in which the leader's next round begins, and is over again when
nothing is under way any more (`Mandate.Resting.step`).
-/

namespace Quorum

namespace Node

variable {n : Node} {l : Leader} {p i : NodeId} {sent : LogIndex}

/-- What goes between a leader and one of its peers in a round is one
request. -/
theorem traffic_roundRequests (nodup : n.peers.Nodup) (hi : i ∉ n.peers) (hp : p ∈ n.peers)
    (row : l.sentTo? p = some sent) :
    traffic i p (sends i (n.roundRequests l)) =
      [⟨i, p, .appendRequest (n.requestBehind l sent)⟩] := by
  have hall : ∀ peers : List NodeId, peers.Nodup → i ∉ peers →
      traffic i p (sends i (peers.filterMap fun peer =>
        (n.appendRequestFor? l peer).map fun request => .send peer (.appendRequest request))) =
      if p ∈ peers then [⟨i, p, .appendRequest (n.requestBehind l sent)⟩] else [] := by
    intro peers
    induction peers with
    | nil => exact fun _ _ => rfl
    | cons peer rest ih =>
        intro hnodup hno
        obtain ⟨hpeer, hrest⟩ := List.nodup_cons.mp hnodup
        obtain ⟨hne, hno⟩ : i ≠ peer ∧ i ∉ rest := by simpa using hno
        have ih := ih hrest hno
        rw [List.filterMap_cons]
        by_cases hp : peer = p
        · subst hp
          rw [if_neg hpeer] at ih
          rw [appendRequestFor?_eq row, Option.map_some, if_pos List.mem_cons_self]
          simp only []
          rw [← List.singleton_append, sends_append, traffic_append, ih, List.append_nil]
          simp [traffic]
        · have hmem : p ∈ peer :: rest ↔ p ∈ rest := by simp [Ne.symm hp]
          simp only [hmem]
          cases n.appendRequestFor? l peer with
          | none => exact ih
          | some q =>
              rw [Option.map_some]
              simp only []
              rw [← List.singleton_append, sends_append, traffic_append, ih]
              have hother : traffic i p (sends i [.send peer (.appendRequest q)]) = [] := by
                simp [traffic, hp, hne.symm]
              rw [hother, List.nil_append]
  have hrequests := hall n.peers nodup hi
  rwa [if_pos hp] at hrequests

end Node

namespace Mandate

open Cluster

variable {M : Mandate} {c c' : Cluster} {start : Instant} {lag : Nat} {i : Nat} {n n' : Node}
  {inv : Cluster → Prop}

/-! ## Timers -/

theorem due_eq (c : Cluster) (i : Nat) :
    ((c.replica? i).bind (·.dueEvent? c.now)) =
      (c.node? i).bind fun n => (n.dueTimer? c.now).map Timer.event := by
  rw [node?]
  cases c.replica? i <;> rfl

theorem fireUpTo_of_not_due (h : ∀ n, c.node? i = some n → n.dueTimer? c.now = none)
    (count : Nat) : fireUpTo i count c = .ok c := by
  cases count with
  | zero => rfl
  | succ count =>
      unfold fireUpTo
      rw [due_eq]
      cases hn : c.node? i with
      | none => rfl
      | some n =>
          rw [Option.bind_some, h n hn]
          rfl

/-- A member that is cut off takes any timer. -/
theorem Robust.timer (robust : M.Robust inv) (h : inv c) (cut : i ∈ c.isolated) (timer : Timer) :
    Ensures (c.now + M.config.longest < Instant.limit) (c.handle i timer.event) fun c' =>
      inv c' ∧ i ∈ c'.isolated ∧ c'.now = c.now := by
  refine handle_ensures (fun _ => ⟨h, cut, rfl⟩) fun n draw hn => ?_
  obtain ⟨hground, k, hk⟩ := robust.ground c h
  have hid : n.id = i := (hground.seated i n hn).1
  constructor
  · intro (n', commands) hnode c₁ c₂ hstruck htended
    have hown : ∀ m ∈ sends n.id commands, m.sender = i := fun m hm => (mem_sends hm).1.trans hid
    have h₁ := robust.aside c c₁ i n n' _ h cut hn (Node.handle_deeds hnode).frame hown hstruck
    refine ⟨robust.tended c₁ c₂ h₁ htended, ?_, htended.now.trans hstruck.now⟩
    rw [htended.isolated, hstruck.isolated]
    exact cut
  · intro hreach
    have hpeer : M.leader ∈ n.peers :=
      hground.seated.mem_peers hn hk fun heq => hground.reachable (heq ▸ cut)
    exact Node.timer_returns (hground.node_config hn ▸ hreach) timer (List.ne_nil_of_mem hpeer)

theorem Robust.fireUpTo (robust : M.Robust inv) : ∀ count c, inv c → i ∈ c.isolated →
    Ensures (c.now + M.config.longest < Instant.limit) (fireUpTo i count c) fun c' =>
      inv c' ∧ c'.now = c.now := by
  intro count
  induction count with
  | zero => exact fun c h _ => .pure ⟨h, rfl⟩
  | succ count ih =>
      intro c h cut
      unfold Cluster.fireUpTo
      rw [due_eq]
      cases hdue : (c.node? i).bind fun n => (n.dueTimer? c.now).map Timer.event with
      | none => exact .pure ⟨h, rfl⟩
      | some event =>
          obtain ⟨n, _, hn⟩ := Option.bind_eq_some_iff.mp hdue
          obtain ⟨timer, _, rfl⟩ := Option.map_eq_some_iff.mp hn
          refine (robust.timer h cut timer).bind fun c₁ h₁ => ?_
          obtain ⟨hinv, hcut, hnow⟩ := h₁
          refine ((ih c₁ hinv hcut).weaken fun hreach => hnow ▸ hreach).mono fun c' h' => ?_
          exact ⟨h'.1, h'.2.trans hnow⟩

/-- What a step does at one member before it delivers anything. -/
def turn (c : Cluster) (i : Nat) : Except Halt Cluster := do
  return (← fireUpTo i firings c).settle i

/-- Where no member that can be reached has a timer due, its turn changes
nothing that is robust. -/
theorem Robust.turn (robust : M.Robust inv) (h : inv c)
    (idle : ∀ n, i ∉ c.isolated → c.node? i = some n → n.dueTimer? c.now = none) :
    Ensures (c.now + M.config.longest < Instant.limit) (turn c i) fun c' =>
      inv c' ∧ c'.now = c.now := by
  have hfired : Ensures (c.now + M.config.longest < Instant.limit) (Cluster.fireUpTo i firings c)
      fun c' => inv c' ∧ c'.now = c.now := by
    by_cases cut : i ∈ c.isolated
    · exact robust.fireUpTo firings c h cut
    · rw [fireUpTo_of_not_due (fun n => idle n cut)]
      exact .pure ⟨h, rfl⟩
  exact hfired.bind fun c₁ h₁ => .pure ⟨robust.tended _ _ h₁.1 (settle_tended c₁ i),
    (settle_tended c₁ i).now.trans h₁.2⟩

theorem dueTimer?_of_inOffice {lead : Leader} {now : Instant} (office : n.InOffice lead start)
    (lasts : now < lead.lease.expiresAt) (early : now < start + n.config.heartbeat) :
    n.dueTimer? now = none := by
  rw [Node.dueTimer?, office.role]
  have hexpired : lead.lease.isExpired now = false := decide_eq_false (Nat.not_le.mpr lasts)
  have hheartbeat : ¬ lead.heartbeatAt ≤ now := by
    rw [office.heartbeatAt]
    exact Nat.not_le.mpr early
  simp [hexpired, hheartbeat]

theorem dueTimer?_of_calm {term : Term} {dawn now : Instant} (calm : n.Calm term dawn)
    (early : now < dawn) : n.dueTimer? now = none := by
  obtain ⟨f, hrole, hdawn⟩ := calm.follows
  rw [Node.dueTimer?, hrole]
  exact if_neg (Nat.not_le.mpr (Nat.lt_of_lt_of_le early hdawn))

theorem heartbeat_le_periods (M : Mandate) (lag : Nat) :
    M.config.heartbeat ≤ (lag + 1) * M.period :=
  Nat.le_trans M.inTime.heartbeat_le_period (Nat.le_mul_of_pos_left _ (Nat.succ_pos lag))

theorem next_period (M : Mandate) (lag : Nat) :
    (lag + 1) * M.period = M.period + lag * M.period := by
  rw [Nat.succ_mul, Nat.add_comm]

theorem Resting.not_due_of_ne (h : M.Resting start lag c) (hi : i ≠ M.leader)
    (heard : i ∉ c.isolated) (hn : c.node? i = some n)
    (early : c.now < start + M.config.electionMin) : n.dueTimer? c.now = none :=
  dueTimer?_of_calm (h.calm i n hi hn heard) early

theorem Resting.not_due (h : M.Resting start lag c) (heard : i ∉ c.isolated)
    (hn : c.node? i = some n) (early : c.now < start + M.config.heartbeat) :
    n.dueTimer? c.now = none := by
  by_cases hi : i = M.leader
  · subst hi
    obtain ⟨k, lead, hk, _, hoffice, hlasts, _⟩ := h.leads
    obtain rfl := Option.some.inj (hn.symm.trans hk)
    have hconfig : n.config = M.config := h.ground.node_config hn
    refine dueTimer?_of_inOffice hoffice (Nat.lt_trans ?_ hlasts) (hconfig ▸ early)
    exact Nat.lt_of_lt_of_le early (Nat.add_le_add_left (M.heartbeat_le_periods lag) start)
  · refine h.not_due_of_ne hi heard hn (Nat.lt_of_lt_of_le early (Nat.add_le_add_left ?_ start))
    exact Nat.le_trans (Nat.le_add_right _ M.tick) M.inTime.election

theorem Rallying.not_due (h : M.Rallying lag c) (heard : i ∉ c.isolated)
    (hn : c.node? i = some n) : n.dueTimer? c.now = none := by
  by_cases hi : i = M.leader
  · subst hi
    obtain ⟨k, lead, hk, _, hoffice, _, hlasts, _⟩ := h.engaged
    obtain rfl := Option.some.inj (hn.symm.trans hk)
    have hconfig : n.config = M.config := h.ground.node_config hn
    refine dueTimer?_of_inOffice hoffice (Nat.lt_of_le_of_lt (Nat.le_add_right _ _) hlasts) ?_
    rw [hconfig]
    exact Nat.lt_add_of_pos_right M.inTime.beats
  · obtain ⟨dawn, hcalm, hbefore, _⟩ := h.calm i n hi hn heard
    exact dueTimer?_of_calm hcalm hbefore

/-! ## The round begins -/

theorem Resting.traffic_eq_nil {p : NodeId} (h : M.Resting start lag c) (hp : p ∈ M.backers) :
    traffic M.leader p c.inFlight = [] :=
  Quorum.traffic_eq_nil fun m hm =>
    ⟨fun heq => h.ground.reachable (heq ▸ h.quiet m hm),
      fun heq => h.ground.backed p hp (heq ▸ h.quiet m hm)⟩

section beat

variable {draw : Nat} {commands : List Command}
  (h : M.Resting start lag c) (due : c.now = start + M.period) (hn : c.node? M.leader = some n)

include h due hn

/-- All backers are asked. -/
theorem Resting.engaged
    (hnode : n.handle .heartbeatTimeout c.now draw = .ok (n', commands))
    (struck : c.Struck M.leader n' (sends M.leader commands) c') : M.Engaged lag c' := by
  obtain ⟨k, lead, hk, hterm, hoffice, hlasts, hbackers⟩ := h.leads
  obtain rfl := Option.some.inj (hn.symm.trans hk)
  obtain ⟨lead', hoffice', hrenewed, hexpires, hrows, hterm', hlog, rfl⟩ :=
    Node.heartbeat_cases hoffice hnode
  refine ⟨n', lead', struck.self, hterm'.trans hterm, struck.now ▸ hoffice', ?_, ?_, ?_⟩
  · rw [Node.quorum, Node.clusterSize, (Node.handle_deeds hnode).frame.peers]
    exact hrenewed
  · rw [struck.now, due, Nat.add_assoc, ← M.next_period lag]
    exact Nat.lt_of_lt_of_le hlasts hexpires
  · intro p hp
    obtain ⟨m, sent, hm, hrow, hlags⟩ := hbackers p hp
    have hne : p ≠ M.leader := fun heq => M.others (heq ▸ hp)
    have hrow' : lead'.sentTo? p = some sent := (hrows p).trans hrow
    have hrequest := Node.traffic_roundRequests (h.ground.seated.nodup_peers hn)
      (h.ground.seated.not_mem_peers hn) (h.ground.seated.mem_peers hn hm hne) hrow'
    refine ⟨m, (struck.others p hne).trans hm, ?_⟩
    rw [struck.inFlight, traffic_append, h.traffic_eq_nil hp, List.nil_append, hrequest, hlog]
    exact .asked List.prefix_rfl hrow' hlags rfl rfl rfl rfl

/-- What a leader at rest becomes when its heartbeat fires in time. -/
theorem Resting.rallying
    (hnode : n.handle .heartbeatTimeout c.now draw = .ok (n', commands))
    (struck : c.Struck M.leader n' (sends n.id commands) c') : M.Rallying lag c' := by
  have hframe := (Node.handle_deeds hnode).frame
  rw [(h.ground.seated _ n hn).1] at struck
  have hengaged := h.engaged due hn hnode struck
  obtain ⟨k, lead, hk, hterm, hoffice, _⟩ := h.leads
  obtain rfl := Option.some.inj (hn.symm.trans hk)
  obtain ⟨lead', hoffice', _, _, _, _, _, rfl⟩ := Node.heartbeat_cases hoffice hnode
  refine ⟨h.ground.struck hn hframe struck, hengaged, ?_, ?_⟩
  · -- everybody else is asked, and stays calm for longer than a period
    intro p m hp hm heard
    have hm : c.node? p = some m := (struck.others p hp).symm.trans hm
    have hpeer := h.ground.seated.mem_peers hn hm hp
    obtain ⟨sent, hrow⟩ := hoffice'.rows p (hframe.peers ▸ hpeer)
    refine ⟨_, h.calm p m hp hm (struck.isolated ▸ heard), ?_,
      .inl ⟨n.requestBehind lead' sent, hterm, ?_⟩⟩
    · rw [struck.now, due]
      exact Nat.add_lt_add_left M.inTime.period_lt_electionMin start
    · rw [struck.inFlight]
      exact List.mem_append_right _
        (List.mem_filterMap.mpr ⟨_, Node.mem_roundRequests hpeer hrow, rfl⟩)
  · intro m hm heard
    rw [struck.inFlight] at hm
    rw [struck.isolated] at heard
    rcases List.mem_append.mp hm with hm | hm
    · exact absurd (h.quiet m hm) heard
    · obtain ⟨p, hp, sent, _, rfl⟩ := Node.exists_of_mem_roundRequests hm
      refine .inl ⟨rfl, ?_, _, rfl, hterm, ?_⟩
      · exact fun heq => h.ground.seated.not_mem_peers hn (heq ▸ hp)
      · exact congrArg TimerConfig.lease (h.ground.node_config hn)

end beat

/-- The turn of a leader whose next round is due. -/
theorem Resting.beat (h : M.Resting start lag c) (due : c.now = start + M.period) :
    Ensures (c.now + M.config.longest < Instant.limit) (turn c M.leader) fun c' =>
      M.Rallying lag c' ∧ c'.now = c.now := by
  obtain ⟨n, lead, hn, _, hoffice, hlasts, _⟩ := h.leads
  have hconfig : n.config = M.config := h.ground.node_config hn
  have hdue : n.dueTimer? c.now = some .heartbeat := by
    have hexpired : lead.lease.isExpired c.now = false := by
      refine decide_eq_false (Nat.not_le.mpr (Nat.lt_of_le_of_lt ?_ hlasts))
      rw [due, M.next_period]
      exact Nat.add_le_add_left (Nat.le_add_right _ _) start
    have hheartbeat : lead.heartbeatAt ≤ c.now := by
      rw [hoffice.heartbeatAt, hconfig, due]
      exact Nat.add_le_add_left M.inTime.heartbeat_le_period start
    rw [Node.dueTimer?, hoffice.role]
    simp [hexpired, hheartbeat]
  have hfired : Ensures (c.now + M.config.longest < Instant.limit)
      (c.handle M.leader .heartbeatTimeout) fun c' => M.Rallying lag c' ∧ c'.now = c.now := by
    refine handle_ensures (fun hdown => nomatch hn.symm.trans hdown) fun k draw hk => ?_
    obtain rfl := Option.some.inj (hn.symm.trans hk)
    refine ⟨fun (n', commands) hnode c₁ c₂ hstruck htended => ?_, fun hreach => ?_⟩
    · exact ⟨(h.rallying due hn hnode hstruck).tended htended, htended.now.trans hstruck.now⟩
    · exact Node.heartbeat_returns (hconfig ▸ hreach) hoffice
  have hturn : Ensures (c.now + M.config.longest < Instant.limit)
      (Cluster.fireUpTo M.leader firings c) fun c' => M.Rallying lag c' ∧ c'.now = c.now := by
    unfold firings Cluster.fireUpTo
    rw [due_eq, hn, Option.bind_some, hdue]
    refine hfired.bind fun c₁ h₁ => ?_
    rw [fireUpTo_of_not_due (fun k hk => h₁.1.not_due h₁.1.ground.reachable hk)]
    exact .pure h₁
  exact hturn.bind fun c₁ h₁ => .pure ⟨h₁.1.tended (settle_tended c₁ M.leader),
    (settle_tended c₁ M.leader).now.trans h₁.2⟩

end Mandate

end Quorum
