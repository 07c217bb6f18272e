import Quorum.Proofs.Run.Schedule

/-!
# Campaigns

A campaign of a node begins with the step in which it stands for election and
ends with the step in which it wins; in between it counts votes. Whoever
becomes a leader has gone through one (`Schedule.exists_campaign`), every vote
in its tally was counted on the way (`Campaign.votes_counted`), and what it
was told then it awaits as a leader (`Campaign.awaits_counted`).
-/

namespace Quorum

/-- A node does one of three things at a time: it leads, it counts votes, or it
stands for nothing. -/
theorem Node.idle_or_busy (n : Node) :
    n.Idle ∨ (∃ c, n.role = .candidate c ∧ c.tallying = true) ∨ ∃ l, n.role = .leader l := by
  cases hrole : n.role with
  | follower f => exact .inl (.of_follower hrole)
  | candidate c =>
      cases htallying : c.tallying with
      | false => exact .inl (.of_candidate hrole htallying)
      | true => exact .inr (.inl ⟨c, rfl, htallying⟩)
  | leader l => exact .inr (.inr ⟨l, rfl⟩)

namespace Schedule

variable {M : Roster} {s : Schedule M} {b v : NodeId} {n n' : Node} {c : Candidate} {l : Leader}
  {h i j k : Nat} {ending : Instant}

/-- After `k` steps the node counts votes, with the given tally. -/
def Polls (s : Schedule M) (k : Nat) (b : NodeId) (c : Candidate) : Prop :=
  ∃ n, (s.state k).node? b = some n ∧ n.role = .candidate c ∧ c.tallying = true

/-- In step `i` a vote reaches node `b` that `v` has granted it in step `h`, for
the term that `b` is in. -/
def Counts (s : Schedule M) (b : NodeId) (i : Nat) (v : NodeId) (h : Nat) : Prop :=
  ∃ position now draw r, s.actions[i]? = some (.deliver position now draw) ∧
    (s.state i).sent[position]? = some ⟨v, b, .voteReply r⟩ ∧ r.granted = true ∧
    r.term = ((s.state i).record b).currentTerm ∧
    (s.state h).sent.length ≤ position ∧ position < (s.state (h + 1)).sent.length

/-- Node `b` stands for election in step `j`, counts votes from then on, and
wins in step `k`. -/
structure Campaign (s : Schedule M) (b : NodeId) (j k : Nat) : Prop where
  le : j ≤ k
  idle : ∃ n, (s.state j).node? b = some n ∧ n.Idle
  counting : ∀ i, j < i → i ≤ k → ∃ c, s.Polls i b c
  won : ∃ n l, (s.state (k + 1)).node? b = some n ∧ n.role = .leader l

/-! ## What one step does -/

/-- A step brings at most one vote. -/
theorem told_unique (s : Schedule M) (k : Nat) (b : NodeId) (voter : NodeId) (r : VoteReply)
    (voter' : NodeId) (r' : VoteReply) (told : s.brings k = some (b, .message voter (.voteReply r)))
    (told' : s.brings k = some (b, .message voter' (.voteReply r'))) : r = r' := by
  obtain ⟨-, hevent⟩ := Prod.mk.inj (Option.some.inj (told.symm.trans told'))
  exact Message.voteReply.inj (Event.message.inj hevent).2

theorem polled_succ (hn : (s.state k).node? b = some n) (role : n.role = .candidate c)
    (tallying : c.tallying = true) (hn' : (s.state (k + 1)).node? b = some n') :
    Node.Polled (s.clock (k + 1))
      (fun voter r => s.brings k = some (b, .message voter (.voteReply r))) n c n' := by
  rcases s.node_cases hn hn' with ⟨event, draw, m, commands, hbrings, handled, same⟩ |
    ⟨hnone, same⟩
  · refine (Node.handle_polled handled role tallying).congr (fun voter r => ?_) same
    rw [hbrings]
    exact ⟨fun h => h ▸ rfl, fun h => (Prod.mk.inj (Option.some.inj h)).2⟩
  · exact .still ((congrArg Timing.role same).trans role) (congrArg Timing.term same)
      fun voter r told => absurd told (hnone _)

theorem stood_succ (hn : (s.state k).node? b = some n) (idle : n.Idle)
    (hn' : (s.state (k + 1)).node? b = some n') : n'.Idle ∨ n.Stood (s.clock (k + 1)) n' := by
  rcases s.node_cases hn hn' with ⟨event, draw, m, commands, _, handled, same⟩ | ⟨_, same⟩
  · exact (Node.handle_stood handled idle).imp
      (fun idle => idle.of_role (congrArg Timing.role same)) fun stood => stood.congr same
  · exact .inl (idle.of_role (congrArg Timing.role same))

theorem leader_succ (hn : (s.state k).node? b = some n) (role : n.role = .leader l)
    (hn' : (s.state (k + 1)).node? b = some n') : n'.Idle ∨ ∃ l', n'.role = .leader l' := by
  rcases s.node_cases hn hn' with ⟨event, draw, m, commands, _, handled, same⟩ | ⟨_, same⟩
  · have hrole : n'.role = m.role := congrArg Timing.role same
    exact (Node.handle_leader handled role).imp (fun idle => idle.of_role hrole)
      fun ⟨l', role'⟩ => ⟨l', hrole.trans role'⟩
  · exact .inr ⟨l, (congrArg Timing.role same).trans role⟩

/-- Whoever counts votes or leads was up before. -/
theorem up_of_busy (hn' : (s.state (k + 1)).node? b = some n') (busy : ¬ n'.Idle) :
    ∃ n, (s.state k).node? b = some n := by
  cases hn : (s.state k).node? b with
  | some n => exact ⟨n, rfl⟩
  | none =>
      obtain ⟨action, hbeat, _⟩ := s.exists_beat k
      obtain ⟨f, role⟩ := hbeat.follower_of_down hn hn'
      exact absurd (Node.Idle.of_follower role) busy

/-- A vote that reaches a node in the node's own term, and grants it, counts. -/
theorem counts_of_told {r : VoteReply} (hn : (s.state i).node? b = some n)
    (told : s.brings i = some (b, .message v (.voteReply r)))
    (current : r.term = n.record.currentTerm) (granted : r.granted = true) :
    ∃ h, s.Counts b i v h := by
  obtain ⟨action, haction, hbrings⟩ := Option.bind_eq_some_iff.mp told
  obtain ⟨position, now, draw, rfl, hsent⟩ := World.deliver_of_brings hbrings
  obtain ⟨hp, _⟩ := List.getElem?_eq_some_iff.mp hsent
  obtain ⟨h, _, hbefore, hafter⟩ := s.exists_sent hp
  exact ⟨h, position, now, draw, r, haction, hsent, granted,
    current.trans (congrArg Record.currentTerm (World.record_of_node? hn)).symm, hbefore, hafter⟩

/-! ## How a campaign begins -/

theorem Polls.busy (hp : s.Polls k b c) : ∃ n, (s.state k).node? b = some n ∧ ¬ n.Idle := by
  obtain ⟨n, hn, role, tallying⟩ := hp
  exact ⟨n, hn, fun idle => nomatch (idle.2 c role).symm.trans tallying⟩

/-- Who counts votes has stood for election. -/
theorem Polls.exists_start (hp : s.Polls k b c) :
    ∃ j < k, (∃ n, (s.state j).node? b = some n ∧ n.Idle) ∧
      ∀ i, j < i → i ≤ k → ∃ c, s.Polls i b c := by
  -- back to the last state in which it stood for nothing
  induction k generalizing c with
  | zero =>
      obtain ⟨n, hn, _⟩ := hp
      exact nomatch hn
  | succ k ih =>
      obtain ⟨n', hn', busy⟩ := hp.busy
      obtain ⟨n, hn⟩ := up_of_busy hn' busy
      rcases n.idle_or_busy with idle | ⟨c', role, tallying⟩ | ⟨l, role⟩
      · refine ⟨k, Nat.lt_succ_self k, ⟨n, hn, idle⟩, fun i hki hik => ?_⟩
        obtain rfl := Nat.le_antisymm hik hki
        exact ⟨c, hp⟩
      · obtain ⟨j, hjk, hidle, hall⟩ := ih ⟨n, hn, role, tallying⟩
        refine ⟨j, Nat.lt_succ_of_lt hjk, hidle, fun i hji hik => ?_⟩
        rcases Nat.lt_or_eq_of_le hik with hlt | rfl
        · exact hall i hji (Nat.le_of_lt_succ hlt)
        · exact ⟨c, hp⟩
      · -- a leader does not count votes in the next step
        rcases s.leader_succ hn role hn' with idle | ⟨l', role'⟩
        · exact absurd idle busy
        · obtain ⟨m, hm, hcandidate, _⟩ := hp
          obtain rfl := Option.some.inj (hm.symm.trans hn')
          exact nomatch hcandidate.symm.trans role'

/-- Whoever comes to lead has gone through a campaign. -/
theorem exists_campaign (hn' : (s.state (k + 1)).node? b = some n') (role' : n'.role = .leader l)
    (before : ∀ n, (s.state k).node? b = some n → n.isLeader = false) :
    ∃ j, s.Campaign b j k := by
  obtain ⟨n, hn⟩ := up_of_busy hn' fun idle => idle.not_leader role'
  rcases n.idle_or_busy with idle | ⟨c, role, tallying⟩ | ⟨l₀, role⟩
  · exact ⟨k, Nat.le_refl k, ⟨n, hn, idle⟩, fun i hki hik => absurd hki (Nat.not_lt.mpr hik),
      n', l, hn', role'⟩
  · obtain ⟨j, hjk, hidle, hall⟩ := Polls.exists_start ⟨n, hn, role, tallying⟩
    exact ⟨j, Nat.le_of_lt hjk, hidle, hall, n', l, hn', role'⟩
  · exact nomatch (before n hn).symm.trans (Node.isLeader_iff.mpr ⟨l₀, role⟩)

namespace Campaign

variable (hc : s.Campaign b j k)

include hc

theorem busy (hji : j < i) (hik : i ≤ k + 1) :
    ∃ n, (s.state i).node? b = some n ∧ ¬ n.Idle := by
  rcases Nat.lt_or_eq_of_le hik with hlt | rfl
  · obtain ⟨c, hp⟩ := hc.counting i hji (Nat.le_of_lt_succ hlt)
    exact hp.busy
  · obtain ⟨n, l, hn, role⟩ := hc.won
    exact ⟨n, hn, fun idle => idle.not_leader role⟩

theorem lt_of_polls (hp : s.Polls k b c) : j < k := by
  refine Nat.lt_of_le_of_ne hc.le fun heq => ?_
  subst heq
  obtain ⟨n, hn, busy⟩ := hp.busy
  obtain ⟨n₀, hn₀, idle⟩ := hc.idle
  exact busy (Option.some.inj (hn₀.symm.trans hn) ▸ idle)

/-! ## What a campaign awaits -/

/-- In every step of a campaign after the first the node goes on counting
votes, or wins. -/
theorem polled (hji : j < i) (hik : i ≤ k) (hn' : (s.state (i + 1)).node? b = some n') :
    ¬ n'.Idle ∧ ∃ n c, (s.state i).node? b = some n ∧ n.role = .candidate c ∧
      Node.Polled (s.clock (i + 1))
        (fun voter r => s.brings i = some (b, .message voter (.voteReply r))) n c n' := by
  obtain ⟨m, hm, busy⟩ := hc.busy (Nat.lt_succ_of_lt hji) (Nat.succ_le_succ hik)
  obtain rfl := Option.some.inj (hm.symm.trans hn')
  obtain ⟨c, n, hn, role, tallying⟩ := hc.counting i hji hik
  exact ⟨busy, n, c, hn, role, s.polled_succ hn role tallying hn'⟩

/-- What is awaited in a campaign is awaited after its next step. -/
theorem awaits_succ (hji : j < i) (hik : i ≤ k) (hn : (s.state i).node? b = some n)
    (haw : n.timing.Awaits (s.clock i) ending) (hn' : (s.state (i + 1)).node? b = some n') :
    n'.timing.Awaits (s.clock (i + 1)) ending := by
  obtain ⟨busy, n₀, c, hn₀, role, hpolled⟩ := hc.polled hji hik hn'
  obtain rfl := Option.some.inj (hn₀.symm.trans hn)
  have hknown : ending ≤ s.clock (i + 1) + c.priorLease :=
    calc ending ≤ s.clock i + c.priorLease := haw.candidate c role
      _ ≤ s.clock (i + 1) + c.priorLease := Nat.add_le_add_right (s.clock_le_succ i) _
  exact hpolled.awaits busy (.inl hknown) (s.told_unique i b)

/-- What is awaited at some time of a campaign is awaited from then on, by the
winner in the end. -/
theorem awaits {p : Nat} (hji : j < i) (hip : i ≤ p) (hpk : p ≤ k + 1)
    (hn : (s.state i).node? b = some n) (haw : n.timing.Awaits (s.clock i) ending)
    (hn' : (s.state p).node? b = some n') : n'.timing.Awaits (s.clock p) ending := by
  induction hip generalizing n' with
  | refl =>
      obtain rfl := Option.some.inj (hn.symm.trans hn')
      exact haw
  | @step p hip ih =>
      have hjp : j < p := Nat.lt_of_lt_of_le hji hip
      have hpk : p ≤ k := Nat.le_of_succ_le_succ hpk
      obtain ⟨n₁, hn₁, _⟩ := hc.busy hjp (Nat.le_succ_of_le hpk)
      exact hc.awaits_succ hjp hpk hn₁ (ih (Nat.le_succ_of_le hpk) hn₁) hn'

/-- The winner awaits the end of the leases that it knew of when it stood. -/
theorem awaits_own (hn : (s.state j).node? b = some n)
    (hwon : (s.state (k + 1)).node? b = some n') :
    n'.timing.Awaits (s.clock (k + 1)) n.priorLease.endsAt := by
  obtain ⟨n₁, hn₁, busy⟩ := hc.busy (Nat.lt_succ_self j) (Nat.succ_le_succ hc.le)
  obtain ⟨n₀, hn₀, idle⟩ := hc.idle
  obtain rfl := Option.some.inj (hn₀.symm.trans hn)
  have hstood := (s.stood_succ hn₀ idle hn₁).resolve_left busy
  exact hc.awaits (Nat.lt_succ_self j) (Nat.succ_le_succ hc.le) (Nat.le_refl _) hn₁
    hstood.awaits hwon

/-- The winner awaits the end of the leases that a voter knew of when it
granted a vote that was counted. -/
theorem awaits_counted (hji : j < i) (hik : i ≤ k) (hcounts : s.Counts b i v h)
    (hwon : (s.state (k + 1)).node? b = some n') :
    ∃ m, (s.state (h + 1)).node? v = some m ∧
      n'.timing.Awaits (s.clock (k + 1)) m.priorLease.endsAt := by
  obtain ⟨position, now, draw, r, haction, hsent, granted, hterm, hbefore, hafter⟩ := hcounts
  obtain ⟨hlt, replica, event, draw', m, commands, handled, hsaid, hvoter⟩ :=
    s.said hsent hbefore hafter
  refine ⟨_, hvoter, ?_⟩
  have hestimate : (replica.settle m).node.priorLease.endsAt = m.priorLease.endsAt :=
    congrArg Timing.estimate (replica.settle_timing m)
  -- the vote tells what was left of the lease, and the clock has gone on since
  have hdelay : s.clock (h + 1) ≤ s.clock (i + 1) :=
    s.clock_mono (Nat.succ_le_succ (Nat.le_of_lt hlt))
  have htold : m.priorLease.endsAt ≤ s.clock (i + 1) + r.priorLease :=
    calc m.priorLease.endsAt ≤ s.clock (h + 1) + r.priorLease :=
          Node.handle_granted handled hsaid granted
      _ ≤ s.clock (i + 1) + r.priorLease := Nat.add_le_add_right hdelay _
  have hbrings : s.brings i = some (b, .message v (.voteReply r)) := by
    rw [brings, haction, Option.bind_some, World.brings, hsent]
    rfl
  obtain ⟨n₁, hn₁, _⟩ := hc.busy (Nat.lt_succ_of_lt hji) (Nat.succ_le_succ hik)
  obtain ⟨busy, n, c, hn, role, hpolled⟩ := hc.polled hji hik hn₁
  have hcurrent : r.term = n.record.currentTerm :=
    hterm.trans (congrArg Record.currentTerm (World.record_of_node? hn))
  have hawaits := hpolled.awaits busy (.inr ⟨v, r, hbrings, hcurrent, granted, htold⟩)
    (s.told_unique i b)
  rw [hestimate]
  exact hc.awaits (Nat.lt_succ_of_lt hji) (Nat.succ_le_succ hik) (Nat.le_refl _) hn₁ hawaits hwon

/-- Every vote in the tally of a campaign is the node's own or was counted. -/
theorem votes_counted (hji : j < i) (hik : i ≤ k) (hp : s.Polls i b c) (hv : v ∈ c.votes) :
    v = b ∨ ∃ i' h, j < i' ∧ i' < i ∧ s.Counts b i' v h := by
  -- it begins with its own vote, and a step adds no other than the one it brings
  induction hji generalizing c with
  | refl =>
      obtain ⟨n', hn', role, tallying⟩ := hp
      obtain ⟨n, hn, idle⟩ := hc.idle
      rcases s.stood_succ hn idle hn' with idle' | stood
      · exact nomatch (idle'.2 c role).symm.trans tallying
      · cases stood with
        | counting role' tallying' votes prior =>
            obtain rfl := Role.candidate.inj (role.symm.trans role')
            rw [votes, s.id_eq hn] at hv
            exact .inl (List.mem_singleton.mp hv)
        | won role' barrier => exact nomatch role.symm.trans role'
  | @step i hji ih =>
      have hik := Nat.le_of_succ_le hik
      obtain ⟨n', hn', role', tallying'⟩ := hp
      obtain ⟨c₀, hp₀⟩ := hc.counting i hji hik
      have hearlier : v ∈ c₀.votes → v = b ∨ ∃ i' h, j < i' ∧ i' < i + 1 ∧ s.Counts b i' v h :=
        fun hv => (ih hik hp₀ hv).imp_right fun ⟨i', h, hji', hlt, hcounts⟩ =>
          ⟨i', h, hji', Nat.lt_succ_of_lt hlt, hcounts⟩
      obtain ⟨n, hn, role, tallying⟩ := hp₀
      cases s.polled_succ hn role tallying hn' with
      | still same term aside =>
          obtain rfl := Role.candidate.inj (role'.symm.trans same)
          exact hearlier hv
      | count told current counted term =>
          obtain rfl := Role.candidate.inj (role'.symm.trans counted)
          rcases Candidate.mem_votes_record.mp hv with hv | ⟨rfl, granted⟩
          · exact hearlier hv
          · obtain ⟨h, hcounts⟩ := s.counts_of_told hn told current granted
            exact .inr ⟨i, h, hji, Nat.lt_succ_self i, hcounts⟩
      | win told current won barrier => exact nomatch role'.symm.trans won
      | ended idle => exact nomatch (idle.2 c role').symm.trans tallying'

/-- The lease of the winner goes on when its barrier has passed. -/
theorem barrier_le_expiresAt (hwon : (s.state (k + 1)).node? b = some n')
    (role' : n'.role = .leader l) : l.lease.barrier ≤ l.lease.expiresAt := by
  have hleads : ∀ {c}, n'.role ≠ .candidate c := fun role => nomatch role.symm.trans role'
  rcases Nat.lt_or_eq_of_le hc.le with hlt | rfl
  · obtain ⟨busy, n, c, _, _, hpolled⟩ := hc.polled hlt (Nat.le_refl k) hwon
    cases hpolled with
    | still role term aside => exact absurd role hleads
    | count told current role term => exact absurd role hleads
    | win told current role barrier =>
        obtain rfl := Role.leader.inj (role.symm.trans role')
        exact barrier.2
    | ended idle => exact absurd idle busy
  · obtain ⟨n, hn, idle⟩ := hc.idle
    rcases s.stood_succ hn idle hwon with idle' | stood
    · exact (idle'.not_leader role').elim
    · cases stood with
      | counting role tallying votes prior => exact absurd role hleads
      | won role barrier =>
          obtain rfl := Role.leader.inj (role.symm.trans role')
          exact barrier.2

/-- The winner waits until its barrier has passed. -/
theorem waits (hwon : (s.state (k + 1)).node? b = some n') (role' : n'.role = .leader l) :
    n'.timing.Waits (s.clock (k + 1)) l.lease.barrier := by
  have hleads : ∀ {l'}, n'.timing.role = .leader l' → l = l' := fun role =>
    Role.leader.inj (role'.symm.trans role)
  constructor
  case toAwaits =>
    exact ⟨fun c role => (nomatch role'.symm.trans role),
      fun l' role => hleads role ▸ Nat.le_refl _⟩
  case lasting => exact fun l' role => hleads role ▸ hc.barrier_le_expiresAt hwon role'
  case estimate => exact fun deposed => absurd role' (deposed l)

end Campaign

end Schedule

end Quorum
