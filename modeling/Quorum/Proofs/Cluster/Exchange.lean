import Quorum.Proofs.Cluster.Rounds

/-!
# The messages of a round

While the messages of a leader's round are delivered, each backer goes through
the stages of its exchange with the leader (`Stage`): asked, then confirmed or
refused, then settled. When nothing is under way any more, all have settled, and
the leader is at rest again with backers that lag by one entry less
(`Mandate.Rallying.over`).
-/

namespace Quorum

@[simp] theorem traffic_nil (a b : NodeId) : traffic a b [] = [] := rfl

theorem traffic_cons_to (a b : NodeId) (message : Message) (rest : List InFlight) :
    traffic a b (⟨a, b, message⟩ :: rest) = ⟨a, b, message⟩ :: traffic a b rest :=
  List.filter_cons_of_pos (by simp)

theorem traffic_cons_from (a b : NodeId) (message : Message) (rest : List InFlight) :
    traffic a b (⟨b, a, message⟩ :: rest) = ⟨b, a, message⟩ :: traffic a b rest :=
  List.filter_cons_of_pos (by simp)

theorem traffic_cons_of_not {a b : NodeId} {m : InFlight} {rest : List InFlight}
    (h : ¬ ((m.sender = a ∧ m.receiver = b) ∨ (m.sender = b ∧ m.receiver = a))) :
    traffic a b (m :: rest) = traffic a b rest :=
  List.filter_cons_of_neg (by simpa using h)

namespace Stage

variable {lag : Nat} {leader p : NodeId} {lead lead' : Leader} {source log log' : Log}
  {messages rest : List InFlight} {q : AppendRequest} {r : AppendReply}

/-- What a leader hears from others does not matter to the exchange. -/
theorem kept (h : Stage lag leader p lead source log messages)
    (row : lead'.sentTo? p = lead.sentTo? p) (round : lead'.lease.round = lead.lease.round)
    (acks : lead.lease.acks ⊆ lead'.lease.acks) :
    Stage lag leader p lead' source log messages := by
  cases h with
  | asked starts row' lags prevIndex prevTerm entries round' =>
      exact .asked starts (row.trans row') lags prevIndex prevTerm entries (round'.trans round.symm)
  | confirmed row' success lags round' =>
      exact .confirmed (row.trans row') success lags (round'.trans round.symm)
  | refused row' failure behind lags => exact .refused (row.trans row') failure behind lags
  | settled row' lags acked => exact .settled (row.trans row') lags fun hlag => acks (acked hlag)

/-- A backer that is asked confirms or refuses. -/
theorem answered (h : Stage lag leader p lead source log (⟨leader, p, .appendRequest q⟩ :: rest))
    (answer : q.Answered log log' r) :
    rest = [] ∧ Stage lag leader p lead source log' [⟨p, leader, .appendReply r⟩] := by
  cases h with
  | @asked _ sent older starts row lags prevIndex prevTerm entries round =>
      refine ⟨rfl, ?_⟩
      cases answer with
      | refused misfit failure =>
          rw [prevIndex, prevTerm] at misfit
          obtain ⟨behind, hlags⟩ := lags.lower misfit
          exact .refused row failure behind (hlags.grown starts)
      | confirmed fits success acked hround =>
          rw [prevIndex, prevTerm] at fits
          rw [prevIndex, entries] at acked ⊢
          -- the entries reach to the end of the log from which they were sent
          have hacked : r.acked = older.length := by
            rw [acked, List.length_drop]
            exact Nat.add_sub_cancel' (Nat.min_le_right _ _)
          refine .confirmed row success (Log.Lags.grown ?_ starts) (hround.trans round)
          rw [hacked]
          exact ⟨_, Nat.le_refl _, Nat.le_refl _, Nat.le_refl _,
            Log.holds_splice (Nat.min_le_right _ _) fits⟩

/-- A leader settles the exchange by noting the answer. -/
theorem noted (h : Stage lag leader p lead source log (⟨p, leader, .appendReply r⟩ :: rest))
    (row : ∀ sent, lead.sentTo? p = some sent →
      lead'.sentTo? p = some (if r.success then r.acked else sent - 1))
    (acks : r.success = true → r.round = lead.lease.round → p ∈ lead'.lease.acks) :
    rest = [] ∧ Stage lag leader p lead' source log [] := by
  cases h with
  | confirmed row' success lags round =>
      have hrow := row _ row'
      rw [if_pos success] at hrow
      exact ⟨rfl, .settled hrow (lags.mono (Nat.zero_le _)) fun _ => acks success round⟩
  | refused row' failure behind lags =>
      have hrow := row _ row'
      rw [failure, if_neg Bool.false_ne_true] at hrow
      exact ⟨rfl, .settled hrow lags fun hlag => absurd hlag (Nat.ne_of_gt behind)⟩

end Stage

namespace Mandate

open Cluster

variable {M : Mandate} {c c' : Cluster} {start : Instant} {lag : Nat} {p : NodeId} {n n' : Node}
  {m : InFlight} {rest : List InFlight} {q : AppendRequest} {r : AppendReply} {draw : Nat}
  {commands : List Command}

theorem Ground.popped (h : M.Ground c) (rest : List InFlight) :
    M.Ground { c with inFlight := rest } :=
  ⟨h.seated, h.config, h.majority, h.reachable, h.backed⟩

/-- A message that gets lost is not one between the leader and a member that
hears. -/
theorem Rallying.dropped (h : M.Rallying lag c) (hqueue : c.inFlight = m :: rest)
    (lost : m.sender ∈ c.isolated ∨ m.receiver ∈ c.isolated ∨ c.node? m.receiver = none) :
    M.Rallying lag { c with inFlight := rest } := by
  obtain ⟨k, lead, hk, hterm, hoffice, hrenewed, hlasts, hbackers⟩ := h.engaged
  have hreachable := h.ground.reachable
  have hother : ∀ p n, c.node? p = some n → p ∉ c.isolated →
      ¬ ((m.sender = M.leader ∧ m.receiver = p) ∨ (m.sender = p ∧ m.receiver = M.leader)) := by
    intro p n hn heard hbetween
    have hsender : m.sender ∉ c.isolated := by
      rcases hbetween with ⟨hs, _⟩ | ⟨hs, _⟩ <;> rw [hs] <;> assumption
    have hreceiver : m.receiver ∉ c.isolated ∧ c.node? m.receiver ≠ none := by
      rcases hbetween with ⟨_, hr⟩ | ⟨_, hr⟩ <;> rw [hr]
      · exact ⟨heard, by rw [hn]; exact Option.some_ne_none n⟩
      · exact ⟨hreachable, by rw [hk]; exact Option.some_ne_none k⟩
    rcases lost with hlost | hlost | hlost
    · exact hsender hlost
    · exact hreceiver.1 hlost
    · exact hreceiver.2 hlost
  refine ⟨h.ground.popped rest, ⟨k, lead, hk, hterm, hoffice, hrenewed, hlasts, fun p hp => ?_⟩,
    fun p n hp hn heard => ?_, fun m' hm' => h.underway m' (hqueue ▸ List.mem_cons_of_mem m hm')⟩
  · obtain ⟨n, hn, hstage⟩ := hbackers p hp
    rw [hqueue, traffic_cons_of_not (hother p n hn (h.ground.backed p hp))] at hstage
    exact ⟨n, hn, hstage⟩
  · obtain ⟨dawn, hcalm, hbefore, hasked⟩ := h.calm p n hp hn heard
    refine ⟨dawn, hcalm, hbefore, hasked.imp_left ?_⟩
    rintro ⟨q, hq, hmem⟩
    rw [hqueue] at hmem
    rcases List.mem_cons.mp hmem with rfl | hmem
    · exact absurd (.inl ⟨rfl, rfl⟩) (hother p n hn heard)
    · exact ⟨q, hq, hmem⟩

section struck

variable (h : M.Rallying lag c)

include h

/-- A member with a message of the round. The leader is engaged as before; if it
was the other side that got the message, it is calm from now on. -/
theorem Rallying.struck {out : List InFlight} (hqueue : c.inFlight = m :: rest)
    (hn : c.node? m.receiver = some n) (frame : n.Frame n')
    (struck : Struck { c with inFlight := rest } m.receiver n' out c')
    (engaged : M.Engaged lag c')
    (calm : m.receiver ≠ M.leader → n'.Calm M.term (c.now + M.config.electionMin))
    (round : ∀ m' ∈ out, M.OfRound m') : M.Rallying lag c' := by
  have hnow : c'.now = c.now := struck.now
  have hout : c'.inFlight = rest ++ out := struck.inFlight
  have hisolated : c'.isolated = c.isolated := struck.isolated
  refine ⟨(h.ground.popped rest).struck hn frame struck, engaged, ?_, ?_⟩
  · intro p k hp hk heard
    rw [hisolated] at heard
    rw [hnow, hout]
    by_cases hpm : p = m.receiver
    · subst hpm
      obtain rfl := Option.some.inj (struck.self.symm.trans hk)
      refine ⟨_, calm hp, Nat.lt_add_of_pos_right ?_, .inr (Nat.le_refl _)⟩
      exact Nat.lt_of_le_of_lt (Nat.zero_le _) M.inTime.period_lt_electionMin
    · have hk : c.node? p = some k := (struck.others p hpm).symm.trans hk
      obtain ⟨dawn, hcalm, hbefore, hasked⟩ := h.calm p k hp hk heard
      refine ⟨dawn, hcalm, hbefore, hasked.imp_left fun hrequested => ?_⟩
      rw [hqueue] at hrequested
      exact (hrequested.tail (Ne.symm hpm)).mono (List.subset_append_left _ _)
  · intro m' hm' heard
    rw [hisolated] at heard
    rw [hout] at hm'
    rcases List.mem_append.mp hm' with hm' | hm'
    · exact h.underway m' (hqueue ▸ List.mem_cons_of_mem _ hm') heard
    · exact round m' hm'

theorem Rallying.engaged_of_asked
    (hqueue : c.inFlight = ⟨M.leader, p, .appendRequest q⟩ :: rest) (hp : p ≠ M.leader)
    (hn : c.node? p = some n) (answer : q.Answered n.record.log n'.record.log r)
    (struck : Struck { c with inFlight := rest } p n' [⟨p, M.leader, .appendReply r⟩] c') :
    M.Engaged lag c' := by
  obtain ⟨k, lead, hk, hterm, hoffice, hrenewed, hlasts, hbackers⟩ := h.engaged
  unfold Engaged
  rw [struck.now, struck.inFlight]
  refine ⟨k, lead, (struck.others _ hp.symm).trans hk, hterm, hoffice, hrenewed, hlasts, ?_⟩
  intro b hb
  obtain ⟨k', hk', hstage⟩ := hbackers b hb
  rw [hqueue] at hstage
  rw [traffic_append]
  by_cases hbp : b = p
  · subst hbp
    obtain rfl := Option.some.inj (hn.symm.trans hk')
    rw [traffic_cons_to] at hstage
    obtain ⟨hrest, hstage⟩ := hstage.answered answer
    rw [hrest, traffic_cons_from]
    exact ⟨n', struck.self, hstage⟩
  · -- neither the request nor the answer is one between the leader and `b`
    have hb : b ≠ M.leader := fun heq => M.others (heq ▸ hb)
    rw [traffic_cons_of_not (by simp [Ne.symm hbp, hb.symm])] at hstage
    rw [traffic_cons_of_not (by simp [Ne.symm hbp, hp]), traffic_nil, List.append_nil]
    exact ⟨k', (struck.others b hbp).trans hk', hstage⟩

/-- A member that follows the leader is asked. -/
theorem Rallying.asked (hqueue : c.inFlight = ⟨M.leader, p, .appendRequest q⟩ :: rest)
    (hp : p ≠ M.leader) (current : q.term = M.term) (hn : c.node? p = some n)
    (heard : p ∉ c.isolated)
    (hnode : n.handleMessage M.leader (.appendRequest q) c.now draw = .ok (n', commands))
    (struck : Struck { c with inFlight := rest } p n' (sends n.id commands) c') :
    M.Rallying lag c' := by
  have hid : n.id = p := (h.ground.seated p n hn).1
  obtain ⟨dawn, hcalm, _, _⟩ := h.calm p n hp hn heard
  obtain ⟨f, hrole, _⟩ := hcalm.follows
  have hsame : q.term = n.record.currentTerm := current.trans hcalm.term.symm
  obtain ⟨r, rfl, hterm, answer⟩ := Node.answer_cases hrole hsame hnode
  rw [hid] at struck
  have hengaged := h.engaged_of_asked hqueue hp hn answer struck
  refine h.struck hqueue hn (Node.handleMessage_deeds hnode).frame struck hengaged ?_ ?_
  · intro _
    have hanew := Node.handleMessage_calm hnode (Nat.le_of_eq hsame.symm)
    rwa [current, h.ground.node_config hn] at hanew
  · intro m hm
    obtain rfl := List.mem_singleton.mp hm
    exact .inr ⟨hp, rfl, r, rfl, hterm.trans current⟩

theorem Rallying.engaged_of_answered
    (hqueue : c.inFlight = ⟨p, M.leader, .appendReply r⟩ :: rest) (hp : p ≠ M.leader)
    (current : r.term = M.term) (hn : c.node? M.leader = some n)
    (hnode : n.handleMessage p (.appendReply r) c.now draw = .ok (n', commands))
    (struck : Struck { c with inFlight := rest } M.leader n' (sends n.id commands) c') :
    commands = [] ∧ M.Engaged lag c' := by
  have hframe := (Node.handleMessage_deeds hnode).frame
  obtain ⟨k, lead, hk, hterm, hoffice, hrenewed, hlasts, hbackers⟩ := h.engaged
  obtain rfl := Option.some.inj (hn.symm.trans hk)
  have hsame : r.term = n.record.currentTerm := current.trans hterm.symm
  obtain ⟨hlog, rfl, lead', hrole, hkept, hrows, hrow, hacks⟩ :=
    Node.note_cases hoffice.role hsame hnode
  have hquorum : n'.quorum = n.quorum := by
    rw [Node.quorum, Node.clusterSize, hframe.peers]
    rfl
  have hkeeps : ∀ b sent, lead.sentTo? b = some sent → ∃ sent', lead'.sentTo? b = some sent' := by
    intro b sent hsent
    by_cases hbp : b = p
    · subst hbp
      exact ⟨_, hrow sent hsent⟩
    · exact ⟨sent, (hrows b hbp).trans hsent⟩
  have hterm' : n'.record.currentTerm = M.term :=
    (Node.term_eq_of_handleMessage hnode (Nat.le_of_eq hsame)).trans hterm
  have hout : c'.inFlight = rest := struck.inFlight.trans (List.append_nil rest)
  refine ⟨rfl, ?_⟩
  unfold Engaged
  rw [struck.now, hout]
  refine ⟨n', lead', struck.self, hterm', hoffice.kept hframe hrole hkept hkeeps,
    hquorum ▸ hkept.renewed hrenewed, Nat.lt_of_lt_of_le hlasts hkept.expiresAt, ?_⟩
  intro b hb
  obtain ⟨k, hk, hstage⟩ := hbackers b hb
  have hb : b ≠ M.leader := fun heq => M.others (heq ▸ hb)
  refine ⟨k, (struck.others b hb).trans hk, ?_⟩
  rw [hqueue] at hstage
  rw [hlog]
  by_cases hbp : b = p
  · subst hbp
    rw [traffic_cons_from] at hstage
    obtain ⟨hrest, hstage⟩ := hstage.noted hrow hacks
    rw [hrest]
    exact hstage
  · rw [traffic_cons_of_not (by simp [Ne.symm hbp, hp])] at hstage
    exact hstage.kept (hrows b hbp) hkept.round hkept.acks

/-- The leader hears an answer. -/
theorem Rallying.answered (hqueue : c.inFlight = ⟨p, M.leader, .appendReply r⟩ :: rest)
    (hp : p ≠ M.leader) (current : r.term = M.term) (hn : c.node? M.leader = some n)
    (hnode : n.handleMessage p (.appendReply r) c.now draw = .ok (n', commands))
    (struck : Struck { c with inFlight := rest } M.leader n' (sends n.id commands) c') :
    M.Rallying lag c' := by
  obtain ⟨rfl, hengaged⟩ := h.engaged_of_answered hqueue hp current hn hnode struck
  exact h.struck hqueue hn (Node.handleMessage_deeds hnode).frame struck hengaged
    (fun hne => absurd rfl hne) (fun m hm => absurd hm List.not_mem_nil)

end struck

/-- The delivery of any message keeps the leader where it is in its round. -/
theorem Rallying.deliver (h : M.Rallying lag c) (hqueue : c.inFlight = m :: rest) :
    Ensures (c.now + M.config.longest < Instant.limit)
      (({ c with inFlight := rest } : Cluster).deliver m) fun c' =>
        M.Rallying lag c' ∧ c'.now = c.now := by
  refine deliver_ensures ?_ (fun lost => ⟨h.dropped hqueue lost, rfl⟩)
    fun n draw hn sent arrived => ?_
  · exact fun c₁ c₂ h₁ htended => ⟨h₁.1.tended htended, htended.now.trans h₁.2⟩
  have hn : c.node? m.receiver = some n := hn
  have hconfig : n.config = M.config := h.ground.node_config hn
  obtain ⟨sender, receiver, message⟩ := m
  rcases h.underway _ (hqueue ▸ List.mem_cons_self) sent with
    ⟨hs, hp, q, hmessage, current, hlease⟩ | ⟨hp, hr, r, hmessage, current⟩
  · obtain rfl : sender = M.leader := hs
    obtain rfl : message = .appendRequest q := hmessage
    refine ⟨fun (n', commands) hnode c' hstruck => ⟨?_, hstruck.now⟩, fun reach => ?_⟩
    · exact h.asked hqueue hp current hn arrived hnode hstruck
    · exact Node.request_returns (hconfig ▸ reach)
        (hlease.trans (congrArg TimerConfig.lease hconfig).symm)
  · obtain rfl : receiver = M.leader := hr
    obtain rfl : message = .appendReply r := hmessage
    obtain ⟨k, lead, hk, hterm, hoffice, _⟩ := h.engaged
    obtain rfl := Option.some.inj (hn.symm.trans hk)
    refine ⟨fun (n', commands) hnode c' hstruck => ⟨?_, hstruck.now⟩, fun reach => ?_⟩
    · exact h.answered hqueue hp current hn hnode hstruck
    · refine Node.reply_returns hoffice.role ?_ (current.trans hterm.symm)
      rw [hoffice.roundStartedAt, hoffice.duration]
      exact Node.lease_lt_limit (hconfig ▸ reach)

theorem Resting.deliver {safe : Prop} (h : M.Resting start lag c)
    (hqueue : c.inFlight = m :: rest) :
    Ensures safe (({ c with inFlight := rest } : Cluster).deliver m) fun c' =>
      M.Resting start lag c' ∧ c'.now = c.now := by
  have hpopped : M.Resting start lag { c with inFlight := rest } :=
    ⟨h.ground.popped rest, h.leads, h.calm, fun m' hm' =>
      h.quiet m' (hqueue ▸ List.mem_cons_of_mem m hm')⟩
  refine deliver_ensures ?_ (fun _ => ⟨hpopped, rfl⟩) fun n draw hn sent _ => ?_
  · exact fun c₁ c₂ h₁ htended => ⟨h₁.1.tended htended, htended.now.trans h₁.2⟩
  · exact absurd (h.quiet m (hqueue ▸ List.mem_cons_self)) sent

/-! ## The round is over -/

theorem length_peersOf {size i : Nat} (h : i < size) : (peersOf size i).length + 1 = size := by
  have hfilter : (peersOf size i).length = ((Finset.range size).erase i).card := by
    rw [← Finset.filter_ne', peersOf, ← List.toFinset_card_of_nodup (List.nodup_range.filter _)]
    congr 1
    ext j
    simp
  rw [hfilter, Finset.card_erase_of_mem (Finset.mem_range.mpr h), Finset.card_range]
  omega

theorem Ground.quorum_le (h : M.Ground c) (hn : c.node? p = some n) :
    n.quorum ≤ M.backers.length + 1 := by
  obtain ⟨_, hpeers, _⟩ := h.seated p n hn
  rw [Node.quorum, Node.clusterSize, hpeers, length_peersOf (lt_size_of_node? hn)]
  exact Nat.succ_le_succ h.majority

/-- With all messages delivered the leader is at rest again. Either its
lease has just been renewed, or its backers have caught up by an entry. -/
theorem Rallying.over (h : M.Rallying lag c) (hqueue : c.inFlight = []) :
    M.Resting c.now (lag - 1) c := by
  obtain ⟨n, lead, hn, hterm, hoffice, hrenewed, hlasts, hbackers⟩ := h.engaged
  rw [hqueue] at hbackers
  have hsettled : ∀ p ∈ M.backers, ∃ m sent, c.node? p = some m ∧ lead.sentTo? p = some sent ∧
      Log.Lags n.record.log m.record.log sent (lag - 1) ∧ (lag = 0 → p ∈ lead.lease.acks) := by
    intro p hp
    obtain ⟨m, hm, hstage⟩ := hbackers p hp
    rw [traffic_nil] at hstage
    cases hstage with
    | settled row lags acked => exact ⟨m, _, hm, row, lags, acked⟩
  refine ⟨h.ground, ⟨n, lead, hn, hterm, hoffice, ?_, fun p hp => ?_⟩, fun p m hp hm heard => ?_,
    fun m hm => ?_⟩
  · cases lag with
    | succ lag => exact hlasts
    | zero =>
        have hacks : M.backers.length ≤ lead.lease.acks.length :=
          (M.nodup.subperm fun p hp => (hsettled p hp).choose_spec.choose_spec.2.2.2 rfl).length_le
        have hlease := hrenewed (Nat.le_trans (h.ground.quorum_le hn) (Nat.succ_le_succ hacks))
        have hconfig : n.config = M.config := h.ground.node_config hn
        rw [hoffice.roundStartedAt, hoffice.duration, hconfig] at hlease
        refine Nat.lt_of_lt_of_le (Nat.add_lt_add_left ?_ c.now) hlease
        rw [Nat.zero_sub, Nat.zero_add, Nat.one_mul]
        exact M.inTime.period_lt_lease
  · obtain ⟨m, sent, hm, hrow, hlags, _⟩ := hsettled p hp
    exact ⟨m, sent, hm, hrow, hlags⟩
  · obtain ⟨dawn, hcalm, _, ⟨q, _, hq⟩ | hdawn⟩ := h.calm p m hp hm heard
    · rw [hqueue] at hq
      exact nomatch hq
    · exact hcalm.mono hdawn
  · rw [hqueue] at hm
    exact nomatch hm

theorem Rallying.deliverAll (h : M.Rallying lag c) :
    Ensures (c.now + M.config.longest < Instant.limit) c.deliverAll fun c' =>
      M.Resting c.now (lag - 1) c' ∧ c'.now = c.now := by
  have hkept : Ensures (c.now + M.config.longest < Instant.limit) c.deliverAll fun c' =>
      (M.Rallying lag c' ∧ c'.now = c.now) ∧ c'.inFlight = [] := by
    refine deliverAll_ensures ⟨h, rfl⟩ fun c₁ m rest hqueue ⟨h₁, hnow⟩ => ?_
    rw [← hnow]
    exact h₁.deliver hqueue
  exact hkept.mono fun c' ⟨⟨h', hnow⟩, hqueue⟩ => ⟨hnow ▸ h'.over hqueue, hnow⟩

theorem Resting.deliverAll {safe : Prop} (h : M.Resting start lag c) :
    Ensures safe c.deliverAll fun c' => M.Resting start lag c' ∧ c'.now = c.now := by
  have hkept : Ensures safe c.deliverAll fun c' =>
      (M.Resting start lag c' ∧ c'.now = c.now) ∧ c'.inFlight = [] := by
    refine deliverAll_ensures ⟨h, rfl⟩ fun c₁ m rest hqueue ⟨h₁, hnow⟩ => ?_
    rw [← hnow]
    exact h₁.deliver hqueue
  exact hkept.mono fun c' h' => h'.1

/-! ## Steps -/

/-- As long as no round is due the turns of the members change nothing. -/
theorem Resting.pause (h : M.Resting start lag c) (early : c.now < start + M.config.heartbeat) :
    Ensures (c.now + M.config.longest < Instant.limit) ((List.range c.size).foldlM turn c)
      fun c' => M.Resting start lag c' ∧ c'.now = c.now := by
  refine Ensures.foldlM (fun _ c' => M.Resting start lag c' ∧ c'.now = c.now) ?_ _ c ⟨h, rfl⟩
  rintro i _ c₁ ⟨h₁, hnow⟩
  rw [← hnow] at early ⊢
  exact (resting_robust M start lag).turn h₁ fun n heard hn => h₁.not_due heard hn early

/-- A cluster in a step in which a round is due. It begins in the leader's
turn; `rest` are those whose turn is still to come. -/
def Dawning (M : Mandate) (start : Instant) (lag : Nat) (rest : List Nat) (c : Cluster) : Prop :=
  (M.leader ∈ rest ∧ rest.Nodup ∧ M.Resting start lag c) ∨ (M.leader ∉ rest ∧ M.Rallying lag c)

theorem Dawning.turn {i : Nat} {rest : List Nat} (h : M.Dawning start lag (i :: rest) c)
    (due : c.now = start + M.period) :
    Ensures (c.now + M.config.longest < Instant.limit) (turn c i) fun c' =>
      M.Dawning start lag rest c' ∧ c'.now = c.now := by
  obtain ⟨hmem, hnodup, h⟩ | ⟨hno, h⟩ := h
  · obtain ⟨hi, hnodup⟩ := List.nodup_cons.mp hnodup
    by_cases hleads : i = M.leader
    · subst hleads
      exact (h.beat due).mono fun c' h' => ⟨.inr ⟨hi, h'.1⟩, h'.2⟩
    · have hrest : M.leader ∈ rest := (List.mem_cons.mp hmem).resolve_left (Ne.symm hleads)
      have hearly : c.now < start + M.config.electionMin := by
        rw [due]
        exact Nat.add_lt_add_left M.inTime.period_lt_electionMin start
      exact ((resting_robust M start lag).turn h fun n heard hn =>
        h.not_due_of_ne hleads heard hn hearly).mono fun c' h' =>
          ⟨.inl ⟨hrest, hnodup, h'.1⟩, h'.2⟩
  · exact ((rallying_robust M lag).turn h fun n heard hn => h.not_due heard hn).mono
      fun c' h' => ⟨.inr ⟨fun hrest => hno (List.mem_cons_of_mem _ hrest), h'.1⟩, h'.2⟩

theorem Resting.round (h : M.Resting start lag c) (due : c.now = start + M.period) :
    Ensures (c.now + M.config.longest < Instant.limit) ((List.range c.size).foldlM turn c)
      fun c' => M.Rallying lag c' ∧ c'.now = c.now := by
  have hleader : M.leader ∈ List.range c.size := by
    obtain ⟨n, _, hn, _⟩ := h.leads
    exact List.mem_range.mpr (lt_size_of_node? hn)
  have hturns : Ensures (c.now + M.config.longest < Instant.limit)
      ((List.range c.size).foldlM turn c) fun c' => M.Dawning start lag [] c' ∧ c'.now = c.now := by
    refine Ensures.foldlM (fun rest c' => M.Dawning start lag rest c' ∧ c'.now = c.now) ?_ _ c
      ⟨.inl ⟨hleader, List.nodup_range, h⟩, rfl⟩
    rintro i rest c₁ ⟨h₁, hnow⟩
    rw [← hnow] at due ⊢
    exact h₁.turn due
  refine hturns.mono ?_
  rintro c' ⟨⟨hmem, _⟩ | ⟨_, h'⟩, hnow⟩
  · exact nomatch hmem
  · exact ⟨h', hnow⟩

/-- The leader is at rest, and its latest round is some ticks ago. -/
def Steady (M : Mandate) (c : Cluster) : Prop :=
  ∃ start lag i, c.now = start + i * M.tick ∧ i * M.tick < M.config.heartbeat ∧
    M.Resting start lag c

theorem Steady.tended (h : M.Steady c) (tended : c.Tended c') : M.Steady c' := by
  obtain ⟨start, lag, i, hnow, hbefore, hresting⟩ := h
  exact ⟨start, lag, i, tended.now.trans hnow, hbefore, hresting.tended tended⟩

/-- A step of one tick. -/
theorem Steady.step (h : M.Steady c) :
    Ensures (c.now + M.tick + M.config.longest < Instant.limit) (c.step M.tick) fun c' =>
      M.Steady c' ∧ c'.now = c.now + M.tick := by
  obtain ⟨start, lag, i, hnow, hbefore, h⟩ := h
  refine ((advance_ensures c M.tick).weaken fun reach =>
    Nat.lt_of_le_of_lt (Nat.le_add_right _ _) reach).bind fun c₁ hc₁ => ?_
  have hresting : M.Resting start lag c₁ := by
    rw [hc₁]
    exact ⟨⟨h.ground.seated, h.ground.config, h.ground.majority, h.ground.reachable,
      h.ground.backed⟩, h.leads, h.calm, h.quiet⟩
  have hclock : c₁.now = c.now + M.tick := by rw [hc₁]
  have hticks : c₁.now = start + (i + 1) * M.tick := by
    rw [hclock, hnow, Nat.succ_mul, Nat.add_assoc]
  rw [← hclock]
  by_cases due : M.config.heartbeat ≤ (i + 1) * M.tick
  · have hperiod : M.period = (i + 1) * M.tick := roundUp_eq hbefore due
    refine (hresting.round (hperiod ▸ hticks)).bind fun c₂ ⟨h₂, hnow₂⟩ => ?_
    rw [← hnow₂]
    refine h₂.deliverAll.mono fun c' ⟨h', hnow'⟩ => ⟨⟨c₂.now, lag - 1, 0, ?_, ?_, h'⟩, hnow'⟩
    · rw [hnow', Nat.zero_mul]
      rfl
    · rw [Nat.zero_mul]
      exact M.inTime.beats
  · have hearly : (i + 1) * M.tick < M.config.heartbeat := Nat.lt_of_not_le due
    refine (hresting.pause (hticks ▸ Nat.add_lt_add_left hearly start)).bind
      fun c₂ ⟨h₂, hnow₂⟩ => ?_
    rw [← hnow₂]
    exact h₂.deliverAll.mono fun c' ⟨h', hnow'⟩ =>
      ⟨⟨start, lag, i + 1, (hnow'.trans hnow₂).trans hticks, hearly, h'⟩, hnow'⟩

end Mandate

end Quorum
