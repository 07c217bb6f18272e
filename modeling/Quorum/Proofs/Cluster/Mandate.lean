import Quorum.Proofs.Cluster.Contest
import Quorum.Proofs.Handlers.Rounds
import Quorum.Proofs.Log.Lag

/-!
# A leader between its rounds, and in them

What a cluster looks like in which a leader keeps in touch with a majority:
at rest, with the next round still to come (`Mandate.Resting`), and in the
middle of a round (`Mandate.Rallying`). How far the logs of its backers lag is
part of both, since only a request that fits renews the lease.

Members that are cut off do as they like. Their messages get lost, so neither
invariant cares (`Robust`).
-/

namespace Quorum

/-- Rounding up to a multiple, which is what the ticks make of a time. -/
theorem roundUp_eq {h t i : Nat} (before : i * t < h) (after : h ≤ (i + 1) * t) :
    (h + t - 1) / t * t = (i + 1) * t := by
  have hdiv : (h + t - 1) / t = i + 1 := by
    rw [Nat.succ_mul] at after
    refine Nat.div_eq_of_lt_le ?_ ?_
    · rw [Nat.succ_mul]
      omega
    · rw [Nat.succ_mul, Nat.succ_mul]
      omega
  rw [hdiv]

theorem le_roundUp {h t : Nat} (ht : 0 < t) : h ≤ (h + t - 1) / t * t := by
  have hparts := Nat.div_add_mod' (h + t - 1) t
  have hrest := Nat.mod_lt (h + t - 1) ht
  omega

theorem roundUp_lt {h t : Nat} (hh : 0 < h) : (h + t - 1) / t * t < h + t := by
  have hle := Nat.div_mul_le_self (h + t - 1) t
  omega

namespace TimerConfig

/-- The time from one heartbeat round to the next, if time passes in ticks. -/
def period (config : TimerConfig) (tick : Duration) : Duration :=
  (config.heartbeat + tick - 1) / tick * tick

/-- With these times a round comes before a lease of the round before is over
and before anybody stands for election, if time passes in ticks. -/
structure InTime (config : TimerConfig) (tick : Duration) : Prop where
  valid : config.validate = .ok ()
  ticks : 0 < tick
  lease : config.heartbeat + tick ≤ config.lease
  election : config.heartbeat + tick ≤ config.electionMin

namespace InTime

variable {config : TimerConfig} {tick : Duration} (h : config.InTime tick)

include h

theorem beats : 0 < config.heartbeat := (validate_ok_iff.mp h.valid).2.1

theorem heartbeat_le_period : config.heartbeat ≤ config.period tick := le_roundUp h.ticks

theorem period_lt_lease : config.period tick < config.lease :=
  Nat.lt_of_lt_of_le (roundUp_lt h.beats) h.lease

theorem period_lt_electionMin : config.period tick < config.electionMin :=
  Nat.lt_of_lt_of_le (roundUp_lt h.beats) h.election

end InTime

end TimerConfig

/-- The messages of a queue that go between two members. -/
def traffic (a b : NodeId) (queue : List InFlight) : List InFlight :=
  queue.filter fun m => (m.sender = a ∧ m.receiver = b) ∨ (m.sender = b ∧ m.receiver = a)

theorem traffic_append (a b : NodeId) (queue more : List InFlight) :
    traffic a b (queue ++ more) = traffic a b queue ++ traffic a b more :=
  List.filter_append ..

theorem traffic_eq_nil {a b : NodeId} {queue : List InFlight}
    (h : ∀ m ∈ queue, m.sender ≠ a ∧ m.sender ≠ b) : traffic a b queue = [] := by
  refine List.filter_eq_nil_iff.mpr fun m hm => ?_
  simp [h m hm]

/-- Whose leadership is watched, and the majority that backs it. -/
structure Mandate where
  config : TimerConfig
  tick : Duration
  leader : NodeId
  term : Term
  /-- Members that together with the leader are a majority. -/
  backers : List NodeId
  inTime : config.InTime tick
  nodup : backers.Nodup
  others : leader ∉ backers

/-- How the exchange between the leader and a backer stands in a round in
which the backer lagged by at most `lag`, with the logs and the row that
matter, and the messages between the two. -/
inductive Stage (lag : Nat) (leader p : NodeId) (lead : Leader) (source log : Log) :
    List InFlight → Prop
  | asked {q : AppendRequest} {sent : LogIndex} {older : Log} (starts : older <+: source)
      (row : lead.sentTo? p = some sent) (lags : Log.Lags older log sent lag)
      (prevIndex : q.prevIndex = min sent older.length)
      (prevTerm : q.prevTerm = older.termAt (min sent older.length))
      (entries : q.entries = older.drop (min sent older.length))
      (round : q.round = lead.lease.round) :
      Stage lag leader p lead source log [⟨leader, p, .appendRequest q⟩]
  | confirmed {r : AppendReply} {sent : LogIndex} (row : lead.sentTo? p = some sent)
      (success : r.success = true) (lags : Log.Lags source log r.acked 0)
      (round : r.round = lead.lease.round) :
      Stage lag leader p lead source log [⟨p, leader, .appendReply r⟩]
  | refused {r : AppendReply} {sent : LogIndex} (row : lead.sentTo? p = some sent)
      (failure : r.success = false) (behind : 0 < lag)
      (lags : Log.Lags source log (sent - 1) (lag - 1)) :
      Stage lag leader p lead source log [⟨p, leader, .appendReply r⟩]
  | settled {sent : LogIndex} (row : lead.sentTo? p = some sent)
      (lags : Log.Lags source log sent (lag - 1)) (acked : lag = 0 → p ∈ lead.lease.acks) :
      Stage lag leader p lead source log []

theorem Stage.grown {lag : Nat} {leader p : NodeId} {lead : Leader} {source source' log : Log}
    {messages : List InFlight} (h : Stage lag leader p lead source log messages)
    (hs : source <+: source') : Stage lag leader p lead source' log messages := by
  cases h with
  | asked starts row lags prevIndex prevTerm entries round =>
      exact .asked (starts.trans hs) row lags prevIndex prevTerm entries round
  | confirmed row success lags round => exact .confirmed row success (lags.grown hs) round
  | refused row failure behind lags => exact .refused row failure behind (lags.grown hs)
  | settled row lags acked => exact .settled row (lags.grown hs) acked

namespace Mandate

variable (M : Mandate)

def period : Duration := M.config.period M.tick

/-- What no member changes. -/
structure Ground (c : Cluster) : Prop where
  seated : c.Seated
  config : c.config = M.config
  majority : c.size / 2 ≤ M.backers.length
  reachable : M.leader ∉ c.isolated
  backed : ∀ p ∈ M.backers, p ∉ c.isolated

/-- The leader has begun its latest round at `start`, nothing of it is under
way any more, and no backer lags by more than `lag`. The lease lasts for as
many rounds as it takes them to catch up, and for the one that renews it. -/
structure Resting (start : Instant) (lag : Nat) (c : Cluster) : Prop where
  ground : M.Ground c
  leads : ∃ n lead, c.node? M.leader = some n ∧ n.record.currentTerm = M.term ∧
    n.InOffice lead start ∧ start + (lag + 1) * M.period < lead.lease.expiresAt ∧
    ∀ p ∈ M.backers, ∃ m sent, c.node? p = some m ∧ lead.sentTo? p = some sent ∧
      Log.Lags n.record.log m.record.log sent lag
  calm : ∀ p n, p ≠ M.leader → c.node? p = some n → p ∉ c.isolated →
    n.Calm M.term (start + M.config.electionMin)
  quiet : ∀ m ∈ c.inFlight, m.sender ∈ c.isolated

/-- A message of the round: a request of the leader, or the answer to one. -/
def OfRound (m : InFlight) : Prop :=
  (m.sender = M.leader ∧ m.receiver ≠ M.leader ∧
    ∃ q, m.message = .appendRequest q ∧ q.term = M.term ∧ q.lease = M.config.lease) ∨
  (m.sender ≠ M.leader ∧ m.receiver = M.leader ∧
    ∃ r, m.message = .appendReply r ∧ r.term = M.term)

/-- The leader has just begun a round, before which no backer lagged by more
than `lag`, and each exchange with a backer is at some stage. -/
def Engaged (lag : Nat) (c : Cluster) : Prop :=
  ∃ n lead, c.node? M.leader = some n ∧ n.record.currentTerm = M.term ∧
    n.InOffice lead c.now ∧ lead.lease.RenewedBy n.quorum ∧
    c.now + lag * M.period < lead.lease.expiresAt ∧
    ∀ p ∈ M.backers, ∃ m, c.node? p = some m ∧
      Stage lag M.leader p lead n.record.log m.record.log (traffic M.leader p c.inFlight)

/-- A round is under way that no member can miss. -/
structure Rallying (lag : Nat) (c : Cluster) : Prop where
  ground : M.Ground c
  engaged : M.Engaged lag c
  calm : ∀ p n, p ≠ M.leader → c.node? p = some n → p ∉ c.isolated →
    ∃ dawn, n.Calm M.term dawn ∧ c.now < dawn ∧
      (Requested c.inFlight M.leader M.term p ∨ c.now + M.config.electionMin ≤ dawn)
  underway : ∀ m ∈ c.inFlight, m.sender ∉ c.isolated → M.OfRound m

/-- What neither clients nor members that are cut off can change. -/
structure Robust (inv : Cluster → Prop) : Prop where
  ground : ∀ c, inv c → M.Ground c ∧ ∃ n, c.node? M.leader = some n
  tended : ∀ c c', inv c → c.Tended c' → inv c'
  aside : ∀ c c' i n n' out, inv c → i ∈ c.isolated → c.node? i = some n → n.Frame n' →
    (∀ m ∈ out, m.sender = i) → c.Struck i n' out c' → inv c'

variable {M} {c c' : Cluster} {start : Instant} {lag : Nat} {i : Nat} {n n' : Node}
  {out : List InFlight}

theorem Ground.tended (h : M.Ground c) (tended : c.Tended c') : M.Ground c' where
  seated := h.seated.tended tended
  config := tended.config.trans h.config
  majority := by rw [tended.size]; exact h.majority
  reachable := tended.isolated ▸ h.reachable
  backed := tended.isolated ▸ h.backed

theorem Ground.struck (h : M.Ground c) (hn : c.node? i = some n) (frame : n.Frame n')
    (struck : c.Struck i n' out c') : M.Ground c' where
  seated := h.seated.struck hn frame struck
  config := struck.config.trans h.config
  majority := by rw [struck.size]; exact h.majority
  reachable := struck.isolated ▸ h.reachable
  backed := struck.isolated ▸ h.backed

theorem Ground.node_config {p : NodeId} (h : M.Ground c) (hn : c.node? p = some n) :
    n.config = M.config :=
  (h.seated p n hn).2.2.trans h.config

theorem Resting.tended (h : M.Resting start lag c) (tended : c.Tended c') :
    M.Resting start lag c' where
  ground := h.ground.tended tended
  leads := by
    obtain ⟨n, lead, hn, hterm, hoffice, hlasts, hbackers⟩ := h.leads
    obtain ⟨n', hn', ht⟩ := tended.up _ n hn
    refine ⟨n', lead, hn', ht.term.trans hterm, ht.inOffice hoffice, hlasts, fun p hp => ?_⟩
    obtain ⟨m, sent, hm, hrow, hlags⟩ := hbackers p hp
    obtain ⟨m', hm', hmt⟩ := tended.up p m hm
    obtain ⟨f, hrole, _⟩ := (h.calm p m (fun heq => M.others (heq ▸ hp)) hm
      (h.ground.backed p hp)).follows
    -- a backer follows, so clients do not change its log
    have hlog : m'.record.log = m.record.log := hmt.still (Node.isLeader_of_follower hrole)
    exact ⟨m', sent, hm', hrow, hlog ▸ hlags.grown ht.log⟩
  calm p n' hp hn' heard := by
    obtain ⟨n, hn, ht⟩ := Cluster.exists_of_tended tended hn'
    exact ht.calm (h.calm p n hp hn (tended.isolated ▸ heard))
  quiet := by
    rw [tended.inFlight, tended.isolated]
    exact h.quiet

theorem Resting.aside (h : M.Resting start lag c) (cut : i ∈ c.isolated)
    (hn : c.node? i = some n) (frame : n.Frame n') (own : ∀ m ∈ out, m.sender = i)
    (struck : c.Struck i n' out c') : M.Resting start lag c' where
  ground := h.ground.struck hn frame struck
  leads := by
    obtain ⟨k, lead, hk, hterm, hoffice, hlasts, hbackers⟩ := h.leads
    have hleader : M.leader ≠ i := fun heq => h.ground.reachable (heq ▸ cut)
    refine ⟨k, lead, (struck.others _ hleader).trans hk, hterm, hoffice, hlasts, fun p hp => ?_⟩
    obtain ⟨m, sent, hm, hrest⟩ := hbackers p hp
    have hne : p ≠ i := fun heq => h.ground.backed p hp (heq ▸ cut)
    exact ⟨m, sent, (struck.others p hne).trans hm, hrest⟩
  calm p k hp hk heard := by
    rw [struck.isolated] at heard
    have hne : p ≠ i := fun heq => heard (heq ▸ cut)
    exact h.calm p k hp ((struck.others p hne).symm.trans hk) heard
  quiet m hm := by
    rw [struck.inFlight] at hm
    rw [struck.isolated]
    rcases List.mem_append.mp hm with hm | hm
    · exact h.quiet m hm
    · exact own m hm ▸ cut

theorem Rallying.tended (h : M.Rallying lag c) (tended : c.Tended c') : M.Rallying lag c' where
  ground := h.ground.tended tended
  engaged := by
    obtain ⟨n, lead, hn, hterm, hoffice, hrenewed, hlasts, hbackers⟩ := h.engaged
    obtain ⟨n', hn', ht⟩ := tended.up _ n hn
    have hquorum : n'.quorum = n.quorum := by
      rw [Node.quorum, Node.clusterSize, ht.peers]
      rfl
    unfold Engaged
    rw [tended.now, tended.inFlight]
    refine ⟨n', lead, hn', ht.term.trans hterm, ht.inOffice hoffice, hquorum ▸ hrenewed, hlasts,
      fun p hp => ?_⟩
    obtain ⟨m, hm, hstage⟩ := hbackers p hp
    obtain ⟨m', hm', hmt⟩ := tended.up p m hm
    obtain ⟨dawn, hcalm, _⟩ := h.calm p m (fun heq => M.others (heq ▸ hp)) hm
      (h.ground.backed p hp)
    obtain ⟨f, hrole, _⟩ := hcalm.follows
    have hlog : m'.record.log = m.record.log := hmt.still (Node.isLeader_of_follower hrole)
    exact ⟨m', hm', hlog ▸ hstage.grown ht.log⟩
  calm p n' hp hn' heard := by
    obtain ⟨n, hn, ht⟩ := Cluster.exists_of_tended tended hn'
    obtain ⟨dawn, hcalm, hrest⟩ := h.calm p n hp hn (tended.isolated ▸ heard)
    rw [tended.now, tended.inFlight]
    exact ⟨dawn, ht.calm hcalm, hrest⟩
  underway := by
    rw [tended.inFlight, tended.isolated]
    exact h.underway

theorem Rallying.aside (h : M.Rallying lag c) (cut : i ∈ c.isolated)
    (hn : c.node? i = some n) (frame : n.Frame n') (own : ∀ m ∈ out, m.sender = i)
    (struck : c.Struck i n' out c') : M.Rallying lag c' where
  ground := h.ground.struck hn frame struck
  engaged := by
    obtain ⟨k, lead, hk, hterm, hoffice, hrenewed, hlasts, hbackers⟩ := h.engaged
    have hleader : M.leader ≠ i := fun heq => h.ground.reachable (heq ▸ cut)
    unfold Engaged
    rw [struck.now, struck.inFlight]
    refine ⟨k, lead, (struck.others _ hleader).trans hk, hterm, hoffice, hrenewed, hlasts,
      fun p hp => ?_⟩
    obtain ⟨m, hm, hstage⟩ := hbackers p hp
    have hne : p ≠ i := fun heq => h.ground.backed p hp (heq ▸ cut)
    have hnone : traffic M.leader p out = [] := traffic_eq_nil fun m hm => by
      rw [own m hm]
      exact ⟨hleader.symm, hne.symm⟩
    rw [traffic_append, hnone, List.append_nil]
    exact ⟨m, (struck.others p hne).trans hm, hstage⟩
  calm p k hp hk heard := by
    rw [struck.isolated] at heard
    have hne : p ≠ i := fun heq => heard (heq ▸ cut)
    obtain ⟨dawn, hcalm, hbefore, hasked⟩ :=
      h.calm p k hp ((struck.others p hne).symm.trans hk) heard
    rw [struck.now, struck.inFlight]
    exact ⟨dawn, hcalm, hbefore, hasked.imp_left (·.mono (List.subset_append_left _ _))⟩
  underway m hm heard := by
    rw [struck.inFlight] at hm
    rw [struck.isolated] at heard
    rcases List.mem_append.mp hm with hm | hm
    · exact h.underway m hm heard
    · exact absurd (own m hm ▸ cut) heard

theorem resting_robust (M : Mandate) (start : Instant) (lag : Nat) :
    M.Robust (M.Resting start lag) where
  ground _ h := by
    obtain ⟨n, _, hn, _⟩ := h.leads
    exact ⟨h.ground, n, hn⟩
  tended _ _ h tended := h.tended tended
  aside _ _ _ _ _ _ h cut hn frame own struck := h.aside cut hn frame own struck

theorem rallying_robust (M : Mandate) (lag : Nat) : M.Robust (M.Rallying lag) where
  ground _ h := by
    obtain ⟨n, _, hn, _⟩ := h.engaged
    exact ⟨h.ground, n, hn⟩
  tended _ _ h tended := h.tended tended
  aside _ _ _ _ _ _ h cut hn frame own struck := h.aside cut hn frame own struck

end Mandate

end Quorum
