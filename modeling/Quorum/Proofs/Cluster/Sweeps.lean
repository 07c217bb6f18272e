import Quorum.Proofs.Cluster.Attained
import Quorum.Proofs.Cluster.Exchange
import Quorum.Proofs.Cluster.Serving
import Quorum.Proofs.Handlers.Progress

/-!
# A round that reaches everybody

A leader whose term nobody has passed begins a round in a cluster in which all
members are up and no message gets lost. When the messages of the round have all
been delivered, every member lags by one entry less, and those that did not lag
hold what the leader held when the round began, and have committed what it had
committed (`Assembly.AtRest.round`). Time does not pass meanwhile, so the leader
accepts waiting writes at most once, when the round begins.
-/

namespace Quorum

/-- A leader whose term nobody has passed, with the cluster that it leads, at
one instant. -/
structure Assembly where
  config : TimerConfig
  size : Nat
  now : Instant
  leader : NodeId
  term : Term
  inRange : term < Word.max

/-- A round of that leader. -/
structure Sweep extends Assembly where
  /-- By how much a member may have lagged before. -/
  lag : Nat
  /-- The leader's log when the round began. -/
  older : Log
  /-- How much of it had been committed. -/
  commit : LogIndex
  /-- The leader's log since it has accepted what had been waiting. -/
  log : Log
  own : older.termAt older.length = term
  commit_le : commit ≤ older.length
  starts : older <+: log

/-! ## The exchange with one member -/

namespace Sweep

variable {S : Sweep} {p : NodeId} {row : PeerProgress} {record record' : Record}
  {messages rest : List InFlight} {message : Message} {q : AppendRequest} {r : AppendReply}

/-- A request of the round for a member that holds the log. -/
structure Asks (S : Sweep) (row : PeerProgress) (log : Log) (q : AppendRequest) : Prop where
  term : q.term = S.term
  lease : q.lease = S.config.lease
  prevIndex : q.prevIndex = min row.sent S.older.length
  prevTerm : q.prevTerm = S.older.termAt (min row.sent S.older.length)
  entries : q.entries = S.older.drop (min row.sent S.older.length)
  commit : q.commit = S.commit
  lags : Log.Lags S.older log row.sent S.lag

/-- What a member has told the leader in the round. -/
inductive Tells (S : Sweep) (row : PeerProgress) (record : Record) (r : AppendReply) : Prop
  | confirmed (success : r.success = true) (acked : r.acked = S.older.length)
      (held : S.older <+: record.log) (commits : S.commit ≤ record.commitLength)
  | refused (failure : r.success = false) (behind : 0 < S.lag)
      (lags : Log.Lags S.older record.log (row.sent - 1) (S.lag - 1))

/-- What the round has come to for a member. -/
structure Settled (S : Sweep) (row : PeerProgress) (record : Record) : Prop where
  lags : Log.Lags S.older record.log row.sent (S.lag - 1)
  caughtUp : S.lag = 0 →
    S.older.length ≤ row.acked ∧ S.older <+: record.log ∧ S.commit ≤ record.commitLength

/-- How far the leader has got with a member, by the messages between the two. -/
inductive Errand (S : Sweep) (p : NodeId) (row : PeerProgress) (record : Record) :
    List InFlight → Prop
  | asked {q : AppendRequest} (asks : S.Asks row record.log q) :
      Errand S p row record [⟨S.leader, p, .appendRequest q⟩]
  | told {r : AppendReply} (term : r.term = S.term) (tells : S.Tells row record r) :
      Errand S p row record [⟨p, S.leader, .appendReply r⟩]
  | done (settled : S.Settled row record) : Errand S p row record []

/-- A message of the round on its way to the member is a request. -/
theorem Errand.asks (h : S.Errand p row record (⟨S.leader, p, message⟩ :: rest))
    (hp : p ≠ S.leader) :
    rest = [] ∧ ∃ q, message = .appendRequest q ∧ S.Asks row record.log q := by
  cases h with
  | asked asks => exact ⟨rfl, _, rfl, asks⟩
  | told term tells => exact absurd rfl hp

/-- One on its way back is an answer. -/
theorem Errand.tells (h : S.Errand p row record (⟨p, S.leader, message⟩ :: rest))
    (hp : p ≠ S.leader) :
    rest = [] ∧ ∃ r, message = .appendReply r ∧ r.term = S.term ∧ S.Tells row record r := by
  cases h with
  | asked asks => exact absurd rfl hp
  | told term tells => exact ⟨rfl, _, rfl, term, tells⟩

theorem Errand.settled (h : S.Errand p row record []) : S.Settled row record := by
  cases h with
  | done settled => exact settled

/-- A member whose log matches that of the leader confirms the whole of it, or
it lagged. -/
theorem Asks.answered (h : S.Asks row record.log q) (matching : Log.Matches record.log S.older)
    (answer : q.Answered record.log record'.log r)
    (commits : r.success = true → min q.commit r.acked ≤ record'.commitLength) :
    S.Tells row record' r := by
  have hanswer : ∀ log', q.Answered record.log log' r → log' = record'.log →
      S.Tells row record' r := by
    intro log' answer hlog
    cases answer with
    | refused misfit failure =>
        rw [h.prevIndex, h.prevTerm] at misfit
        obtain ⟨behind, hlags⟩ := h.lags.lower misfit
        exact .refused failure behind (hlog ▸ hlags)
    | confirmed fits success acked round =>
        rw [h.prevIndex, h.prevTerm] at fits
        rw [h.prevIndex, h.entries] at acked hlog
        have hle : min row.sent S.older.length ≤ S.older.length := Nat.min_le_right _ _
        have hacked : r.acked = S.older.length := by
          rw [acked, List.length_drop]
          exact Nat.add_sub_cancel' hle
        have hheld : S.older <+: record'.log := by
          rcases Log.splice_of_matches matching hle fits with ⟨hpart, hsame⟩ | ⟨_, hsame⟩
          · rw [← hlog, hsame]
            exact hpart
          · rw [← hlog, hsame]
        have hcommits := commits success
        rw [hacked, h.commit, Nat.min_eq_left S.commit_le] at hcommits
        exact .confirmed success hacked hheld hcommits
  exact hanswer _ answer rfl

/-- The answer settles the exchange. -/
theorem Tells.noted (h : S.Tells row record r) : S.Settled (Node.noted r row) record := by
  cases h with
  | confirmed success acked held commits =>
      rw [Node.noted, if_pos success, acked]
      exact ⟨Log.lags_of_held held _, fun _ => ⟨Nat.le_max_right _ _, held, commits⟩⟩
  | refused failure behind lags =>
      rw [Node.noted, failure, if_neg Bool.false_ne_true]
      exact ⟨lags, fun hlag => absurd hlag (Nat.ne_of_gt behind)⟩

end Sweep

/-! ## The whole round -/

/-- Everybody is up, can be reached, and has not passed the leader's term. -/
structure Assembly.Stands (A : Assembly) (c : Cluster) : Prop where
  config : c.config = A.config
  size : c.size = A.size
  now : c.now = A.now
  clear : c.isolated = []
  up : ∀ i < A.size, ∃ n, c.node? i = some n ∧ n.record.currentTerm ≤ A.term

/-- Nothing is under way, and no member lags by more than `lag`. -/
structure Assembly.AtRest (A : Assembly) (lag : Nat) (c : Cluster) : Prop where
  attained : c.Attainable
  stands : A.Stands c
  quiet : c.inFlight = []
  leads : ∃ n lead, c.node? A.leader = some n ∧ n.record.currentTerm = A.term ∧
    n.role = .leader lead ∧ ∀ p < A.size, p ≠ A.leader → ∃ m row, c.node? p = some m ∧
      lead.row? p = some row ∧ Log.Lags n.record.log m.record.log row.sent lag

namespace Sweep

/-- The message goes from the leader to the member, or back. -/
def Joins (S : Sweep) (p : NodeId) (m : InFlight) : Prop :=
  (m.sender = S.leader ∧ m.receiver = p) ∨ (m.sender = p ∧ m.receiver = S.leader)

/-- So far the leader has got with the member. -/
def Tracks (S : Sweep) (lead : Leader) (c : Cluster) (p : NodeId) : Prop :=
  ∃ m row, c.node? p = some m ∧ lead.row? p = some row ∧
    S.Errand p row m.record (traffic S.leader p c.inFlight)

/-- The leader has begun the round. -/
def Engaged (S : Sweep) (c : Cluster) : Prop :=
  ∃ n lead, c.node? S.leader = some n ∧ n.record.currentTerm = S.term ∧
    n.InOffice lead S.now ∧ n.record.log = S.log ∧ n.Prompt lead S.older.length ∧
    ∀ p < S.size, p ≠ S.leader → S.Tracks lead c p

/-- The round is under way. -/
structure Underway (S : Sweep) (c : Cluster) : Prop where
  attained : c.Attainable
  stands : S.Stands c
  engaged : S.Engaged c
  drained : c.Drained S.leader
  between : ∀ m ∈ c.inFlight, ∃ p < S.size, p ≠ S.leader ∧ S.Joins p m

end Sweep

namespace Assembly

variable {A : Assembly} {c c' : Cluster} {i : NodeId} {n n' : Node} {out : List InFlight}

theorem Stands.range (h : A.Stands c) : c.InRange :=
  Cluster.inRange_of_le A.inRange (h.size ▸ h.up)

theorem Stands.node_config (h : A.Stands c) (attained : c.Attainable) (hn : c.node? i = some n) :
    n.config = A.config :=
  (attained.seated i n hn).2.2.trans h.config

theorem Stands.le_term (h : A.Stands c) (hn : c.node? i = some n) :
    n.record.currentTerm ≤ A.term := by
  obtain ⟨m, hm, hle⟩ := h.up i (h.size ▸ Cluster.lt_size_of_node? hn)
  obtain rfl := Option.some.inj (hn.symm.trans hm)
  exact hle

theorem Stands.popped (h : A.Stands c) (rest : List InFlight) :
    A.Stands { c with inFlight := rest } :=
  ⟨h.config, h.size, h.now, h.clear, h.up⟩

/-- An event that takes nobody beyond the leader's term changes none of it. -/
theorem Stands.handled (h : A.Stands c) (handled : c.Handled i n n' out c')
    (older : n'.record.currentTerm ≤ A.term) : A.Stands c' where
  config := handled.config.trans h.config
  size := handled.size.trans h.size
  now := handled.now.trans h.now
  clear := handled.isolated.trans h.clear
  up j hj := by
    by_cases hji : j = i
    · obtain ⟨n₂, hn₂, htended, _⟩ := handled.own
      exact ⟨n₂, hji ▸ hn₂, htended.term ▸ older⟩
    · rw [handled.node?_of_ne hji]
      exact h.up j hj

end Assembly

/-! ## Messages -/

namespace Node

variable {n n' : Node} {l : Leader} {length : LogIndex}

theorem Prompt.tended (h : n.Prompt l length) (tended : n.Tended n')
    (commit : n.record.commitLength ≤ n'.record.commitLength) : n'.Prompt l length := by
  intro hquorum
  have hsame : n'.quorum = n.quorum := by
    rw [quorum, clusterSize, tended.peers]
    rfl
  rw [hsame] at hquorum
  exact Nat.le_trans (h hquorum) commit

end Node

namespace Sweep

open Cluster

variable {S : Sweep} {c c' : Cluster} {p b : NodeId} {n : Node} {m : InFlight}
  {lead lead' : Leader} {rest out : List InFlight} {message : Message}

theorem termAt_older (S : Sweep) : S.log.termAt S.older.length = S.term := by
  rw [← Log.termAt_of_prefix S.starts (Nat.le_refl _)]
  exact S.own

theorem Joins.traffic (h : S.Joins p m) (hbp : b ≠ p) (hb : b ≠ S.leader)
    (rest : List InFlight) : traffic S.leader b (m :: rest) = traffic S.leader b rest := by
  refine traffic_cons_of_not ?_
  rintro (⟨hs, hr⟩ | ⟨hs, hr⟩)
  · rcases h with ⟨_, hp⟩ | ⟨_, hp⟩
    · exact hbp (hr.symm.trans hp)
    · exact hb (hr.symm.trans hp)
  · rcases h with ⟨hp, _⟩ | ⟨hp, _⟩
    · exact hb (hs.symm.trans hp)
    · exact hbp (hs.symm.trans hp)

theorem traffic_of_joins (hout : ∀ m ∈ out, S.Joins p m) (hbp : b ≠ p) (hb : b ≠ S.leader) :
    traffic S.leader b out = [] := by
  induction out with
  | nil => rfl
  | cons m rest ih =>
      rw [(hout m List.mem_cons_self).traffic hbp hb]
      exact ih fun m' hm' => hout m' (List.mem_cons_of_mem m hm')

/-- What is exchanged with one member does not matter to the errands to the
others. -/
theorem Tracks.aside (h : S.Tracks lead c b) (hqueue : c.inFlight = m :: rest)
    (hsent : c'.inFlight = rest ++ out) (first : S.Joins p m) (more : ∀ m' ∈ out, S.Joins p m')
    (hbp : b ≠ p) (hb : b ≠ S.leader) (node : c'.node? b = c.node? b)
    (row : lead'.row? b = lead.row? b) : S.Tracks lead' c' b := by
  obtain ⟨k, row', hk, hrow, herrand⟩ := h
  refine ⟨k, row', node.trans hk, row.trans hrow, ?_⟩
  rw [hqueue, first.traffic hbp hb] at herrand
  rw [hsent, traffic_append, traffic_of_joins more hbp hb, List.append_nil]
  exact herrand

section delivered

variable (h : S.Underway c)

include h

theorem Underway.between_next (hqueue : c.inFlight = m :: rest) (hlt : p < S.size)
    (hp : p ≠ S.leader) (more : ∀ m' ∈ out, S.Joins p m') :
    ∀ m' ∈ rest ++ out, ∃ p < S.size, p ≠ S.leader ∧ S.Joins p m' := by
  intro m' hm'
  rcases List.mem_append.mp hm' with hold | hnew
  · exact h.between m' (hqueue ▸ List.mem_cons_of_mem m hold)
  · exact ⟨p, hlt, hp, more m' hnew⟩

/-- Every log matches that with which the leader began the round. -/
theorem Underway.matches_older (hn : c.node? p = some n) :
    Log.Matches n.record.log S.older := by
  obtain ⟨k, _, hk, _, _, hlog, _⟩ := h.engaged
  have hmatches := h.attained.log_matches h.stands.range hn hk
  rw [hlog] at hmatches
  intro p e q f hp hq
  exact hmatches p e q f hp (hq.trans S.starts)

/-- A member other than the leader gets a message. -/
theorem Underway.asked (hqueue : c.inFlight = ⟨S.leader, p, message⟩ :: rest)
    (hlt : p < S.size) (hp : p ≠ S.leader) (hn : c.node? p = some n) (draw : Nat) :
    Ensures (S.now + S.config.longest < Instant.limit)
      (n.handleMessage S.leader message c.now draw) fun result =>
        ∀ c', Handled { c with inFlight := rest } p n result.1 (sends n.id result.2) c' →
          c'.Attainable → S.Underway c' := by
  obtain ⟨k, lead, hk, hterm, hoffice, hlog, hprompt, htracks⟩ := h.engaged
  obtain ⟨m, row, hm, hrow, herrand⟩ := htracks p hlt hp
  obtain rfl := Option.some.inj (hn.symm.trans hm)
  rw [hqueue, traffic_cons_to] at herrand
  obtain ⟨hrest, q, rfl, hasks⟩ := herrand.asks hp
  have older : n.record.currentTerm ≤ q.term := hasks.term ▸ h.stands.le_term hn
  constructor
  · rintro ⟨n', commands⟩ hnode c' handled attained
    obtain ⟨r, hsends, hr, hterm', hno, answer, hcommits⟩ := Node.request_cases older hnode
    obtain ⟨n₂, hn₂, htended, _, hsame⟩ := handled.own
    -- the member follows now, so it accepts nothing
    have hrecord : n₂.record = n'.record :=
      hsame (.of_refused (Node.canAcceptWrites_of_not_leader hno _) _)
    have htells : S.Tells row n₂.record r :=
      hrecord ▸ hasks.answered (h.matches_older hn) answer hcommits
    have hlate : n'.record.currentTerm ≤ S.term := Nat.le_of_eq (hterm'.trans hasks.term)
    have hsent : c'.inFlight = rest ++ [⟨p, S.leader, .appendReply r⟩] := by
      rw [handled.inFlight, hsends, (h.attained.seated p n hn).1]
    have hmore : ∀ m' ∈ [(⟨p, S.leader, .appendReply r⟩ : InFlight)], S.Joins p m' := by
      intro m' hm'
      obtain rfl := List.mem_singleton.mp hm'
      exact .inr ⟨rfl, rfl⟩
    refine ⟨attained, (h.stands.popped rest).handled handled hlate,
      ⟨k, lead, (handled.node?_of_ne hp.symm).trans hk, hterm, hoffice, hlog, hprompt, ?_⟩,
      handled.drained_of_ne hp.symm (h.drained.of_members rfl rfl),
      hsent ▸ h.between_next hqueue hlt hp hmore⟩
    intro b hlt' hb
    by_cases hbp : b = p
    · subst hbp
      refine ⟨n₂, row, hn₂, hrow, ?_⟩
      rw [hsent, traffic_append, hrest, traffic_cons_from]
      exact .told (hr.trans hasks.term) htells
    · exact (htracks b hlt' hb).aside hqueue hsent (.inl ⟨rfl, rfl⟩) hmore hbp hb
        (handled.node?_of_ne hbp) rfl
  · intro reach
    have hconfig := h.stands.node_config h.attained hn
    refine Node.request_returns ?_ (hasks.lease.trans ?_)
    · rw [hconfig, h.stands.now]
      exact reach
    · rw [hconfig]

/-- The leader gets a message. -/
theorem Underway.told (hqueue : c.inFlight = ⟨p, S.leader, message⟩ :: rest)
    (hlt : p < S.size) (hp : p ≠ S.leader) (hn : c.node? S.leader = some n) (draw : Nat) :
    Ensures (S.now + S.config.longest < Instant.limit)
      (n.handleMessage p message c.now draw) fun result =>
        ∀ c', Handled { c with inFlight := rest } S.leader n result.1 (sends n.id result.2) c' →
          c'.Attainable → S.Underway c' := by
  obtain ⟨k, lead, hk, hterm, hoffice, hlog, hprompt, htracks⟩ := h.engaged
  obtain rfl := Option.some.inj (hn.symm.trans hk)
  obtain ⟨m, row, hm, hrow, herrand⟩ := htracks p hlt hp
  rw [hqueue, traffic_cons_from] at herrand
  obtain ⟨hrest, r, rfl, hr, htells⟩ := herrand.tells hp
  have hsame : r.term = n.record.currentTerm := hr.trans hterm.symm
  constructor
  · rintro ⟨n', commands⟩ hnode c' handled attained
    obtain ⟨rfl, lead', hnoted⟩ := Node.reply_cases hoffice.role hsame hnode
    obtain ⟨n₂, hn₂, htended, hcommit, _⟩ := handled.own
    have hrecord : n₂.record = n'.record := handled.record_of_barrier
      (h.drained.of_members rfl rfl) hn hoffice.role hnoted.role hnoted.barrier hn₂
    have hterm' : n'.record.currentTerm = S.term :=
      (Node.term_eq_of_handleMessage hnode (Nat.le_of_eq hsame)).trans hterm
    have hoffice' : n₂.InOffice lead' S.now := htended.inOffice (hoffice.kept
      (Node.handleMessage_deeds hnode).frame hnoted.role hnoted.kept hnoted.rows)
    have hprompt' : n'.Prompt lead' S.older.length := by
      refine hnoted.prompt _ ?_ ?_ hprompt
      · rw [hlog, hterm]
        exact S.termAt_older
      · rw [Node.lastIndex, hlog]
        exact S.starts.length_le
    have hlog' : n₂.record.log = S.log := by
      rw [hrecord, hnoted.log]
      exact hlog
    have hsent : c'.inFlight = rest ++ [] := handled.inFlight
    have hmore : ∀ m' ∈ ([] : List InFlight), S.Joins p m' := by simp
    refine ⟨attained, (h.stands.popped rest).handled handled (Nat.le_of_eq hterm'),
      ⟨n₂, lead', hn₂, htended.term.trans hterm', hoffice', hlog',
        hprompt'.tended htended hcommit, ?_⟩,
      handled.drained, hsent ▸ h.between_next hqueue hlt hp hmore⟩
    intro b hlt' hb
    by_cases hbp : b = p
    · subst hbp
      refine ⟨m, _, (handled.node?_of_ne hb).trans hm, hnoted.own row hrow, ?_⟩
      rw [hsent, List.append_nil, hrest]
      exact .done htells.noted
    · exact (htracks b hlt' hb).aside hqueue hsent (.inr ⟨rfl, rfl⟩) hmore hbp hb
        (handled.node?_of_ne hb) (hnoted.others b hbp)
  · intro reach
    refine Node.reply_returns hoffice.role ?_ hsame
    rw [hoffice.roundStartedAt, hoffice.duration]
    refine Node.lease_lt_limit ?_
    rw [h.stands.node_config h.attained hn]
    exact reach

/-- The delivery of any message keeps the round under way. -/
theorem Underway.deliver (hqueue : c.inFlight = m :: rest) :
    Ensures (S.now + S.config.longest < Instant.limit)
      (({ c with inFlight := rest } : Cluster).deliver m) S.Underway := by
  have hdelivered : Ensures (S.now + S.config.longest < Instant.limit)
      (({ c with inFlight := rest } : Cluster).deliver m)
      fun c' => c'.Attainable → S.Underway c' := by
    obtain ⟨sender, receiver, message⟩ := m
    obtain ⟨p, hlt, hp, hjoins⟩ := h.between _ (hqueue ▸ List.mem_cons_self)
    rcases hjoins with ⟨hs, hr⟩ | ⟨hs, hr⟩
    · obtain rfl : sender = S.leader := hs
      obtain rfl : receiver = p := hr
      obtain ⟨n, hn, _⟩ := h.stands.up receiver hlt
      exact deliver_handled h.stands.clear hn fun draw => h.asked hqueue hlt hp hn draw
    · obtain rfl : sender = p := hs
      obtain rfl : receiver = S.leader := hr
      obtain ⟨n, _, hn, _⟩ := h.engaged
      exact deliver_handled h.stands.clear hn fun draw => h.told hqueue hlt hp hn draw
  exact hdelivered.self.mono fun c' hc' => hc'.2 (h.attained.deliver hqueue hc'.1)

end delivered

/-- When nothing of the round is under way any more, the cluster is at rest. The
members lag by one entry less, or not at all. -/
theorem Underway.settles (h : S.Underway c) (quiet : c.inFlight = []) :
    S.AtRest (S.lag - 1) c ∧ ∃ n, c.node? S.leader = some n ∧ n.record.log = S.log ∧
      (S.lag = 0 → S.older.length ≤ n.record.commitLength ∧
        ∀ p < S.size, p ≠ S.leader → ∃ m, c.node? p = some m ∧ S.older <+: m.record.log ∧
          S.commit ≤ m.record.commitLength) := by
  obtain ⟨n, lead, hn, hterm, hoffice, hlog, hprompt, htracks⟩ := h.engaged
  have hsettled : ∀ p < S.size, p ≠ S.leader → ∃ m row, c.node? p = some m ∧
      lead.row? p = some row ∧ S.Settled row m.record := by
    intro p hlt hp
    obtain ⟨m, row, hm, hrow, herrand⟩ := htracks p hlt hp
    rw [quiet, traffic_nil] at herrand
    exact ⟨m, row, hm, hrow, herrand.settled⟩
  refine ⟨⟨h.attained, h.stands, quiet, n, lead, hn, hterm, hoffice.role, fun p hlt hp => ?_⟩,
    n, hn, hlog, fun hlag => ⟨?_, fun p hlt hp => ?_⟩⟩
  · obtain ⟨m, row, hm, hrow, settled⟩ := hsettled p hlt hp
    exact ⟨m, row, hm, hrow, hlog ▸ settled.lags.grown S.starts⟩
  · have hrows := (h.attained.incumbent h.stands.range hn hoffice.role).2
    refine hprompt.commits hrows (h.attained.seated.nodup_peers hn) fun p hp => ?_
    rw [(h.attained.seated _ n hn).2.1, h.stands.size] at hp
    obtain ⟨hlt, hne⟩ := mem_peersOf.mp hp
    obtain ⟨m, row, _, hrow, settled⟩ := hsettled p hlt hne
    exact ⟨row, hrow, (settled.caughtUp hlag).1⟩
  · obtain ⟨m, row, hm, _, settled⟩ := hsettled p hlt hp
    exact ⟨m, hm, (settled.caughtUp hlag).2⟩

/-- The round is the one that the leader of the assembly begins, at rest in the
cluster, with the node that it has there. -/
structure Begins (S : Sweep) (A : Assembly) (lag : Nat) (c : Cluster) (n : Node) : Prop where
  assembly : S.toAssembly = A
  lag : S.lag = lag
  older : S.older = n.record.log
  commit : S.commit = n.record.commitLength
  log : c.Drained A.leader → S.log = n.record.log

/-- It starts with a request for each member. -/
theorem Begins.errand {A : Assembly} {lag : Nat} {m : Node} {row : PeerProgress}
    (h : S.Begins A lag c n) (seated : c.Seated) (config : n.config = A.config)
    (term : n.record.currentTerm = A.term) (hn : c.node? A.leader = some n)
    (hm : c.node? p = some m) (hp : p ≠ A.leader) (hrow : lead.row? p = some row)
    (lags : Log.Lags n.record.log m.record.log row.sent lag) :
    S.Errand p row m.record (traffic A.leader p (sends A.leader (n.roundRequests lead))) := by
  have hrequest := Node.traffic_roundRequests (seated.nodup_peers hn) (seated.not_mem_peers hn)
    (seated.mem_peers hn hm hp) (Leader.sentTo?_of_row? hrow)
  obtain ⟨rfl, rfl, holder, hcommit, _⟩ := h
  rw [hrequest]
  have hlease : n.config.lease = S.config.lease := congrArg TimerConfig.lease config
  refine .asked ⟨term, hlease, ?_, ?_, ?_, hcommit.symm, holder ▸ lags⟩
  all_goals rw [holder]; rfl

end Sweep

namespace Assembly

open Cluster

variable {A : Assembly} {lag : Nat} {c c' : Cluster} {n n' : Node} {lead : Leader} {draw : Nat}
  {commands : List Command}

/-- A leader at rest begins a round. -/
theorem AtRest.underway (h : A.AtRest lag c) (hn : c.node? A.leader = some n)
    (hnode : n.handle .heartbeatTimeout c.now draw = .ok (n', commands))
    (handled : c.Handled A.leader n n' (sends n.id commands) c') (attained : c'.Attainable) :
    ∃ S : Sweep, S.Begins A lag c n ∧ S.Underway c' := by
  obtain ⟨k, lead, hk, hterm, hrole, hlags⟩ := h.leads
  obtain rfl := Option.some.inj (hn.symm.trans hk)
  have hseated := h.attained.seated
  obtain ⟨hid, hpeers, _⟩ := hseated _ n hn
  have hrange := h.stands.range
  obtain ⟨hduration, hrows⟩ := h.attained.incumbent hrange hn hrole
  have hown := h.attained.termAt_lastIndex hrange hn (Node.isLeader_iff.mpr ⟨lead, hrole⟩)
  obtain ⟨lead', hoffice, hprogress, hbarrier, hterm', hlog', _, hprompt, rfl⟩ :=
    Node.beat_cases hrole hduration hrows hnode
  obtain ⟨n₂, hn₂, htended, hcommit, _⟩ := handled.own
  let S : Sweep :=
    { A with
      lag
      older := n.record.log
      commit := n.record.commitLength
      log := n₂.record.log
      own := hown.trans hterm
      commit_le := h.attained.commit_le_length hrange hn
      starts := hlog' ▸ htended.log }
  have hout : c'.inFlight = sends A.leader (n.roundRequests lead') := by
    rw [handled.inFlight, h.quiet, List.nil_append, hid]
  have begins : S.Begins A lag c n := by
    refine ⟨rfl, rfl, rfl, rfl, fun drained => ?_⟩
    show n₂.record.log = n.record.log
    rw [handled.record_of_barrier drained hn hrole hoffice.role hbarrier hn₂]
    exact hlog'
  have hlate : n'.record.currentTerm = A.term := hterm'.trans hterm
  refine ⟨S, begins, attained, h.stands.handled handled (Nat.le_of_eq hlate),
    ⟨n₂, lead', hn₂, htended.term.trans hlate, h.stands.now ▸ htended.inOffice hoffice, rfl,
      (hprompt _ hown (Nat.le_refl _)).tended htended hcommit, fun p hlt hp => ?_⟩,
    handled.drained, fun m hm => ?_⟩
  · obtain ⟨m, row, hm, hrow, hlag⟩ := hlags p hlt hp
    have hrow' : lead'.row? p = some row := by
      unfold Leader.row?
      rw [hprogress]
      exact hrow
    refine ⟨m, row, (handled.node?_of_ne hp).trans hm, hrow', ?_⟩
    rw [hout]
    exact begins.errand hseated (h.stands.node_config h.attained hn) hterm hn hm hp hrow' hlag
  · rw [hout] at hm
    obtain ⟨p, hp, sent, _, rfl⟩ := Node.exists_of_mem_roundRequests hm
    rw [hpeers, h.stands.size] at hp
    obtain ⟨hlt, hne⟩ := mem_peersOf.mp hp
    exact ⟨p, hlt, hne, .inl ⟨rfl, rfl⟩⟩

theorem AtRest.beat (h : A.AtRest lag c) (hn : c.node? A.leader = some n) :
    Ensures (A.now + A.config.longest < Instant.limit) (c.handle A.leader .heartbeatTimeout)
      fun c' => ∃ S : Sweep, S.Begins A lag c n ∧ S.Underway c' := by
  have hhandled : Ensures (A.now + A.config.longest < Instant.limit)
      (c.handle A.leader .heartbeatTimeout) fun c' => c'.Attainable →
        ∃ S : Sweep, S.Begins A lag c n ∧ S.Underway c' := by
    refine handle_handled (fun hdown => absurd (hn.symm.trans hdown) (Option.some_ne_none n))
      fun k draw hk => ?_
    obtain rfl := Option.some.inj (hn.symm.trans hk)
    constructor
    · rintro ⟨n', commands⟩ hnode c' handled attained
      exact h.underway hn hnode handled attained
    · intro reach
      obtain ⟨k, lead, hk, _, hrole, _⟩ := h.leads
      obtain rfl := Option.some.inj (hn.symm.trans hk)
      have hduration := (h.attained.incumbent h.stands.range hn hrole).1
      have hreach : c.now + n.config.longest < Instant.limit := by
        rw [h.stands.now, h.stands.node_config h.attained hn]
        exact reach
      show ∃ result, n.heartbeatTimeout c.now = .ok result
      unfold Node.heartbeatTimeout
      rw [hrole]
      exact Node.sendHeartbeats_returns hreach (.inl (hduration ▸ Node.lease_lt_limit hreach))
  refine hhandled.self.mono fun c' hc' => hc'.2 ?_
  have hcall : c.obey (.fire A.leader .heartbeat) = .ok c' := hc'.1
  exact h.attained.obey hcall

/-- What a round makes of a cluster and of its leader. -/
structure Swept (A : Assembly) (lag : Nat) (c : Cluster) (n : Node) (c' : Cluster) (n' : Node) :
    Prop where
  rest : A.AtRest (lag - 1) c'
  drained : c'.Drained A.leader
  leader : c'.node? A.leader = some n'
  log : c.Drained A.leader → n'.record.log = n.record.log
  known : lag = 0 → n.record.log.length ≤ n'.record.commitLength
  caughtUp : lag = 0 → ∀ p < A.size, p ≠ A.leader → ∃ m, c'.node? p = some m ∧
    n.record.log <+: m.record.log ∧ n.record.commitLength ≤ m.record.commitLength

theorem AtRest.round (h : A.AtRest lag c) (hn : c.node? A.leader = some n) :
    Ensures (A.now + A.config.longest < Instant.limit)
      (c.obeyAll [.fire A.leader .heartbeat, .deliverAll]) fun c' =>
        ∃ n', A.Swept lag c n c' n' := by
  refine (h.beat hn).bind fun c₁ hbegun => ?_
  obtain ⟨S, begins, hunderway⟩ := hbegun
  obtain rfl := begins.assembly
  obtain rfl := begins.lag
  have hdelivered := deliverAll_ensures hunderway fun c m rest hqueue hc => hc.deliver hqueue
  refine hdelivered.bind fun c₂ hdone => .pure ?_
  obtain ⟨hround, hquiet⟩ := hdone
  obtain ⟨hrest, n', hn', hsame, hcaught⟩ := hround.settles hquiet
  rw [begins.older, begins.commit] at hcaught
  refine ⟨n', hrest, hround.drained, hn', fun drained => ?_, fun hlag => (hcaught hlag).1,
    fun hlag => (hcaught hlag).2⟩
  rw [hsame, begins.log drained]

/-- Where nobody lags and nothing waits, a round makes all logs the leader's,
which knows that all of it is committed. -/
theorem Swept.alike (h : A.Swept 0 c n c' n') (drained : c.Drained A.leader) :
    n'.record.commitLength = n'.record.log.length ∧
      ∀ p < A.size, p ≠ A.leader → ∃ m, c'.node? p = some m ∧ m.record.log = n'.record.log ∧
        n.record.commitLength ≤ m.record.commitLength := by
  have hattained := h.rest.attained
  have hrange := h.rest.stands.range
  have hlog := h.log drained
  obtain ⟨k, lead, hk, hterm, hrole, _⟩ := h.rest.leads
  obtain rfl := Option.some.inj (h.leader.symm.trans hk)
  constructor
  · refine Nat.le_antisymm (hattained.commit_le_length hrange h.leader) ?_
    rw [hlog]
    exact h.known rfl
  · intro p hlt hp
    obtain ⟨m, hm, hpart, hle⟩ := h.caughtUp rfl p hlt hp
    have hleads : n'.isLeader = true := Node.isLeader_iff.mpr ⟨lead, hrole⟩
    have older : m.record.currentTerm ≤ n'.record.currentTerm := hterm ▸ h.rest.stands.le_term hm
    rw [← hlog] at hpart
    exact ⟨m, hm, hattained.log_eq_of_prefix hrange h.leader hleads hm older hpart, hle⟩

end Assembly

end Quorum
