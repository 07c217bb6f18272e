import Quorum.Proofs.Handlers.Timing
import Quorum.Proofs.Protocol.Ballots
import Quorum.Proofs.Handlers.Steps

/-!
# A watch on the leases

What leases rest on in a cluster in which no node goes down: the term, the
role and the estimate of every node, the messages, the latest instant, and
which estimates were ever *seen* at which node in which term. What was seen
is all that ties the promise a node made to an old leader to what it told a
new one, since both may be long past.

The facts that carry the leases are those of `Timed`. Each deed keeps them
(`Doing.timed`), and so do the passing of time and a node that wakes up.
-/

namespace Quorum

structure Watch where
  timing? : NodeId → Option Timing
  sent : List InFlight
  now : Instant
  seen : NodeId → Term → Instant → Prop

theorem Term.lt_next {t : Term} (h : t.next < Word.max) : t < t.next := by
  unfold Term.next at *
  split at h
  · next hlt => simp only [hlt, if_true]; exact Nat.lt_succ_self t
  · next hge => exact absurd h hge

namespace Watch

/-- In term `t` the node expected earlier leases to end no sooner. -/
def Promised (s : Watch) (i : NodeId) (t : Term) (ending : Instant) : Prop :=
  ∃ e, s.seen i t e ∧ ending ≤ e

/-- In term `t` the node expected no earlier lease to end later. -/
def Awaited (s : Watch) (i : NodeId) (t : Term) (ending : Instant) : Prop :=
  ∃ e, s.seen i t e ∧ e ≤ ending

/-- A node has done something and said something. -/
def put (s : Watch) (i : NodeId) (p : Timing) (said : List Command) : Watch where
  timing? := Function.update s.timing? i (some p)
  sent := s.sent ++ sends i said
  now := s.now
  seen j t e := s.seen j t e ∨ (j = i ∧ t = p.term ∧ e = p.estimate)

variable {M : Roster} {s : Watch} {i j a b v x : NodeId} {t u : Term} {e ending : Instant}
  {p : Timing} {said : List Command}

theorem Promised.put (h : s.Promised v t ending) : (s.put i p said).Promised v t ending := by
  obtain ⟨e, he, hle⟩ := h
  exact ⟨e, .inl he, hle⟩

theorem Awaited.put (h : s.Awaited v t ending) : (s.put i p said).Awaited v t ending := by
  obtain ⟨e, he, hle⟩ := h
  exact ⟨e, .inl he, hle⟩

theorem Awaited.mono {later : Instant} (h : s.Awaited v t ending) (hle : ending ≤ later) :
    s.Awaited v t later := by
  obtain ⟨e, he, hend⟩ := h
  exact ⟨e, he, Nat.le_trans hend hle⟩

theorem put_timing_self : (s.put i p said).timing? i = some p :=
  Function.update_self ..

theorem put_timing_of_ne (hj : j ≠ i) : (s.put i p said).timing? j = s.timing? j :=
  Function.update_of_ne hj ..

/-- Whoever is up afterwards is the node itself or was up before. -/
theorem put_timing_cases {q : Timing} (h : (s.put i p said).timing? j = some q) :
    j = i ∧ q = p ∨ j ≠ i ∧ s.timing? j = some q := by
  by_cases hj : j = i
  · subst hj
    rw [put_timing_self] at h
    exact .inl ⟨rfl, (Option.some.inj h).symm⟩
  · rw [put_timing_of_ne hj] at h
    exact .inr ⟨hj, h⟩

theorem put_sent_cases {m : InFlight} (h : m ∈ (s.put i p said).sent) :
    m ∈ s.sent ∨ (m.sender = i ∧ .send m.receiver m.message ∈ said) :=
  (List.mem_append.mp h).imp id mem_sends

/-- What holds at all times as long as no node goes down and the clock does
not go back. -/
structure Timed (M : Roster) (s : Watch) : Prop where
  /-- Terms and estimates only rise. -/
  seen_le : ∀ i t e, s.seen i t e → ∃ p, s.timing? i = some p ∧ t ≤ p.term ∧ e ≤ p.estimate
  ordered : ∀ i t u e f, s.seen i t e → s.seen i u f → t < u → e ≤ f
  senders : ∀ m ∈ s.sent, m.sender ∈ M.ids
  /-- A vote tells how long its giver expects an earlier lease to run. -/
  votes : ∀ v b r, ⟨v, b, .voteReply r⟩ ∈ s.sent → r.granted = true →
    s.Awaited v r.term (s.now + r.priorLease)
  counted : ∀ i p c, s.timing? i = some p → p.role = .candidate c →
    c.votes.Nodup ∧ ∀ v ∈ c.votes, v ∈ M.ids ∧ s.Awaited v p.term (s.now + c.priorLease)
  /-- A leader waits for what those who elected it expected. -/
  elected : ∀ i p l, s.timing? i = some p → p.role = .leader l →
    ∃ Q, M.Majority Q ∧ ∀ v ∈ Q, s.Awaited v p.term l.lease.barrier
  rounds : ∀ i p l, s.timing? i = some p → p.role = .leader l →
    l.lease.roundStartedAt ≤ s.now ∧ l.lease.duration = p.lease
  /-- A leader sends nothing of a round before it begins. -/
  requests : ∀ a x q, ⟨a, x, .appendRequest q⟩ ∈ s.sent → x ≠ a ∧
    ∃ p, s.timing? a = some p ∧ q.lease = p.lease ∧ q.term ≤ p.term ∧
      (q.term = p.term → (∀ c, p.role ≠ .candidate c) ∧
        ∀ l, p.role = .leader l → q.round ≤ l.lease.round)
  replies : ∀ x a r, ⟨x, a, .appendReply r⟩ ∈ s.sent → r.success = true →
    ∃ q, ⟨a, x, .appendRequest q⟩ ∈ s.sent ∧ q.term = r.term ∧ q.round = r.round
  /-- Who confirmed the latest round expects its lease. -/
  confirmed : ∀ a p l x r, s.timing? a = some p → p.role = .leader l →
    ⟨x, a, .appendReply r⟩ ∈ s.sent → r.success = true → r.term = p.term →
    r.round = l.lease.round →
    s.Promised x p.term (l.lease.roundStartedAt + l.lease.duration)
  acks : ∀ a p l, s.timing? a = some p → p.role = .leader l →
    l.lease.acks.Nodup ∧ ∀ x ∈ l.lease.acks, x ∈ M.ids ∧ x ≠ a ∧
      s.Promised x p.term (l.lease.roundStartedAt + l.lease.duration)

/-! ## Deeds -/

section deed

variable {heard? : Option (NodeId × Message)} {draw : Nat} {n n' : Node}

/-- A deed of a node that is up, and what it can have been told. -/
structure Doing (M : Roster) (s : Watch) (heard? : Option (NodeId × Message)) (draw : Nat)
    (n n' : Node) (said : List Command) : Prop where
  deed : Node.Deed heard? s.now draw n n' said
  up : s.timing? n.id = some n.timing
  seated : n.Seated M
  arrived : ∀ sender message, heard? = some (sender, message) →
    ⟨sender, n.id, message⟩ ∈ s.sent
  inRange : n'.record.currentTerm < Word.max

/-- The watch after a deed. -/
abbrev after (s : Watch) (n n' : Node) (said : List Command) : Watch :=
  s.put n.id n'.timing said

theorem seen_after :
    (s.after n n' said).seen n.id n'.record.currentTerm n'.priorLease.endsAt :=
  .inr ⟨rfl, rfl, rfl⟩

variable (hd : Doing M s heard? draw n n' said) (h : s.Timed M)

include hd h

theorem Doing.seen_le (i : NodeId) (t : Term) (e : Instant)
    (hseen : (s.after n n' said).seen i t e) :
    ∃ p, (s.after n n' said).timing? i = some p ∧ t ≤ p.term ∧ e ≤ p.estimate := by
  have hterm := hd.deed.frame.term_le
  have hestimate := hd.deed.estimate_le
  rcases hseen with hold | ⟨rfl, rfl, rfl⟩
  · obtain ⟨p, hp, ht, he⟩ := h.seen_le i t e hold
    by_cases hi : i = n.id
    · subst hi
      obtain rfl := Option.some.inj (hd.up.symm.trans hp)
      exact ⟨_, put_timing_self, Nat.le_trans ht hterm, Nat.le_trans he hestimate⟩
    · exact ⟨p, by rw [put_timing_of_ne hi, hp], ht, he⟩
  · exact ⟨_, put_timing_self, Nat.le_refl _, Nat.le_refl _⟩

theorem Doing.ordered (i : NodeId) (t u : Term) (e f : Instant)
    (ht : (s.after n n' said).seen i t e) (hu : (s.after n n' said).seen i u f) (htu : t < u) :
    e ≤ f := by
  have hestimate := hd.deed.estimate_le
  have hterm := hd.deed.frame.term_le
  rcases ht with ht | ⟨rfl, rfl, rfl⟩ <;> rcases hu with hu | ⟨hi, rfl, rfl⟩
  · exact h.ordered i t u e f ht hu htu
  · subst hi
    obtain ⟨p, hp, _, he⟩ := h.seen_le _ t e ht
    obtain rfl := Option.some.inj (hd.up.symm.trans hp)
    exact Nat.le_trans he hestimate
  · -- nothing was seen in a term that the node has not reached
    obtain ⟨p, hp, hle, _⟩ := h.seen_le _ u f hu
    obtain rfl := Option.some.inj (hd.up.symm.trans hp)
    exact absurd (Nat.lt_of_lt_of_le htu (Nat.le_trans hle hterm)) (Nat.lt_irrefl _)
  · exact absurd htu (Nat.lt_irrefl _)

theorem Doing.senders (m : InFlight) (hm : m ∈ (s.after n n' said).sent) : m.sender ∈ M.ids := by
  rcases put_sent_cases hm with hm | ⟨hsender, _⟩
  · exact h.senders m hm
  · exact hsender ▸ hd.seated.member

theorem Doing.votes (v b : NodeId) (r : VoteReply)
    (hm : ⟨v, b, .voteReply r⟩ ∈ (s.after n n' said).sent) (hgranted : r.granted = true) :
    (s.after n n' said).Awaited v r.term (s.now + r.priorLease) := by
  rcases put_sent_cases hm with hm | ⟨rfl, hsaid⟩
  · exact (h.votes v b r hm hgranted).put
  · rcases hd.deed.said_cases hsaid with ⟨q, hq⟩ | ⟨r', hr, hvote⟩ | ⟨q, l, hq, _⟩ | ⟨r', hr, _⟩
    · exact nomatch hq
    · obtain rfl := Message.voteReply.inj hr
      obtain ⟨hterm, hprior⟩ := hvote hgranted
      rw [hprior]
      exact ⟨n'.priorLease.endsAt, hterm ▸ seen_after, n'.priorLease.le_add_remaining s.now⟩
    · exact nomatch hq
    · exact nomatch hr

theorem Doing.counted (i : NodeId) (p : Timing) (c : Candidate)
    (hp : (s.after n n' said).timing? i = some p) (hrole : p.role = .candidate c) :
    c.votes.Nodup ∧ ∀ v ∈ c.votes, v ∈ M.ids ∧
      (s.after n n' said).Awaited v p.term (s.now + c.priorLease) := by
  rcases put_timing_cases hp with ⟨rfl, rfl⟩ | ⟨_, hp⟩
  · show c.votes.Nodup ∧ ∀ v ∈ c.votes, v ∈ M.ids ∧
      (s.after n n' said).Awaited v n'.record.currentTerm (s.now + c.priorLease)
    rcases hd.deed.candidate_cases hrole with ⟨c₀, hrole₀, hterm, hvotes, hprior⟩ |
      ⟨_, _, hvotes, hprior⟩ | ⟨c₀, sender, r, hrole₀, hterm, hheard, hgranted, hcurrent, hvotes,
        hprior⟩
    · obtain ⟨hnodup, hall⟩ := h.counted _ _ c₀ hd.up hrole₀
      rw [hvotes, hprior, hterm]
      exact ⟨hnodup, fun v hv => ⟨(hall v hv).1, (hall v hv).2.put⟩⟩
    · rw [hvotes, hprior]
      refine ⟨List.nodup_singleton _, fun v hv => ?_⟩
      obtain rfl := List.mem_singleton.mp hv
      exact ⟨hd.seated.member, n'.priorLease.endsAt, seen_after,
        n'.priorLease.le_add_remaining s.now⟩
    · obtain ⟨hnodup, hall⟩ := h.counted _ _ c₀ hd.up hrole₀
      have hm := hd.arrived sender _ hheard
      rw [hvotes, hprior, hterm]
      refine ⟨hnodup.insert, fun v hv => ?_⟩
      rcases List.mem_insert_iff.mp hv with rfl | hv
      · have hvote := (h.votes _ _ r hm hgranted).mono
          (Nat.add_le_add_left (Nat.le_max_right c₀.priorLease r.priorLease) s.now)
        rw [hcurrent] at hvote
        exact ⟨h.senders _ hm, hvote.put⟩
      · obtain ⟨hmember, hawaited⟩ := hall v hv
        exact ⟨hmember, (hawaited.mono (Nat.add_le_add_left (Nat.le_max_left _ _) _)).put⟩
  · obtain ⟨hnodup, hall⟩ := h.counted i p c hp hrole
    exact ⟨hnodup, fun v hv => ⟨(hall v hv).1, (hall v hv).2.put⟩⟩

theorem Doing.elected (i : NodeId) (p : Timing) (l : Leader)
    (hp : (s.after n n' said).timing? i = some p) (hrole : p.role = .leader l) :
    ∃ Q, M.Majority Q ∧ ∀ v ∈ Q, (s.after n n' said).Awaited v p.term l.lease.barrier := by
  rcases put_timing_cases hp with ⟨rfl, rfl⟩ | ⟨_, hp⟩
  · obtain ⟨hterm, hcases⟩ := hd.deed.leader_cases hrole
    show ∃ Q, M.Majority Q ∧
      ∀ v ∈ Q, (s.after n n' said).Awaited v n'.record.currentTerm l.lease.barrier
    rw [hterm]
    rcases hcases with ⟨c, hrole₀, hmajority, hgrant⟩ | ⟨l₀, hrole₀, hlease⟩
    · obtain ⟨hnodup, hall⟩ := h.counted _ _ c hd.up hrole₀
      obtain ⟨hbarrier, _⟩ := LeaderLease.grant_ok hgrant
      have hquorum : M.quorum ≤ c.votes.length := by
        rw [← hd.seated.quorum_eq]
        exact of_decide_eq_true hmajority
      refine ⟨c.votes, ⟨hnodup, fun v hv => (hall v hv).1, hquorum⟩, fun v hv => ?_⟩
      rw [hbarrier]
      exact (hall v hv).2.put
    · have hbarrier : l.lease.barrier = l₀.lease.barrier := by
        rcases hlease with hsame | hbegun | ⟨sender, r, renewed, _, _, _, hrecorded⟩
        · rw [hsame]
        · exact (LeaderLease.beginRound_ok hbegun).1
        · exact (LeaderLease.recordAck_ok hrecorded).1
      obtain ⟨Q, hQ, hall⟩ := h.elected _ _ l₀ hd.up hrole₀
      rw [hbarrier]
      exact ⟨Q, hQ, fun v hv => (hall v hv).put⟩
  · obtain ⟨Q, hQ, hall⟩ := h.elected i p l hp hrole
    exact ⟨Q, hQ, fun v hv => (hall v hv).put⟩

theorem Doing.rounds (i : NodeId) (p : Timing) (l : Leader)
    (hp : (s.after n n' said).timing? i = some p) (hrole : p.role = .leader l) :
    l.lease.roundStartedAt ≤ s.now ∧ l.lease.duration = p.lease := by
  rcases put_timing_cases hp with ⟨rfl, rfl⟩ | ⟨_, hp⟩
  · have hlease : n'.config.lease = n.config.lease := by rw [hd.deed.frame.config]
    show l.lease.roundStartedAt ≤ s.now ∧ l.lease.duration = n'.config.lease
    rw [hlease]
    obtain ⟨_, ⟨c, _, _, hgrant⟩ | ⟨l₀, hrole₀, hcases⟩⟩ := hd.deed.leader_cases hrole
    · obtain ⟨_, hduration, hstart, _⟩ := LeaderLease.grant_ok hgrant
      exact ⟨Nat.le_of_eq hstart, hduration⟩
    · obtain ⟨hstart₀, hduration₀⟩ := h.rounds _ _ l₀ hd.up hrole₀
      rcases hcases with hsame | hbegun | ⟨sender, r, renewed, _, _, _, hrecorded⟩
      · rw [hsame]
        exact ⟨hstart₀, hduration₀⟩
      · obtain ⟨_, hduration, _, hstart, _⟩ := LeaderLease.beginRound_ok hbegun
        exact ⟨Nat.le_of_eq hstart, hduration.trans hduration₀⟩
      · obtain ⟨_, hduration, _, hstart, _⟩ := LeaderLease.recordAck_ok hrecorded
        rw [hstart]
        exact ⟨hstart₀, hduration.trans hduration₀⟩
  · exact h.rounds i p l hp hrole

theorem Doing.requests (a x : NodeId) (q : AppendRequest)
    (hm : ⟨a, x, .appendRequest q⟩ ∈ (s.after n n' said).sent) : x ≠ a ∧
    ∃ p, (s.after n n' said).timing? a = some p ∧ q.lease = p.lease ∧ q.term ≤ p.term ∧
      (q.term = p.term → (∀ c, p.role ≠ .candidate c) ∧
        ∀ l, p.role = .leader l → q.round ≤ l.lease.round) := by
  have hframe := hd.deed.frame
  rcases put_sent_cases hm with hm | ⟨rfl, hsaid⟩
  · obtain ⟨hne, p, hp, hlease, hle, hsame⟩ := h.requests a x q hm
    refine ⟨hne, ?_⟩
    by_cases ha : a = n.id
    · subst ha
      obtain rfl := Option.some.inj (hd.up.symm.trans hp)
      refine ⟨_, put_timing_self, hlease.trans (congrArg TimerConfig.lease hframe.config.symm),
        Nat.le_trans hle hframe.term_le, fun hnow => ?_⟩
      -- the node is still in the term of the request, so it was already
      have hnow : q.term = n'.record.currentTerm := hnow
      have hbefore : q.term = n.record.currentTerm :=
        Nat.le_antisymm hle (hnow ▸ hframe.term_le)
      obtain ⟨hcandidate, hround⟩ := hsame hbefore
      constructor
      · intro c hc
        rcases hd.deed.candidate_cases hc with ⟨c₀, hrole₀, _⟩ | ⟨_, hterm, _⟩ |
          ⟨c₀, _, _, hrole₀, _⟩
        · exact hcandidate c₀ hrole₀
        · have hlt := Term.lt_next (hterm ▸ hd.inRange)
          rw [← hterm, ← hnow, hbefore] at hlt
          exact Nat.lt_irrefl _ hlt
        · exact hcandidate c₀ hrole₀
      · intro l hl
        obtain ⟨_, ⟨c, hrole₀, _⟩ | ⟨l₀, hrole₀, hcases⟩⟩ := hd.deed.leader_cases hl
        · exact absurd hrole₀ (hcandidate c)
        · have hround₀ := hround l₀ hrole₀
          rcases hcases with hsame | hbegun | ⟨sender, r, renewed, _, _, _, hrecorded⟩
          · rw [hsame]
            exact hround₀
          · rw [(LeaderLease.beginRound_ok hbegun).2.2.1]
            exact Nat.le_succ_of_le hround₀
          · rw [(LeaderLease.recordAck_ok hrecorded).2.2.1]
            exact hround₀
    · exact ⟨p, by rw [put_timing_of_ne ha, hp], hlease, hle, hsame⟩
  · rcases hd.deed.said_cases hsaid with ⟨q', hq⟩ | ⟨r, hr, _⟩ |
      ⟨q', l, hq, hrole, hpeer, hterm, hround, hlease⟩ | ⟨r, hr, _⟩
    · exact nomatch hq
    · exact nomatch hr
    · obtain rfl := Message.appendRequest.inj hq
      have hseated := hd.seated.of_frame hframe
      refine ⟨hframe.id ▸ (hseated.mem_peers.mp hpeer).2, _, put_timing_self, hlease,
        Nat.le_of_eq hterm, fun _ => ⟨fun c hc => (nomatch hrole.symm.trans hc), fun l' hl' => ?_⟩⟩
      obtain rfl := Role.leader.inj (hrole.symm.trans hl')
      exact Nat.le_of_eq hround
    · exact nomatch hr

theorem Doing.replies (x a : NodeId) (r : AppendReply)
    (hm : ⟨x, a, .appendReply r⟩ ∈ (s.after n n' said).sent) (hok : r.success = true) :
    ∃ q, ⟨a, x, .appendRequest q⟩ ∈ (s.after n n' said).sent ∧ q.term = r.term ∧
      q.round = r.round := by
  rcases put_sent_cases hm with hm | ⟨rfl, hsaid⟩
  · obtain ⟨q, hq, hsame⟩ := h.replies x a r hm hok
    exact ⟨q, List.mem_append_left _ hq, hsame⟩
  · rcases hd.deed.said_cases hsaid with ⟨q, hq⟩ | ⟨r', hr, _⟩ | ⟨q, l, hq, _⟩ | ⟨r', hr, hack⟩
    · exact nomatch hq
    · exact nomatch hr
    · exact nomatch hq
    · obtain rfl := Message.appendReply.inj hr
      obtain ⟨q, hheard, hterm, hround, _⟩ := hack hok
      exact ⟨q, List.mem_append_left _ (hd.arrived a _ hheard), hterm.symm, hround.symm⟩

theorem Doing.confirmed (a : NodeId) (p : Timing) (l : Leader) (x : NodeId) (r : AppendReply)
    (hp : (s.after n n' said).timing? a = some p) (hrole : p.role = .leader l)
    (hm : ⟨x, a, .appendReply r⟩ ∈ (s.after n n' said).sent) (hok : r.success = true)
    (hterm : r.term = p.term) (hround : r.round = l.lease.round) :
    (s.after n n' said).Promised x p.term (l.lease.roundStartedAt + l.lease.duration) := by
  rcases put_sent_cases hm with hm | ⟨hx, hsaid⟩
  · rcases put_timing_cases hp with ⟨rfl, rfl⟩ | ⟨_, hp⟩
    · -- an old reply to the node itself, which cannot be of a round begun now
      have hterm : r.term = n'.record.currentTerm := hterm
      obtain ⟨hkept, hcases⟩ := hd.deed.leader_cases hrole
      obtain ⟨q, hq, hqterm, hqround⟩ := h.replies x n.id r hm hok
      obtain ⟨_, p₀, hp₀, _, _, hsent⟩ := h.requests n.id x q hq
      obtain rfl := Option.some.inj (hd.up.symm.trans hp₀)
      have hcurrent : q.term = n.record.currentTerm := by rw [hqterm, hterm, hkept]
      obtain ⟨hcandidate, hbegun⟩ := hsent hcurrent
      show (s.after n n' said).Promised x n'.record.currentTerm _
      rw [hkept]
      rcases hcases with ⟨c, hrole₀, _⟩ | ⟨l₀, hrole₀, hlease⟩
      · exact absurd hrole₀ (hcandidate c)
      · have hpromised : r.round = l₀.lease.round → (s.after n n' said).Promised x
            n.record.currentTerm (l₀.lease.roundStartedAt + l₀.lease.duration) := fun hsame =>
          (h.confirmed n.id _ l₀ x r hd.up hrole₀ hm hok (hterm.trans hkept) hsame).put
        rcases hlease with hsame | hnew | ⟨sender, r', renewed, _, _, _, hrecorded⟩
        · rw [hsame] at hround ⊢
          exact hpromised hround
        · have hle := hbegun l₀ hrole₀
          rw [hqround, hround, (LeaderLease.beginRound_ok hnew).2.2.1] at hle
          exact absurd hle (Nat.not_succ_le_self _)
        · obtain ⟨_, hduration, hsame, hstart, _⟩ := LeaderLease.recordAck_ok hrecorded
          rw [hstart, hduration]
          exact hpromised (hround.trans hsame)
    · exact (h.confirmed a p l x r hp hrole hm hok hterm hround).put
  · -- a reply given now, to a request that was sent when the round began
    obtain rfl : x = n.id := hx
    rcases hd.deed.said_cases hsaid with ⟨q, hq⟩ | ⟨r', hr, _⟩ | ⟨q, l', hq, _⟩ | ⟨r', hr, hack⟩
    · exact nomatch hq
    · exact nomatch hr
    · exact nomatch hq
    · obtain rfl := Message.appendReply.inj hr
      obtain ⟨q, hheard, hqterm, hqround, hcurrent, hobserved⟩ := hack hok
      have hq := hd.arrived a _ hheard
      obtain ⟨hne, p₀, hp₀, hlease, _⟩ := h.requests a n.id q hq
      rcases put_timing_cases hp with ⟨rfl, _⟩ | ⟨_, hp⟩
      · exact absurd rfl hne
      · obtain rfl := Option.some.inj (hp.symm.trans hp₀)
        obtain ⟨hstart, hduration⟩ := h.rounds a p l hp hrole
        refine ⟨n'.priorLease.endsAt, ?_, ?_⟩
        · rw [← hterm, hqterm, hcurrent]
          exact seen_after
        · rw [hduration, ← hlease]
          exact Nat.le_trans (Nat.add_le_add_right hstart _) hobserved

theorem Doing.acks (a : NodeId) (p : Timing) (l : Leader)
    (hp : (s.after n n' said).timing? a = some p) (hrole : p.role = .leader l) :
    l.lease.acks.Nodup ∧ ∀ x ∈ l.lease.acks, x ∈ M.ids ∧ x ≠ a ∧
      (s.after n n' said).Promised x p.term (l.lease.roundStartedAt + l.lease.duration) := by
  rcases put_timing_cases hp with ⟨rfl, rfl⟩ | ⟨_, hp⟩
  · obtain ⟨hkept, hcases⟩ := hd.deed.leader_cases hrole
    show _ ∧ ∀ x ∈ l.lease.acks, _ ∧ _ ∧ (s.after n n' said).Promised x n'.record.currentTerm _
    rw [hkept]
    rcases hcases with ⟨c, _, _, hgrant⟩ | ⟨l₀, hrole₀, hlease⟩
    · obtain ⟨_, _, _, hnone⟩ := LeaderLease.grant_ok hgrant
      simp [hnone]
    · obtain ⟨hnodup, hall⟩ := h.acks _ _ l₀ hd.up hrole₀
      rcases hlease with hsame | hnew | ⟨sender, r, renewed, hheard, hok, hterm, hrecorded⟩
      · rw [hsame]
        exact ⟨hnodup, fun x hx => ⟨(hall x hx).1, (hall x hx).2.1, (hall x hx).2.2.put⟩⟩
      · obtain ⟨_, _, _, _, hnone⟩ := LeaderLease.beginRound_ok hnew
        simp [hnone]
      · obtain ⟨_, hduration, _, hstart, hacks⟩ := LeaderLease.recordAck_ok hrecorded
        rw [hstart, hduration]
        rcases hacks with hsame | ⟨hcons, hround, hnew⟩
        · rw [hsame]
          exact ⟨hnodup, fun x hx => ⟨(hall x hx).1, (hall x hx).2.1, (hall x hx).2.2.put⟩⟩
        · rw [hcons]
          refine ⟨List.nodup_cons.mpr ⟨hnew, hnodup⟩, fun x hx => ?_⟩
          rcases List.mem_cons.mp hx with rfl | hx
          · have hm := hd.arrived x _ hheard
            obtain ⟨q, hq, _⟩ := h.replies _ _ r hm hok
            exact ⟨h.senders _ hm, (h.requests _ _ q hq).1,
              (h.confirmed _ _ l₀ x r hd.up hrole₀ hm hok hterm hround).put⟩
          · exact ⟨(hall x hx).1, (hall x hx).2.1, (hall x hx).2.2.put⟩
  · obtain ⟨hnodup, hall⟩ := h.acks a p l hp hrole
    exact ⟨hnodup, fun x hx => ⟨(hall x hx).1, (hall x hx).2.1, (hall x hx).2.2.put⟩⟩

/-- Every deed keeps what leases rest on. -/
theorem Doing.timed : (s.after n n' said).Timed M where
  seen_le := hd.seen_le h
  ordered := hd.ordered h
  senders := hd.senders h
  votes := hd.votes h
  counted := hd.counted h
  elected := hd.elected h
  rounds := hd.rounds h
  requests := hd.requests h
  replies := hd.replies h
  confirmed := hd.confirmed h
  acks := hd.acks h

omit hd h in
/-- So does every sequence of deeds, at the end of which what was seen before
has still been seen. -/
theorem Timed.deeds {n n' : Node} (h : s.Timed M)
    (hdeeds : Node.Deeds heard? s.now draw n n' said) (up : s.timing? n.id = some n.timing)
    (seated : n.Seated M)
    (arrived : ∀ sender message, heard? = some (sender, message) →
      ⟨sender, n.id, message⟩ ∈ s.sent)
    (inRange : n'.record.currentTerm < Word.max) :
    ∃ seen, Timed M { s with
        timing? := Function.update s.timing? n.id (some n'.timing)
        sent := s.sent ++ sends n.id said
        seen } ∧
      ∀ v t e, s.seen v t e → seen v t e := by
  generalize hnow : s.now = now at hdeeds
  induction hdeeds generalizing s with
  | nil n =>
      subst hnow
      refine ⟨s.seen, ?_, fun _ _ _ h => h⟩
      rw [← up, Function.update_eq_self]
      simpa [sends] using h
  | @cons n₁ n₂ n₃ said more first rest ih =>
      subst hnow
      have hframe := first.frame
      have hrange₂ := Nat.lt_of_le_of_lt rest.frame.term_le inRange
      have hdoing : Doing M s heard? draw n₁ n₂ said := ⟨first, up, seated, arrived, hrange₂⟩
      obtain ⟨seen, htimed, hseen⟩ := ih (hdoing.timed h) (by rw [hframe.id]; exact put_timing_self)
        (seated.of_frame hframe)
        (fun sender message hheard => by
          rw [hframe.id]
          exact List.mem_append_left _ (arrived sender message hheard))
        inRange rfl
      refine ⟨seen, ?_, fun v t e he => hseen v t e (.inl he)⟩
      rw [hframe.id] at htimed
      simpa [after, put, sends_append, List.append_assoc] using htimed

end deed

/-! ## The clock, and nodes that wake up -/

theorem Timed.tick {later : Instant} (h : s.Timed M) (hle : s.now ≤ later) :
    Timed M { s with now := later } where
  seen_le := h.seen_le
  ordered := h.ordered
  senders := h.senders
  votes v b r hm hgranted := (h.votes v b r hm hgranted).mono (Nat.add_le_add_right hle _)
  counted i p c hp hrole := by
    obtain ⟨hnodup, hall⟩ := h.counted i p c hp hrole
    refine ⟨hnodup, fun v hv => ?_⟩
    obtain ⟨hmember, hawaited⟩ := hall v hv
    exact ⟨hmember, hawaited.mono (Nat.add_le_add_right hle _)⟩
  elected := h.elected
  rounds i p l hp hrole := by
    obtain ⟨hstart, hduration⟩ := h.rounds i p l hp hrole
    exact ⟨Nat.le_trans hstart hle, hduration⟩
  requests := h.requests
  replies := h.replies
  confirmed := h.confirmed
  acks := h.acks

/-- A node that was never up wakes up as a follower. -/
theorem Timed.wake {f : Follower} (h : s.Timed M) (down : s.timing? i = none)
    (hrole : p.role = .follower f) : (s.put i p []).Timed M := by
  have hunseen : ∀ t e, ¬ s.seen i t e := by
    intro t e hseen
    obtain ⟨q, hq, _⟩ := h.seen_le i t e hseen
    exact nomatch down.symm.trans hq
  have hsent : (s.put i p []).sent = s.sent := List.append_nil _
  have hother : ∀ {j q}, (s.put i p []).timing? j = some q →
      (∀ f, q.role ≠ .follower f) → s.timing? j = some q := by
    intro j q hq hno
    rcases put_timing_cases hq with ⟨_, rfl⟩ | ⟨_, hq⟩
    · exact absurd hrole (hno f)
    · exact hq
  constructor
  case seen_le =>
    rintro j t e (hold | ⟨rfl, rfl, rfl⟩)
    · obtain ⟨q, hq, hle⟩ := h.seen_le j t e hold
      have hj : j ≠ i := fun hj => hunseen t e (hj ▸ hold)
      exact ⟨q, by rw [put_timing_of_ne hj, hq], hle⟩
    · exact ⟨p, put_timing_self, Nat.le_refl _, Nat.le_refl _⟩
  case ordered =>
    rintro j t u e e' (ht | ⟨rfl, rfl, rfl⟩) (hu | ⟨hj, rfl, rfl⟩) htu
    · exact h.ordered j t u e e' ht hu htu
    · exact absurd (hj ▸ ht) (hunseen t e)
    · exact absurd hu (hunseen u e')
    · exact absurd htu (Nat.lt_irrefl _)
  case senders => exact fun m hm => h.senders m (hsent ▸ hm)
  case votes => exact fun v b r hm hgranted => (h.votes v b r (hsent ▸ hm) hgranted).put
  case counted =>
    intro j q c hq hc
    obtain ⟨hnodup, hall⟩ := h.counted j q c (hother hq (by simp [hc])) hc
    exact ⟨hnodup, fun v hv => ⟨(hall v hv).1, (hall v hv).2.put⟩⟩
  case elected =>
    intro j q l hq hl
    obtain ⟨Q, hQ, hall⟩ := h.elected j q l (hother hq (by simp [hl])) hl
    exact ⟨Q, hQ, fun v hv => (hall v hv).put⟩
  case rounds => exact fun j q l hq hl => h.rounds j q l (hother hq (by simp [hl])) hl
  case requests =>
    intro a x q hm
    obtain ⟨hne, p', hp', hrest⟩ := h.requests a x q (hsent ▸ hm)
    have ha : a ≠ i := fun ha => nomatch (ha ▸ down).symm.trans hp'
    exact ⟨hne, p', by rw [put_timing_of_ne ha, hp'], hrest⟩
  case replies =>
    intro x a r hm hok
    rw [hsent] at hm ⊢
    exact h.replies x a r hm hok
  case confirmed =>
    intro a q l x r hq hl hm hok hterm hround
    exact (h.confirmed a q l x r (hother hq (by simp [hl])) hl (hsent ▸ hm) hok hterm hround).put
  case acks =>
    intro a q l hq hl
    obtain ⟨hnodup, hall⟩ := h.acks a q l (hother hq (by simp [hl])) hl
    exact ⟨hnodup, fun x hx => ⟨(hall x hx).1, (hall x hx).2.1, (hall x hx).2.2.put⟩⟩

/-! ## Who waits for whom -/

/-- What a node promised to a leader, a leader of a later term that it voted
for has waited for. -/
theorem Timed.le_of_promised {later : Instant} (h : s.Timed M) (hp : s.Promised v t ending)
    (ha : s.Awaited v u later) (htu : t < u) : ending ≤ later := by
  obtain ⟨e, he, hle⟩ := hp
  obtain ⟨f, hf, hle'⟩ := ha
  exact Nat.le_trans hle (Nat.le_trans (h.ordered v t u e f he hf htu) hle')

end Watch

end Quorum
