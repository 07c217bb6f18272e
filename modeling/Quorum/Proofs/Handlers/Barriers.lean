import Quorum.Proofs.Handlers.Expiries
import Quorum.Replica

/-!
# How long a leader waits

A candidate remembers the longest time for which it or a voter of its own
expects an earlier lease to run. If it wins, it serves nobody until that time
is over, be it as the leader that it is now or as one that it becomes later:
until then its estimate of earlier leases runs on (`Timing.Waits`).
-/

namespace Quorum

/-! ## Counting votes -/

namespace Candidate

variable {c : Candidate} {voter x : NodeId} {granted : Bool} {prior : Duration}

theorem le_record_priorLease (c : Candidate) (voter : NodeId) (granted : Bool)
    (prior : Duration) : c.priorLease ≤ (c.record voter granted prior).priorLease := by
  unfold record
  split
  · exact Nat.le_max_left _ _
  · exact Nat.le_refl _

theorem prior_le_record_priorLease (hgranted : granted = true) :
    prior ≤ (c.record voter granted prior).priorLease := by
  unfold record
  rw [if_pos hgranted]
  exact Nat.le_max_right _ _

theorem mem_votes_record :
    x ∈ (c.record voter granted prior).votes ↔ x ∈ c.votes ∨ (x = voter ∧ granted = true) := by
  unfold record
  cases granted with
  | true => simp [or_comm]
  | false => simp

end Candidate

namespace Node

variable {heard? : Option (NodeId × Message)} {now ending : Instant} {draw : Nat} {n n' : Node}
  {c : Candidate} {l : Leader} {event : Event} {sender : NodeId} {message : Message}
  {commands said : List Command} {prior : Duration}

/-- A leader that has just won serves nobody for as long as its voters told, and
has a lease that goes on from there. -/
theorem won_barrier {lease₀ lease : LeaderLease}
    (granted : LeaderLease.grant now n.config.lease prior = .ok lease₀)
    (begun : lease₀.beginRound now n.quorum = .ok lease) :
    lease.barrier = now + prior ∧ lease.barrier ≤ lease.expiresAt := by
  have hbarrier := (LeaderLease.beginRound_ok begun).1.trans (LeaderLease.grant_ok granted).1
  refine ⟨hbarrier, Nat.le_trans ?_ (LeaderLease.beginRound_expiresAt begun).1⟩
  rw [hbarrier, LeaderLease.grant_expiresAt granted]
  exact Nat.le_add_right _ _

/-- How a node that counts votes goes on, if it has heard no other votes than
the given ones. -/
inductive Polled (now : Instant) (heard : NodeId → VoteReply → Prop) (n : Node) (c : Candidate)
    (n' : Node) : Prop
  /-- No vote of its term has reached it. -/
  | still (role : n'.role = .candidate c) (term : n'.record.currentTerm = n.record.currentTerm)
      (aside : ∀ voter r, heard voter r → r.term ≠ n.record.currentTerm)
  | count {voter : NodeId} {r : VoteReply} (told : heard voter r)
      (current : r.term = n.record.currentTerm)
      (role : n'.role = .candidate (c.record voter r.granted r.priorLease))
      (term : n'.record.currentTerm = n.record.currentTerm)
  | win {voter : NodeId} {r : VoteReply} {l : Leader} (told : heard voter r)
      (current : r.term = n.record.currentTerm) (role : n'.role = .leader l)
      (barrier : l.lease.barrier = now + (c.record voter r.granted r.priorLease).priorLease ∧
        l.lease.barrier ≤ l.lease.expiresAt)
  | ended (idle : n'.Idle)

theorem Polled.congr {heard heard' : NodeId → VoteReply → Prop} {m : Node}
    (h : Polled now heard n c m) (hears : ∀ voter r, heard voter r ↔ heard' voter r)
    (same : n'.timing = m.timing) : Polled now heard' n c n' := by
  have hrole : n'.role = m.role := congrArg Timing.role same
  have hterm : n'.record.currentTerm = m.record.currentTerm := congrArg Timing.term same
  cases h with
  | still role term aside =>
      exact .still (hrole.trans role) (hterm.trans term) fun voter r told =>
        aside voter r ((hears voter r).mpr told)
  | @count voter r told current role term =>
      exact .count ((hears voter r).mp told) current (hrole.trans role) (hterm.trans term)
  | @win voter r l told current role barrier =>
      exact .win ((hears voter r).mp told) current (hrole.trans role) barrier
  | ended idle => exact .ended (idle.of_role hrole)

theorem Response.polled (h : Response now draw n sender message n' said)
    (role : n.role = .candidate c) (tallying : c.tallying = true) :
    Polled now (fun voter r => Event.message sender message = .message voter (.voteReply r))
      n c n' := by
  cases h with
  | grant grants =>
      exact .still ((voteFor_role n _).trans role) (voteFor_term n _) fun _ _ h => nomatch h
  | deny grants => exact .still role rfl fun _ _ h => nomatch h
  | discard idle =>
      refine .still role rfl fun voter r heard current => ?_
      obtain ⟨_, hmessage⟩ := Event.message.inj heard
      obtain rfl := Message.voteReply.inj hmessage
      exact nomatch (idle current c role).symm.trans tallying
  | count role' tallying' current =>
      obtain rfl := Role.candidate.inj (role.symm.trans role')
      exact .count rfl current rfl rfl
  | lose role' tallying' current => exact .ended (.of_candidate rfl rfl)
  | win role' tallying' current majority granted begun =>
      obtain rfl := Role.candidate.inj (role.symm.trans role')
      exact .win rfl current (commitTo_same _ _).1 (won_barrier granted begun)
  | reject stale => exact .still role rfl fun _ _ h => nomatch h
  | refuse current accepts => exact .ended (.of_follower rfl)
  | accept current accepts => exact .ended (.of_follower (accepting_same _ _).1)
  | ignore idle => exact .still role rfl fun _ _ h => nomatch h
  | note role' current success recorded => exact nomatch role.symm.trans role'
  | lower role' current failure => exact nomatch role.symm.trans role'

/-- Timers leave a tally open as it is, or close it. -/
theorem Expiry.counting {timer : Timer} (h : Expiry now draw n timer n' commands)
    (role : n.role = .candidate c) (tallying : c.tallying = true) : n'.Idle ∨ n' = n := by
  have hcounts : ¬ n.Idle := fun idle => Bool.false_ne_true ((idle.2 c role).symm.trans tallying)
  cases h with
  | idle => exact .inr rfl
  | stand free => exact absurd free hcounts
  | fail free => exact absurd free hcounts
  | win free granted begun => exact absurd free hcounts
  | lose role' tallying' passed => exact .inl (.of_candidate rfl rfl)
  | round role' begun => exact nomatch role.symm.trans role'
  | resign role' expired => exact nomatch role.symm.trans role'

theorem handle_polled (h : n.handle event now draw = .ok (n', commands))
    (role : n.role = .candidate c) (tallying : c.tallying = true) :
    Polled now (fun voter r => event = .message voter (.voteReply r)) n c n' := by
  have htimer : (∀ voter r, event ≠ .message voter (.voteReply r)) → n'.Idle ∨ n' = n →
      Polled now (fun voter r => event = .message voter (.voteReply r)) n c n' := by
    intro silent outcome
    rcases outcome with idle | rfl
    · exact .ended idle
    · exact .still role rfl fun voter r heard => absurd heard (silent voter r)
  cases event with
  | electionTimeout =>
      exact htimer (by simp) ((timer_expires .election h).counting role tallying)
  | voteRoundTimeout =>
      exact htimer (by simp) ((timer_expires .voteRound h).counting role tallying)
  | heartbeatTimeout =>
      exact htimer (by simp) ((timer_expires .heartbeat h).counting role tallying)
  | leaseTimeout =>
      exact htimer (by simp) ((timer_expires .leaseExpiry h).counting role tallying)
  | message sender message =>
      rcases Nat.lt_or_ge n.record.currentTerm message.term with newer | older
      · exact .ended (handleMessage_idle h (.inr newer))
      · exact (handleMessage_response h older).polled role tallying

/-! ## Standing for election -/

/-- A node has just stood for election: it counts votes from then on, or it has
won at once. -/
inductive Stood (now : Instant) (n n' : Node) : Prop
  | counting {c : Candidate} (role : n'.role = .candidate c) (tallying : c.tallying = true)
      (votes : c.votes = [n.id]) (prior : c.priorLease = n.priorLease.remaining now)
  | won {l : Leader} (role : n'.role = .leader l)
      (barrier : l.lease.barrier = now + n.priorLease.remaining now ∧
        l.lease.barrier ≤ l.lease.expiresAt)

theorem Stood.congr {m : Node} (h : n.Stood now m) (same : n'.timing = m.timing) :
    n.Stood now n' := by
  have hrole : n'.role = m.role := congrArg Timing.role same
  cases h with
  | counting role tallying votes prior => exact .counting (hrole.trans role) tallying votes prior
  | won role barrier => exact .won (hrole.trans role) barrier

theorem Expiry.stood {timer : Timer} (h : Expiry now draw n timer n' commands) (idle : n.Idle) :
    n'.Idle ∨ n.Stood now n' := by
  cases h with
  | idle => exact .inl idle
  | stand free => exact .inr (.counting rfl rfl rfl rfl)
  | fail free => exact .inl (.of_candidate rfl rfl)
  | win free granted begun => exact .inr (.won (commitTo_same _ _).1 (won_barrier granted begun))
  | lose role tallying passed => exact .inl (.of_candidate rfl rfl)
  | round role begun => exact (idle.not_leader role).elim
  | resign role expired => exact (idle.not_leader role).elim

/-- A node that stands for nothing goes on like that, or stands for election. -/
theorem handle_stood (h : n.handle event now draw = .ok (n', commands)) (idle : n.Idle) :
    n'.Idle ∨ n.Stood now n' := by
  cases event with
  | electionTimeout => exact (timer_expires .election h).stood idle
  | voteRoundTimeout => exact (timer_expires .voteRound h).stood idle
  | heartbeatTimeout => exact (timer_expires .heartbeat h).stood idle
  | leaseTimeout => exact (timer_expires .leaseExpiry h).stood idle
  | message sender message => exact .inl (handleMessage_idle h (.inl idle))

/-- No timer makes a leader anything but a follower. -/
theorem Expiry.leader {timer : Timer} (h : Expiry now draw n timer n' commands)
    (role : n.role = .leader l) : n'.Idle ∨ ∃ l', n'.role = .leader l' := by
  have hleads : ¬ n.Idle := fun idle => idle.not_leader role
  cases h with
  | idle => exact .inr ⟨l, role⟩
  | stand free => exact absurd free hleads
  | fail free => exact absurd free hleads
  | win free granted begun => exact absurd free hleads
  | lose role' tallying passed => exact nomatch role.symm.trans role'
  | round role' begun => exact .inr ⟨_, (commitTo_same _ _).1⟩
  | resign role' expired =>
      obtain ⟨f, hf⟩ := n.asFollower_role none now draw
      exact .inl (.of_follower hf)

/-- A leader goes on as one or stands for nothing. -/
theorem handle_leader (h : n.handle event now draw = .ok (n', commands))
    (role : n.role = .leader l) : n'.Idle ∨ ∃ l', n'.role = .leader l' := by
  cases event with
  | electionTimeout => exact (timer_expires .election h).leader role
  | voteRoundTimeout => exact (timer_expires .voteRound h).leader role
  | heartbeatTimeout => exact (timer_expires .heartbeat h).leader role
  | leaseTimeout => exact (timer_expires .leaseExpiry h).leader role
  | message sender message =>
      rcases Nat.lt_or_ge n.record.currentTerm message.term with newer | older
      · exact .inl (handleMessage_idle h (.inr newer))
      · exact ((handleMessage_response h older).leader role).imp_right fun ⟨l', hl', _⟩ => ⟨l', hl'⟩

end Node

/-! ## Waiting -/

/-- Until the given instant the node serves nobody if it leads, or if it wins
from now on. -/
structure Timing.Awaits (p : Timing) (now ending : Instant) : Prop where
  candidate : ∀ c, p.role = .candidate c → ending ≤ now + c.priorLease
  leader : ∀ l, p.role = .leader l → ending ≤ l.lease.barrier

/-- Until then it will serve nobody, whatever happens to it: as anything but a
leader it knows of a lease that runs so long. -/
structure Timing.Waits (p : Timing) (now ending : Instant) : Prop extends p.Awaits now ending where
  lasting : ∀ l, p.role = .leader l → ending ≤ l.lease.expiresAt
  estimate : (∀ l, p.role ≠ .leader l) → ending ≤ p.estimate

theorem Timing.Waits.mono {p : Timing} {now later ending : Instant} (h : p.Waits now ending)
    (hle : now ≤ later) : p.Waits later ending where
  candidate c role := Nat.le_trans (h.candidate c role) (Nat.add_le_add_right hle _)
  leader := h.leader
  lasting := h.lasting
  estimate := h.estimate

namespace Node

variable {heard? : Option (NodeId × Message)} {now ending : Instant} {draw : Nat} {n n' : Node}
  {l : Leader} {said : List Command}

/-- Who stands for election awaits the end of the leases that it knows of. -/
theorem Stood.awaits (h : n.Stood now n') : n'.timing.Awaits now n.priorLease.endsAt := by
  have hremaining := n.priorLease.le_add_remaining now
  cases h with
  | counting role tallying votes prior =>
      refine ⟨fun c' role' => ?_, fun l role' => nomatch role.symm.trans role'⟩
      obtain rfl := Role.candidate.inj (role.symm.trans role')
      exact prior ▸ hremaining
  | won role barrier =>
      refine ⟨fun c role' => (nomatch role.symm.trans role'), fun l' role' => ?_⟩
      obtain rfl := Role.leader.inj (role.symm.trans role')
      exact barrier.1 ▸ hremaining

/-- While it counts votes, a node awaits what it did before and what the votes
tell it to. -/
theorem Polled.awaits {heard : NodeId → VoteReply → Prop} {c : Candidate}
    (h : Polled now heard n c n') (busy : ¬ n'.Idle)
    (known : ending ≤ now + c.priorLease ∨
      ∃ voter r, heard voter r ∧ r.term = n.record.currentTerm ∧ r.granted = true ∧
        ending ≤ now + r.priorLease)
    (single : ∀ voter r voter' r', heard voter r → heard voter' r' → r = r') :
    n'.timing.Awaits now ending := by
  have hcounted : ∀ {voter : NodeId} {r : VoteReply}, heard voter r →
      ending ≤ now + (c.record voter r.granted r.priorLease).priorLease := by
    intro voter r told
    rcases known with hbefore | ⟨voter', r', told', _, hgranted, htold⟩
    · have hkept := c.le_record_priorLease voter r.granted r.priorLease
      exact Nat.le_trans hbefore (Nat.add_le_add_left hkept now)
    · -- the vote that tells it is the one that is counted
      obtain rfl := single _ _ _ _ told' told
      exact Nat.le_trans htold
        (Nat.add_le_add_left (Candidate.prior_le_record_priorLease hgranted) now)
  cases h with
  | still role term aside =>
      refine ⟨fun c' role' => ?_, fun l role' => nomatch role.symm.trans role'⟩
      obtain rfl := Role.candidate.inj (role.symm.trans role')
      rcases known with hbefore | ⟨voter, r, told, current, _, _⟩
      · exact hbefore
      · exact absurd current (aside voter r told)
  | count told current role term =>
      refine ⟨fun c' role' => ?_, fun l role' => nomatch role.symm.trans role'⟩
      obtain rfl := Role.candidate.inj (role.symm.trans role')
      exact hcounted told
  | win told current role barrier =>
      refine ⟨fun c role' => (nomatch role.symm.trans role'), fun l' role' => ?_⟩
      obtain rfl := Role.leader.inj (role.symm.trans role')
      exact barrier.1 ▸ hcounted told
  | ended idle => exact absurd idle busy

/-- A leader that gives up keeps its own lease in mind. -/
theorem asFollower_expiresAt (role : n.role = .leader l) (leader? : Option NodeId)
    (now : Instant) (draw : Nat) :
    l.lease.expiresAt ≤ (n.asFollower leader? now draw).priorLease.endsAt := by
  rw [asFollower, role]
  exact Nat.le_max_right _ _

theorem Deed.expiresAt_le (h : Deed heard? now draw n n' said) (role : n.role = .leader l)
    (deposed : ∀ l', n'.role ≠ .leader l') : l.lease.expiresAt ≤ n'.priorLease.endsAt := by
  have hstays : n'.role = n.role → l.lease.expiresAt ≤ n'.priorLease.endsAt := fun hrole =>
    absurd (hrole.trans role) (deposed l)
  cases h with
  | adopt heard newer => exact asFollower_expiresAt (n := n.withRecord _) role none now draw
  | expire role' expired => exact asFollower_expiresAt role none now draw
  | follow heard current =>
      exact Nat.le_trans (asFollower_expiresAt role _ now draw) (Nat.le_max_left _ _)
  | stand free => exact nomatch free.1.symm.trans (isLeader_iff.mpr ⟨l, role⟩)
  | count role' tallying heard current => exact nomatch role.symm.trans role'
  | lose role' tallying => exact nomatch role.symm.trans role'
  | win role' tallying majority granted => exact nomatch role.symm.trans role'
  | round role' begun => exact absurd rfl (deposed _)
  | advance role' => exact hstays (commitTo_same _ _).1
  | append operation role' asked => exact hstays rfl
  | grant heard grants => exact hstays (voteFor_role n _)
  | deny heard grants => exact hstays rfl
  | accept role' heard accepts observed => exact nomatch role.symm.trans role'
  | refuse heard accepts => exact hstays rfl
  | note role' heard current success recorded => exact absurd rfl (deposed _)
  | lower role' heard current failure => exact absurd rfl (deposed _)

/-- A leader has its barrier from the election that it won, and its lease never
comes to end sooner. -/
theorem Deed.barrier_cases {l' : Leader} (h : Deed heard? now draw n n' said)
    (role' : n'.role = .leader l') :
    (∃ c, n.role = .candidate c ∧ l'.lease.barrier = now + c.priorLease ∧
      l'.lease.barrier ≤ l'.lease.expiresAt) ∨
    ∃ l, n.role = .leader l ∧ l'.lease.barrier = l.lease.barrier ∧
      l.lease.expiresAt ≤ l'.lease.expiresAt := by
  obtain ⟨_, ⟨c, role, _, granted⟩ | ⟨l, role, hlease⟩⟩ := h.leader_cases role'
  · have hbarrier := (LeaderLease.grant_ok granted).1
    have hexpires := LeaderLease.grant_expiresAt granted
    exact .inl ⟨c, role, hbarrier, hbarrier ▸ hexpires ▸ Nat.le_add_right _ _⟩
  · refine .inr ⟨l, role, ?_⟩
    rcases hlease with hsame | hbegun | ⟨_, _, _, _, _, _, hrecorded⟩
    · rw [hsame]
      exact ⟨rfl, Nat.le_refl _⟩
    · exact ⟨(LeaderLease.beginRound_ok hbegun).1, (LeaderLease.beginRound_expiresAt hbegun).1⟩
    · exact ⟨(LeaderLease.recordAck_ok hrecorded).1, LeaderLease.recordAck_expiresAt hrecorded⟩

/-- Whatever a node does, it waits for as long as it did. -/
theorem Deed.waits (h : Deed heard? now draw n n' said) (hw : n.timing.Waits now ending) :
    n'.timing.Waits now ending := by
  refine ⟨⟨?candidate, ?leader⟩, ?lasting, ?estimate⟩
  case candidate =>
    intro c' role'
    rcases h.candidate_cases role' with ⟨c, role, _, _, hprior⟩ | ⟨hno, _, _, hprior⟩ |
      ⟨c, _, r, role, _, _, _, _, _, hprior⟩
    · exact hprior ▸ hw.candidate c role
    · have free : ∀ l, n.role ≠ .leader l := fun l role =>
        nomatch hno.symm.trans (isLeader_iff.mpr ⟨l, role⟩)
      rw [hprior]
      calc ending ≤ n.priorLease.endsAt := hw.estimate free
        _ ≤ n'.priorLease.endsAt := h.estimate_le
        _ ≤ now + n'.priorLease.remaining now := n'.priorLease.le_add_remaining now
    · rw [hprior]
      exact Nat.le_trans (hw.candidate c role) (Nat.add_le_add_left (Nat.le_max_left _ _) _)
  case leader =>
    intro l' role'
    rcases h.barrier_cases role' with ⟨c, role, hbarrier, _⟩ | ⟨l, role, hbarrier, _⟩
    · exact hbarrier ▸ hw.candidate c role
    · exact hbarrier ▸ hw.leader l role
  case lasting =>
    intro l' role'
    rcases h.barrier_cases role' with ⟨c, role, hbarrier, hexpires⟩ | ⟨l, role, _, hexpires⟩
    · exact Nat.le_trans (hbarrier ▸ hw.candidate c role) hexpires
    · exact Nat.le_trans (hw.lasting l role) hexpires
  case estimate =>
    intro deposed
    by_cases hleader : ∃ l, n.role = .leader l
    · obtain ⟨l, role⟩ := hleader
      exact Nat.le_trans (hw.lasting l role) (h.expiresAt_le role deposed)
    · exact Nat.le_trans (hw.estimate fun l role => hleader ⟨l, role⟩) h.estimate_le

theorem Deeds.waits (h : Deeds heard? now draw n n' said) (hw : n.timing.Waits now ending) :
    n'.timing.Waits now ending := by
  induction h with
  | nil n => exact hw
  | cons first _ ih => exact ih (first.waits hw)

end Node

/-- A node that waits answers no request from its store and appends none. -/
theorem Replica.serve_waits {r : Replica MemoryStorage} {start ending now : Instant}
    (hw : r.node.timing.Waits start ending) (hnow : now < ending) (request : Request) :
    r.serve request now =
      (r, .ok (if r.node.isLeader then .deferred request else .reply r.redirect)) := by
  unfold Replica.serve
  cases hleader : r.node.isLeader with
  | false => rfl
  | true =>
      obtain ⟨l, role⟩ := Node.isLeader_iff.mp hleader
      have hearly : l.lease.isPastBarrier now = false :=
        decide_eq_false (Nat.not_le.mpr (Nat.lt_of_lt_of_le hnow (hw.leader l role)))
      cases request with
      | get key =>
          simp [isReady, Node.canServeReads, role, LeaderLease.allowsReads, hearly]
      | set key value => simp [isReady, Node.canAcceptWrites, role, hearly]

end Quorum
