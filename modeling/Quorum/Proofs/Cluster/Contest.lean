import Quorum.Proofs.Cluster.Reachable

/-!
# The outcome of an election

A member stands for election and all messages are delivered, those that were
under way before included. The phases through which this can go form an
invariant of the deliveries (`Contest`); if the member leads a new term in the
end, then every member that its messages reach has followed it in that term
(`elect_inaugurated`).

What makes this true is the order of delivery. A message from before the
member won is delivered before its requests are. So a member that gets ahead of
the term does so before it is asked to follow, and then its refusal, which
is still to come, deposes the winner.
-/

namespace Quorum

/-- A request of `l` in a term is on its way to `p`. -/
def Requested (queue : List InFlight) (l : NodeId) (term : Term) (p : NodeId) : Prop :=
  ∃ q : AppendRequest, q.term = term ∧ ⟨l, p, .appendRequest q⟩ ∈ queue

theorem Requested.mono {queue queue' : List InFlight} {l p : NodeId} {term : Term}
    (h : Requested queue l term p) (hsub : queue ⊆ queue') : Requested queue' l term p := by
  obtain ⟨q, hterm, hq⟩ := h
  exact ⟨q, hterm, hsub hq⟩

/-- The request is not the first message, or it is still on its way. -/
theorem Requested.tail {m : InFlight} {rest : List InFlight} {l p : NodeId} {term : Term}
    (h : Requested (m :: rest) l term p) (hm : m.receiver ≠ p) : Requested rest l term p := by
  obtain ⟨q, hterm, hq⟩ := h
  rcases List.mem_cons.mp hq with rfl | hq
  · exact absurd rfl hm
  · exact ⟨q, hterm, hq⟩

/-- A queue of old and fresh messages without its first one. A request among
the fresh ones is still there, unless it was the first of all. -/
structure QueueTail (m : InFlight) (rest old fresh old' fresh' : List InFlight) : Prop where
  queue : rest = old' ++ fresh'
  sub : fresh' ⊆ fresh
  first : old = [] → old' = [] ∧ m ∈ fresh
  requested : ∀ {l term p}, Requested fresh l term p →
    Requested fresh' l term p ∨ (old = [] ∧ Requested [m] l term p)

theorem exists_queue_tail {m : InFlight} {rest old fresh : List InFlight}
    (queue : m :: rest = old ++ fresh) :
    ∃ old' fresh', QueueTail m rest old fresh old' fresh' := by
  cases old with
  | cons m' old =>
      obtain ⟨rfl, rfl⟩ := List.cons.inj queue
      exact ⟨old, fresh, rfl, List.Subset.refl _, fun h => (nomatch h), fun h => .inl h⟩
  | nil =>
      obtain rfl : m :: rest = fresh := queue
      refine ⟨[], rest, rfl, List.subset_cons_self _ _, fun _ => ⟨rfl, List.mem_cons_self⟩, ?_⟩
      rintro l term p ⟨q, hterm, hq⟩
      rcases List.mem_cons.mp hq with rfl | hq
      · exact .inr ⟨rfl, q, hterm, List.mem_cons_self⟩
      · exact .inl ⟨q, hterm, hq⟩

namespace Node

variable {n n' : Node} {l : Leader} {start dawn : Instant} {term : Term}

theorem Tended.inOffice (h : n.Tended n') (office : n.InOffice l start) : n'.InOffice l start where
  role := h.role.trans office.role
  heartbeatAt := h.config ▸ office.heartbeatAt
  roundStartedAt := office.roundStartedAt
  duration := h.config ▸ office.duration
  rows := h.peers ▸ office.rows

theorem Tended.calm (h : n.Tended n') (calm : n.Calm term dawn) : n'.Calm term dawn :=
  calm.of_same h.role h.term

theorem Tended.idle (h : n.Tended n') (idle : n.Idle) : n'.Idle := idle.of_role h.role

end Node

namespace Cluster

variable {c c' : Cluster} {l r : NodeId} {T : Term} {m : InFlight} {rest out : List InFlight}
  {n n' : Node}

/-- Somebody is ahead of the term, and the node that leads it will hear of
it: by a message, or by the answer to a request. -/
inductive Overtaken (l : NodeId) (T : Term) (c : Cluster) : Prop
  | told {m : InFlight} (underway : m ∈ c.inFlight) (receiver : m.receiver = l)
      (heard : m.sender ∉ c.isolated) (newer : T < m.message.term)
  | asked {p : NodeId} {n : Node} (other : p ≠ l) (node : c.node? p = some n)
      (heard : p ∉ c.isolated) (newer : T < n.record.currentTerm)
      (requested : Requested c.inFlight l T p)

/-- Where the other members are that can be reached once `l` has won: each is
asked to follow by a message of `fresh`, or follows already, and then nothing
is left of the messages from before. -/
def Rallied (l : NodeId) (T : Term) (old fresh : List InFlight) (c : Cluster) : Prop :=
  ∀ p n, p ≠ l → c.node? p = some n → p ∉ c.isolated → n.record.currentTerm ≤ T ∧
    (Requested fresh l T p ∨ (old = [] ∧ n.Calm T (c.now + c.config.electionMin)))

/-- How the candidacy of `l` in a term can stand. -/
inductive Contest (l : NodeId) (T : Term) (c : Cluster) : Prop
  | counting {n : Node} {cand : Candidate} (node : c.node? l = some n)
      (term : n.record.currentTerm = T) (role : n.role = .candidate cand)
      (tallying : cand.tallying = true)
  | lost {n : Node} (node : c.node? l = some n) (reached : T ≤ n.record.currentTerm)
      (idle : n.Idle)
  | overtaken {n : Node} (node : c.node? l = some n)
      (stands : n.record.currentTerm = T ∨ (T ≤ n.record.currentTerm ∧ n.Idle))
      (ahead : c.Overtaken l T)
  | won {n : Node} {lead : Leader} {old fresh : List InFlight} (node : c.node? l = some n)
      (term : n.record.currentTerm = T) (office : n.InOffice lead c.now)
      (lasts : c.now + c.config.lease ≤ lead.lease.expiresAt)
      (queue : c.inFlight = old ++ fresh)
      (current : ∀ m ∈ fresh, m.sender ∉ c.isolated → m.message.term ≤ T)
      (rallied : c.Rallied l T old fresh)

theorem Contest.tended (h : c.Contest l T) (tended : c.Tended c') : c'.Contest l T := by
  cases h with
  | counting node term role tallying =>
      obtain ⟨n', hn', ht⟩ := tended.up _ _ node
      exact .counting hn' (ht.term.trans term) (ht.role.trans role) tallying
  | lost node reached idle =>
      obtain ⟨n', hn', ht⟩ := tended.up _ _ node
      exact .lost hn' (ht.term ▸ reached) (ht.idle idle)
  | overtaken node stands ahead =>
      obtain ⟨n', hn', ht⟩ := tended.up _ _ node
      refine .overtaken hn' ?_ ?_
      · rw [ht.term]
        exact stands.imp_right fun h => ⟨h.1, ht.idle h.2⟩
      · cases ahead with
        | told underway receiver heard newer =>
            exact .told (tended.inFlight ▸ underway) receiver (tended.isolated ▸ heard) newer
        | asked other node heard newer requested =>
            obtain ⟨m', hm', hm⟩ := tended.up _ _ node
            exact .asked other hm' (tended.isolated ▸ heard) (hm.term ▸ newer)
              (tended.inFlight ▸ requested)
  | won node term office lasts queue current rallied =>
      obtain ⟨n', hn', ht⟩ := tended.up _ _ node
      refine .won hn' (ht.term.trans term) (tended.now ▸ ht.inOffice office) ?_
        (tended.inFlight.trans queue) (tended.isolated ▸ current) fun p m' hp hm' heard => ?_
      · rw [tended.now, tended.config]
        exact lasts
      · cases hm : c.node? p with
        | none => exact nomatch (tended.down p hm).symm.trans hm'
        | some m =>
            obtain ⟨m'', hm'', hmt⟩ := tended.up p m hm
            obtain rfl := Option.some.inj (hm''.symm.trans hm')
            obtain ⟨hterm, hcalm⟩ := rallied p m hp hm (tended.isolated ▸ heard)
            rw [hmt.term, tended.now, tended.config]
            exact ⟨hterm, hcalm.imp_right fun h => ⟨h.1, hmt.calm h.2⟩⟩

/-- A message that gets lost decides nothing. -/
theorem Contest.dropped (h : c.Contest l T) (hqueue : c.inFlight = m :: rest)
    (reachable : l ∉ c.isolated)
    (lost : m.sender ∈ c.isolated ∨ m.receiver ∈ c.isolated ∨ c.node? m.receiver = none) :
    Contest l T { c with inFlight := rest } := by
  -- no request of `l` to a member that hears gets lost
  have hrequested : ∀ p n queue, c.node? p = some n → p ∉ c.isolated →
      Requested (m :: queue) l T p → Requested queue l T p := by
    rintro p n queue hn heard ⟨q, hterm, hq⟩
    rcases List.mem_cons.mp hq with rfl | hq
    · rcases lost with hlost | hlost | hlost
      · exact absurd hlost reachable
      · exact absurd hlost heard
      · exact nomatch hn.symm.trans hlost
    · exact ⟨q, hterm, hq⟩
  cases h with
  | counting node term role tallying => exact .counting node term role tallying
  | lost node reached idle => exact .lost node reached idle
  | overtaken node stands ahead =>
      refine .overtaken node stands ?_
      cases ahead with
      | told underway receiver heard newer =>
          rw [hqueue] at underway
          rcases List.mem_cons.mp underway with rfl | underway
          · rcases lost with hlost | hlost | hlost
            · exact absurd hlost heard
            · exact absurd (receiver ▸ hlost) reachable
            · exact nomatch (receiver ▸ node).symm.trans hlost
          · exact .told underway receiver heard newer
      | asked other node heard newer requested =>
          rw [hqueue] at requested
          exact .asked other node heard newer (hrequested _ _ _ node heard requested)
  | @won n lead old fresh node term office lasts queue current rallied =>
      rw [hqueue] at queue
      cases old with
      | cons m' old =>
          obtain ⟨rfl, rfl⟩ := List.cons.inj queue
          refine .won node term office lasts rfl current fun p m hp hm heard => ?_
          obtain ⟨hterm, hasked | ⟨hnil, _⟩⟩ := rallied p m hp hm heard
          · exact ⟨hterm, .inl hasked⟩
          · exact nomatch hnil
      | nil =>
          obtain rfl : m :: rest = fresh := queue
          refine .won node term office lasts (List.nil_append rest).symm
            (fun m' hm' => current m' (List.mem_cons_of_mem _ hm')) fun p m hp hm heard => ?_
          obtain ⟨hterm, hasked | hcalm⟩ := rallied p m hp hm heard
          · exact ⟨hterm, .inl (hrequested p m rest hm heard hasked)⟩
          · exact ⟨hterm, .inr hcalm⟩

/-- Who has just won leads, or has been overtaken without knowing it. -/
theorem contest_of_won {before : Node} {old : List InFlight} {commands : List Command}
    (node : c.node? l = some n) (won : before.Won c.now n commands)
    (peers : before.peers = peersOf c.size l) (config : before.config = c.config)
    (term : before.record.currentTerm = T) (queue : c.inFlight = old ++ sends l commands)
    (current : ∀ m ∈ sends l commands, m.message.term = n.record.currentTerm) :
    c.Contest l T := by
  have hterm : n.record.currentTerm = T := won.term.trans term
  have hrequested : ∀ p m, p ≠ l → c.node? p = some m → Requested (sends l commands) l T p := by
    intro p m hp hm
    obtain ⟨q, hq, hsent⟩ := won.requests p (peers ▸ mem_peersOf.mpr ⟨lt_size_of_node? hm, hp⟩)
    exact ⟨q, hq.trans term, List.mem_filterMap.mpr ⟨_, hsent, rfl⟩⟩
  by_cases hahead : ∃ p m, p ≠ l ∧ c.node? p = some m ∧ p ∉ c.isolated ∧
      T < m.record.currentTerm
  · obtain ⟨p, m, hp, hm, heard, newer⟩ := hahead
    refine .overtaken node (.inl hterm) (.asked hp hm heard newer ((hrequested p m hp hm).mono ?_))
    exact queue ▸ List.subset_append_right _ _
  · obtain ⟨lead, office, lasts⟩ := won.inOffice
    refine .won node hterm office (config ▸ lasts) queue
      (fun m hm _ => Nat.le_of_eq ((current m hm).trans hterm)) fun p m hp hm heard => ⟨?_, ?_⟩
    · exact Nat.le_of_not_lt fun newer => hahead ⟨p, m, hp, hm, heard, newer⟩
    · exact .inl (hrequested p m hp hm)

section struck

variable {draw : Nat} {commands : List Command} (seated : c.Seated)
  (hqueue : c.inFlight = m :: rest) (hn : c.node? m.receiver = some n)
  (sent : m.sender ∉ c.isolated) (arrived : m.receiver ∉ c.isolated)
  (hnode : n.handleMessage m.sender m.message c.now draw = .ok (n', commands))
  (hstruck : Struck { c with inFlight := rest } m.receiver n' (sends n.id commands) c')

include hnode in
/-- Who stood in a term, or for nothing in a later one, does so still. -/
theorem stands_of_handleMessage
    (stands : n.record.currentTerm = T ∨ (T ≤ n.record.currentTerm ∧ n.Idle)) :
    n'.record.currentTerm = T ∨ (T ≤ n'.record.currentTerm ∧ n'.Idle) := by
  have hle := Node.le_term_of_handleMessage hnode
  rcases stands with hsame | ⟨hreached, hidle⟩
  · by_cases hnewer : T < m.message.term
    · exact .inr ⟨hsame ▸ hle, Node.handleMessage_idle hnode (.inr (hsame ▸ hnewer))⟩
    · refine .inl ((Node.term_eq_of_handleMessage hnode ?_).trans hsame)
      exact hsame ▸ Nat.le_of_not_lt hnewer
  · exact .inr ⟨Nat.le_trans hreached hle, Node.handleMessage_idle hnode (.inl hidle)⟩

include hqueue hstruck in
theorem mem_of_struck {m' : InFlight} (hm : m' ∈ c.inFlight) (hne : m' ≠ m) : m' ∈ c'.inFlight := by
  rw [hqueue] at hm
  rw [hstruck.inFlight]
  exact List.mem_append_left _ ((List.mem_cons.mp hm).resolve_left hne)

include seated hqueue hn arrived hnode hstruck in
/-- A member that got ahead of the term stays a threat until `l` has heard of
it. -/
theorem Overtaken.struck (h : c.Overtaken l T) (hl : m.receiver = l → ¬ T < m.message.term) :
    c'.Overtaken l T := by
  cases h with
  | @told m' underway receiver heard newer =>
      have hne : m' ≠ m := fun heq => hl (heq ▸ receiver) (heq ▸ newer)
      exact .told (mem_of_struck hqueue hstruck underway hne) receiver (hstruck.isolated ▸ heard)
        newer
  | @asked p k other node heard newer requested =>
      have heard' : p ∉ c'.isolated := hstruck.isolated ▸ heard
      obtain ⟨q, hterm, hq⟩ := requested
      by_cases hp : p = m.receiver
      · subst hp
        obtain rfl := Option.some.inj (hn.symm.trans node)
        have hahead := Nat.lt_of_lt_of_le newer (Node.le_term_of_handleMessage hnode)
        by_cases hm : m = ⟨l, m.receiver, .appendRequest q⟩
        · -- the request arrives, and is answered in the later term
          have hto : m.sender = l := congrArg InFlight.sender hm
          have hwhat : m.message = .appendRequest q := congrArg InFlight.message hm
          rw [hto, hwhat] at hnode
          have hid : n.id = m.receiver := (seated _ n hn).1
          obtain ⟨reply, hreply⟩ := Node.exists_appendReply (i := n.id) hnode
          obtain ⟨_, hanswered⟩ := Node.handleMessage_said_term hnode hreply
          refine .told (m := ⟨n.id, l, .appendReply reply⟩) ?_ rfl ?_ (hanswered ▸ hahead)
          · rw [hstruck.inFlight]
            exact List.mem_append_right _ hreply
          · rw [hstruck.isolated, hid]
            exact arrived
        · exact .asked other hstruck.self heard' hahead
            ⟨q, hterm, mem_of_struck hqueue hstruck hq fun heq => hm heq.symm⟩
      · have hne : (⟨l, p, .appendRequest q⟩ : InFlight) ≠ m := fun heq => hp (heq ▸ rfl)
        exact .asked other ((hstruck.others p hp).trans node) heard' newer
          ⟨q, hterm, mem_of_struck hqueue hstruck hq hne⟩

section rallied

variable {k : Node} {lead : Leader} {old fresh old' fresh' : List InFlight}
  (tail : QueueTail m rest old fresh old' fresh')
  (current : ∀ m ∈ fresh, m.sender ∉ c.isolated → m.message.term ≤ T)
  (rallied : c.Rallied l T old fresh)

include tail rallied hstruck in
/-- Whoever does not hear the message is asked, or calm, as before. -/
theorem rallied_of_ne {p : NodeId} (hp : p ≠ l) (hr : p ≠ m.receiver) (hk : c'.node? p = some k)
    (heard : p ∉ c'.isolated) :
    k.record.currentTerm ≤ T ∧ (Requested (fresh' ++ sends n.id commands) l T p ∨
      (old' = [] ∧ k.Calm T (c'.now + c'.config.electionMin))) := by
  have hk : c.node? p = some k := (hstruck.others p hr).symm.trans hk
  obtain ⟨hterm, hasked | ⟨hnil, hcalm⟩⟩ := rallied p k hp hk (hstruck.isolated ▸ heard)
  · refine ⟨hterm, .inl ?_⟩
    rcases tail.requested hasked with hstill | ⟨_, q, _, hq⟩
    · exact hstill.mono (List.subset_append_left _ _)
    · exact absurd (congrArg InFlight.receiver (List.mem_singleton.mp hq)) hr
  · rw [hstruck.now, hstruck.config]
    exact ⟨hterm, .inr ⟨(tail.first hnil).1, hcalm⟩⟩

include seated hn sent arrived hnode hstruck tail current rallied in
/-- Who hears the message and does not get ahead by it is asked as well, or
follows. -/
theorem rallied_of_heard (hl : m.receiver ≠ l) :
    Requested (fresh' ++ sends n.id commands) l T m.receiver ∨
      (old' = [] ∧ n'.Calm T (c'.now + c'.config.electionMin)) := by
  obtain ⟨_, _, hconfig⟩ := seated _ n hn
  obtain ⟨hterm, hstatus⟩ := rallied m.receiver n hl hn arrived
  rw [hstruck.now, hstruck.config]
  show _ ∨ (old' = [] ∧ n'.Calm T (c.now + c.config.electionMin))
  rw [← hconfig]
  rcases hstatus with hasked | ⟨hnil, hcalm⟩
  · rcases tail.requested hasked with hstill | ⟨hnil, q, hq, hm⟩
    · exact .inl (hstill.mono (List.subset_append_left _ _))
    · -- the message is the request
      have hm := List.mem_singleton.mp hm
      rw [← congrArg InFlight.message hm, ← congrArg InFlight.sender hm] at hnode
      rw [← hq]
      exact .inr ⟨(tail.first hnil).1, Node.handleMessage_calm hnode (hq ▸ hterm)⟩
  · have holder : m.message.term ≤ n.record.currentTerm :=
      hcalm.term ▸ current m (tail.first hnil).2 sent
    rw [← hconfig] at hcalm
    exact .inr ⟨(tail.first hnil).1,
      (Node.handleMessage_response hnode holder).calm hcalm (Nat.le_refl _)⟩

include hn sent arrived hnode hstruck tail current rallied in
/-- Who gets ahead by the message has yet to be asked, since only a message
from before `l` won can be ahead of the term. -/
theorem overtaken_of_heard (hl : m.receiver ≠ l) (newer : T < n'.record.currentTerm) :
    c'.Overtaken l T := by
  obtain ⟨hterm, hstatus⟩ := rallied m.receiver n hl hn arrived
  have hold : old ≠ [] := by
    intro hnil
    rw [Node.handleMessage_term hnode] at newer
    exact Nat.not_le.mpr newer (Nat.max_le.mpr ⟨hterm, current m (tail.first hnil).2 sent⟩)
  have hasked := hstatus.resolve_right fun h => hold h.1
  have hstill := (tail.requested hasked).resolve_right fun h => hold h.1
  refine .asked hl hstruck.self (hstruck.isolated ▸ arrived) newer (hstill.mono ?_)
  rw [hstruck.inFlight, tail.queue]
  exact fun m' hm' => List.mem_append_left _ (List.mem_append_right _ hm')

end rallied

include seated hqueue hn sent arrived hnode hstruck in
/-- So is the leadership of a member that has won. -/
theorem contest_of_leading {k : Node} {lead : Leader} {old fresh : List InFlight}
    (node : c.node? l = some k) (term : k.record.currentTerm = T)
    (office : k.InOffice lead c.now) (lasts : c.now + c.config.lease ≤ lead.lease.expiresAt)
    (queue : c.inFlight = old ++ fresh)
    (current : ∀ m ∈ fresh, m.sender ∉ c.isolated → m.message.term ≤ T)
    (rallied : c.Rallied l T old fresh) : c'.Contest l T := by
  have hle := Node.le_term_of_handleMessage hnode
  have hnow : c'.now = c.now := hstruck.now
  have hconfig : c'.config = c.config := hstruck.config
  have hisolated : c'.isolated = c.isolated := hstruck.isolated
  obtain ⟨old', fresh', tail⟩ := exists_queue_tail (hqueue.symm.trans queue)
  have hqueue' : c'.inFlight = old' ++ (fresh' ++ sends n.id commands) := by
    rw [hstruck.inFlight, tail.queue, List.append_assoc]
  have hcurrent : n'.record.currentTerm ≤ T →
      ∀ m' ∈ fresh' ++ sends n.id commands, m'.sender ∉ c'.isolated → m'.message.term ≤ T := by
    intro hle m' hm' heard
    rcases List.mem_append.mp hm' with hm' | hm'
    · exact current m' (tail.sub hm') (hisolated ▸ heard)
    · exact (Node.handleMessage_said_term hnode hm').2 ▸ hle
  by_cases hl : m.receiver = l
  · obtain rfl := Option.some.inj (hn.symm.trans (hl ▸ node))
    have hnode' : c'.node? l = some n' := hl ▸ hstruck.self
    by_cases hnewer : T < m.message.term
    · exact .lost hnode' (term ▸ hle) (Node.handleMessage_idle hnode (.inr (term ▸ hnewer)))
    · have holder : m.message.term ≤ n.record.currentTerm := term ▸ Nat.le_of_not_lt hnewer
      have hsame := (Node.term_eq_of_handleMessage hnode holder).trans term
      rcases (Node.handleMessage_response hnode holder).leader office.role with
        hidle | ⟨lead', role', hkeeps, hrows⟩
      · exact .lost hnode' (term ▸ hle) hidle
      · have hframe := (Node.handleMessage_deeds hnode).frame
        refine .won hnode' hsame (hnow ▸ office.kept hframe role' hkeeps hrows) ?_ hqueue'
          (hcurrent (Nat.le_of_eq hsame)) fun p k hp =>
            rallied_of_ne hstruck tail rallied hp (hl ▸ hp)
        rw [hnow, hconfig]
        exact Nat.le_trans lasts hkeeps.expiresAt
  · have hnode' : c'.node? l = some k := (hstruck.others l (Ne.symm hl)).trans node
    by_cases hnewer : T < n'.record.currentTerm
    · exact .overtaken hnode' (.inl term)
        (overtaken_of_heard hn sent arrived hnode hstruck tail current rallied hl hnewer)
    · have hreached : n'.record.currentTerm ≤ T := Nat.le_of_not_lt hnewer
      refine .won hnode' term (hnow ▸ office) (by rw [hnow, hconfig]; exact lasts) hqueue'
        (hcurrent hreached) fun p k' hp hk' heard => ?_
      by_cases hr : p = m.receiver
      · subst hr
        obtain rfl := Option.some.inj (hstruck.self.symm.trans hk')
        exact ⟨hreached,
          rallied_of_heard seated hn sent arrived hnode hstruck tail current rallied hl⟩
      · exact rallied_of_ne hstruck tail rallied hp hr hk' heard

include seated hqueue hn sent arrived hnode hstruck in
/-- The invariant of an election is kept when a message arrives. -/
theorem Contest.struck (h : c.Contest l T) : c'.Contest l T := by
  obtain ⟨hid, hpeers, hconfig⟩ := seated _ n hn
  have hle := Node.le_term_of_handleMessage hnode
  have hself : m.receiver = l → ∀ {k : Node}, c.node? l = some k → n = k ∧ c'.node? l = some n' :=
    fun hl k hk => ⟨Option.some.inj (hn.symm.trans (hl ▸ hk)), hl ▸ hstruck.self⟩
  have hother : m.receiver ≠ l → c'.node? l = c.node? l := fun hl => hstruck.others l (Ne.symm hl)
  cases h with
  | @counting k cand node term role tallying =>
      by_cases hl : m.receiver = l
      · obtain ⟨rfl, hnode'⟩ := hself hl node
        by_cases hnewer : T < m.message.term
        · exact .lost hnode' (term ▸ hle) (Node.handleMessage_idle hnode (.inr (term ▸ hnewer)))
        · have holder : m.message.term ≤ n.record.currentTerm := term ▸ Nat.le_of_not_lt hnewer
          have hsame := Node.term_eq_of_handleMessage hnode holder
          rcases (Node.handleMessage_response hnode holder).candidate role tallying with
            hidle | ⟨cand', role', tallying'⟩ | hwon
          · exact .lost hnode' (term ▸ hle) hidle
          · exact .counting hnode' (hsame.trans term) role' tallying'
          · have hnow : n.Won c'.now n' _ := hstruck.now ▸ hwon
            rw [hl] at hid hpeers
            rw [hid] at hstruck
            exact contest_of_won hnode' hnow
              (hpeers.trans (congrArg (peersOf · l) hstruck.size.symm))
              (hconfig.trans hstruck.config.symm) term hstruck.inFlight
              fun m hm => (Node.handleMessage_said_term hnode hm).2
      · exact .counting ((hother hl).trans node) term role tallying
  | @lost k node reached idle =>
      by_cases hl : m.receiver = l
      · obtain ⟨rfl, hnode'⟩ := hself hl node
        exact .lost hnode' (Nat.le_trans reached hle) (Node.handleMessage_idle hnode (.inl idle))
      · exact .lost ((hother hl).trans node) reached idle
  | @overtaken k node stands ahead =>
      by_cases hl : m.receiver = l
      · obtain ⟨rfl, hnode'⟩ := hself hl node
        have hstands := stands_of_handleMessage hnode stands
        by_cases hnewer : T < m.message.term
        · refine .lost hnode' ?_ (Node.handleMessage_idle hnode ?_)
          · exact hstands.elim (fun h => Nat.le_of_eq h.symm) (·.1)
          · exact stands.elim (fun h => .inr (h ▸ hnewer)) fun h => .inl h.2
        · exact .overtaken hnode' hstands
            (ahead.struck seated hqueue hn arrived hnode hstruck fun _ => hnewer)
      · exact .overtaken ((hother hl).trans node) stands
          (ahead.struck seated hqueue hn arrived hnode hstruck fun h => absurd h hl)
  | won node term office lasts queue current rallied =>
      exact contest_of_leading seated hqueue hn sent arrived hnode hstruck node term office lasts
        queue current rallied

end struck

/-! ## The whole election -/

theorem Contest.deliverAll (seated : c.Seated) (reachable : l ∉ c.isolated)
    (h : c.Contest l T) : Ensures False c.deliverAll fun c' =>
      (c'.Seated ∧ l ∉ c'.isolated ∧ c'.Contest l T) ∧ c'.inFlight = [] := by
  refine deliverAll_ensures ⟨seated, reachable, h⟩ fun c m rest hqueue hinv => ?_
  obtain ⟨hseated, hreachable, hcontest⟩ := hinv
  refine deliver_ensures ?_ ?_ ?_
  · intro c₁ c₂ h₁ htended
    exact ⟨h₁.1.tended htended, htended.isolated ▸ h₁.2.1, h₁.2.2.tended htended⟩
  · intro hlost
    exact ⟨hseated, hreachable, hcontest.dropped hqueue hreachable hlost⟩
  · intro n draw hn hsent harrived
    refine .of_ok fun (n', commands) hnode c' hstruck => ⟨?_, ?_, ?_⟩
    · have hpopped : Seated { c with inFlight := rest } := hseated
      exact hpopped.struck hn (Node.handleMessage_deeds hnode).frame hstruck
    · exact hstruck.isolated ▸ hreachable
    · exact hcontest.struck hseated hqueue hn hsent harrived hnode hstruck

/-- A member that does not stand for election comes to lead no other term. -/
theorem deliverAll_still (h : ∃ n, c.node? l = some n ∧ (n.record.currentTerm = T ∨ n.Idle)) :
    Ensures False c.deliverAll fun c' =>
      ∃ n, c'.node? l = some n ∧ (n.record.currentTerm = T ∨ n.Idle) := by
  refine (deliverAll_ensures h fun c m rest _ hinv => ?_).mono fun _ h => h.1
  obtain ⟨k, hk, hstill⟩ := hinv
  refine deliver_ensures ?_ (fun _ => ⟨k, hk, hstill⟩) ?_
  · rintro c₁ c₂ ⟨n, hn, hstill⟩ htended
    obtain ⟨n', hn', ht⟩ := htended.up l n hn
    exact ⟨n', hn', hstill.imp (ht.term.trans ·) ht.idle⟩
  · intro n draw hn _ _
    refine .of_ok fun (n', commands) hnode c' hstruck => ?_
    by_cases hl : m.receiver = l
    · obtain rfl := Option.some.inj (hn.symm.trans (hl ▸ hk))
      refine ⟨n', hl ▸ hstruck.self, ?_⟩
      by_cases hnewer : n.record.currentTerm < m.message.term
      · exact .inr (Node.handleMessage_idle hnode (.inr hnewer))
      · refine hstill.imp (fun h => ?_) fun h => Node.handleMessage_idle hnode (.inl h)
        exact (Node.term_eq_of_handleMessage hnode (Nat.le_of_not_lt hnewer)).trans h
    · exact ⟨k, (hstruck.others l (Ne.symm hl)).trans hk, hstill⟩

/-- The member `l` has been elected in a term, nothing is under way, and all
members that can be reached follow it. -/
structure Inaugurated (l : NodeId) (T : Term) (c : Cluster) : Prop where
  seated : c.Seated
  quiet : c.inFlight = []
  leads : ∃ n lead, c.node? l = some n ∧ n.record.currentTerm = T ∧ n.InOffice lead c.now ∧
    c.now + c.config.lease ≤ lead.lease.expiresAt
  calm : ∀ p n, p ≠ l → c.node? p = some n → p ∉ c.isolated →
    n.Calm T (c.now + c.config.electionMin)

/-- A contest is decided when nothing is under way any more. -/
theorem Contest.inaugurated (h : c.Contest l T) (seated : c.Seated) (quiet : c.inFlight = [])
    (node : c.node? l = some n) (leads : n.isLeader = true) :
    c.Inaugurated l n.record.currentTerm := by
  have hself : ∀ {k : Node}, c.node? l = some k → k = n := fun hk =>
    Option.some.inj (hk.symm.trans node)
  cases h with
  | counting node term role tallying =>
      obtain rfl := hself node
      exact nomatch leads.symm.trans (Node.isLeader_of_candidate role)
  | lost node reached idle =>
      obtain rfl := hself node
      exact nomatch leads.symm.trans idle.1
  | overtaken node stands ahead =>
      cases ahead with
      | told underway receiver heard newer => exact nomatch quiet ▸ underway
      | asked other node heard newer requested =>
          obtain ⟨q, _, hq⟩ := requested
          exact nomatch quiet ▸ hq
  | @won k lead old fresh node term office lasts queue current rallied =>
      obtain rfl := hself node
      obtain ⟨rfl, rfl⟩ := List.append_eq_nil_iff.mp (queue.symm.trans quiet)
      refine ⟨seated, quiet, ⟨k, lead, node, rfl, office, lasts⟩, fun p m hp hm heard => ?_⟩
      obtain ⟨_, ⟨q, _, hq⟩ | ⟨_, hcalm⟩⟩ := rallied p m hp hm heard
      · exact nomatch hq
      · exact term ▸ hcalm

/-- With the election timer a contest begins, or nothing does. -/
theorem electionTimeout_contest (seated : c.Seated) (reachable : l ∉ c.isolated)
    (before : c.node? l = some n) :
    Ensures False (c.handle l .electionTimeout) fun c₁ => c₁.Seated ∧ l ∉ c₁.isolated ∧
      ((∃ k, c₁.node? l = some k ∧ (k.record.currentTerm = n.record.currentTerm ∨ k.Idle)) ∨
        c₁.Contest l n.record.currentTerm.next) := by
  refine handle_ensures (fun hdown => nomatch before.symm.trans hdown) fun k draw hk => ?_
  obtain rfl := Option.some.inj (before.symm.trans hk)
  refine .of_ok fun (k, commands) hnode c₁ c₂ hstruck htended => ⟨?_, ?_, ?_⟩
  · exact (seated.struck before (Node.handle_deeds hnode).frame hstruck).tended htended
  · rw [htended.isolated, hstruck.isolated]
    exact reachable
  · obtain ⟨hid, hpeers, hconfig⟩ := seated l n before
    have hk₁ : c₁.node? l = some k := hstruck.self
    rcases Node.electionTimeout_cases (i := n.id) hnode with
      ⟨rfl, _⟩ | ⟨hterm, hsaid, hidle | ⟨cand, role, tallying⟩ | hwon⟩
    · obtain ⟨k', hk₂, ht⟩ := htended.up l k hk₁
      exact .inl ⟨k', hk₂, .inl ht.term⟩
    · have hlost : c₁.Contest l n.record.currentTerm.next :=
        .lost hk₁ (Nat.le_of_eq hterm.symm) hidle
      exact .inr (hlost.tended htended)
    · have hcounting : c₁.Contest l n.record.currentTerm.next :=
        .counting hk₁ hterm role tallying
      exact .inr (hcounting.tended htended)
    · have hnow : (n.candidacy c.now).Won c₁.now k commands := hstruck.now.symm ▸ hwon
      have hqueue := hstruck.inFlight
      rw [hid] at hqueue hsaid
      refine .inr (Contest.tended (contest_of_won hk₁ hnow ?_ ?_ rfl hqueue ?_) htended)
      · rw [hstruck.size]
        exact hpeers
      · rw [hstruck.config]
        exact hconfig
      · exact fun m hm => (hsaid m hm).2

/-- An election that makes its candidate the leader of a new term leaves every
member that can be reached a follower of it. -/
theorem elect_inaugurated (seated : c.Seated) (reachable : l ∉ c.isolated)
    (elected : c.elect l = .ok (c', true)) (before : c.node? l = some n)
    (after : c'.node? l = some n') (newer : n.record.currentTerm < n'.record.currentTerm) :
    c'.Inaugurated l n'.record.currentTerm := by
  obtain ⟨c₁, hstood, h⟩ := exists_of_bind_ok elected
  obtain ⟨c₂, hdelivered, h⟩ := exists_of_bind_ok h
  obtain ⟨rfl, hleads⟩ := Prod.mk.inj (Except.ok.inj h)
  have hleader : n'.isLeader = true := by
    rw [after] at hleads
    exact hleads
  obtain ⟨hseated, hreachable, hstill | hcontest⟩ :=
    (electionTimeout_contest seated reachable before).holds c₁ hstood
  · -- whoever has not stood for election leads no newer term
    obtain ⟨k, hk, hstill⟩ := (deliverAll_still hstill).holds _ hdelivered
    obtain rfl := Option.some.inj (hk.symm.trans after)
    rcases hstill with hsame | hidle
    · exact absurd hsame (Nat.ne_of_gt newer)
    · exact nomatch hleader.symm.trans hidle.1
  · obtain ⟨⟨hseated, hreachable, hcontest⟩, hquiet⟩ :=
      (hcontest.deliverAll hseated hreachable).holds _ hdelivered
    exact hcontest.inaugurated hseated hquiet after hleader

end Cluster

end Quorum
