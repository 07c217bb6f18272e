import Mathlib.Data.Finset.Card
import Quorum.Proofs.Handlers.Counting

/-!
# The order of votes does not matter

A candidate decides its election as soon as the outcome is known, in the middle
of the replies, and ignores what comes later. As long as each peer sticks to
its answer, this is the outcome that all replies together have: the candidate
leads if the servers that have granted it their vote are a majority, and has
closed its tally without a win if every peer has answered. The deadline of the
round is kept by its timer alone, so what is said here holds until that fires.
-/

namespace Quorum

/-- A reply to a vote request, as it reaches the candidate. -/
structure Arrival where
  voter : NodeId
  reply : VoteReply
  now : Instant
  draw : Nat

/-- The servers that have granted their vote. -/
def granters (arrivals : List Arrival) : Finset NodeId :=
  ((arrivals.filter (·.reply.granted)).map (·.voter)).toFinset

/-- The servers that have answered. -/
def voters (arrivals : List Arrival) : Finset NodeId :=
  (arrivals.map (·.voter)).toFinset

theorem mem_granters {x : NodeId} {arrivals : List Arrival} :
    x ∈ granters arrivals ↔ ∃ a ∈ arrivals, a.voter = x ∧ a.reply.granted = true := by
  simp only [granters, List.mem_toFinset, List.mem_map, List.mem_filter]
  exact ⟨fun ⟨a, ⟨ha, hgranted⟩, hx⟩ => ⟨a, ha, hx, hgranted⟩,
    fun ⟨a, ha, hx, hgranted⟩ => ⟨a, ⟨ha, hgranted⟩, hx⟩⟩

theorem mem_voters {x : NodeId} {arrivals : List Arrival} :
    x ∈ voters arrivals ↔ ∃ a ∈ arrivals, a.voter = x := by
  simp only [voters, List.mem_toFinset, List.mem_map]

theorem mem_granters_concat {x : NodeId} {past : List Arrival} {a : Arrival} :
    x ∈ granters (past ++ [a]) ↔ x ∈ granters past ∨ (x = a.voter ∧ a.reply.granted = true) := by
  simp only [mem_granters, List.mem_append, List.mem_singleton, or_and_right, exists_or,
    exists_eq_left, eq_comm (a := x)]

theorem mem_voters_concat {x : NodeId} {past : List Arrival} {a : Arrival} :
    x ∈ voters (past ++ [a]) ↔ x ∈ voters past ∨ x = a.voter := by
  simp only [mem_voters, List.mem_append, List.mem_singleton, or_and_right, exists_or,
    exists_eq_left, eq_comm (a := x)]

/-- The same replies, in whatever order and at whatever times. -/
def SameReplies (arrivals' arrivals : List Arrival) : Prop :=
  (arrivals'.map fun a => (a.voter, a.reply)).Perm (arrivals.map fun a => (a.voter, a.reply))

namespace SameReplies

variable {arrivals arrivals' : List Arrival} {a : Arrival}

theorem symm (h : SameReplies arrivals' arrivals) : SameReplies arrivals arrivals' :=
  List.Perm.symm h

theorem exists_mem (h : SameReplies arrivals' arrivals) (ha : a ∈ arrivals') :
    ∃ b ∈ arrivals, b.voter = a.voter ∧ b.reply = a.reply := by
  obtain ⟨b, hb, hsame⟩ := List.mem_map.mp (h.subset (List.mem_map_of_mem ha))
  exact ⟨b, hb, Prod.mk.inj hsame⟩

theorem granters_subset (h : SameReplies arrivals' arrivals) :
    granters arrivals' ⊆ granters arrivals := by
  intro x hx
  obtain ⟨a, ha, rfl, hgranted⟩ := mem_granters.mp hx
  obtain ⟨b, hb, hvoter, hreply⟩ := h.exists_mem ha
  exact mem_granters.mpr ⟨b, hb, hvoter, hreply ▸ hgranted⟩

theorem voters_subset (h : SameReplies arrivals' arrivals) :
    voters arrivals' ⊆ voters arrivals := by
  intro x hx
  obtain ⟨a, ha, rfl⟩ := mem_voters.mp hx
  obtain ⟨b, hb, hvoter, _⟩ := h.exists_mem ha
  exact mem_voters.mpr ⟨b, hb, hvoter⟩

theorem granters_eq (h : SameReplies arrivals' arrivals) : granters arrivals' = granters arrivals :=
  h.granters_subset.antisymm h.symm.granters_subset

theorem voters_eq (h : SameReplies arrivals' arrivals) : voters arrivals' = voters arrivals :=
  h.voters_subset.antisymm h.symm.voters_subset

end SameReplies

/-- The votes of candidate `id` are what the replies make them, and it has in
mind no longer lease than its own estimate and the reported ones. -/
structure Candidate.Counted (id : NodeId) (own : Duration) (past : List Arrival)
    (c : Candidate) : Prop where
  nodup_votes : c.votes.Nodup
  votes : ∀ x, x ∈ c.votes ↔ x = id ∨ x ∈ granters past
  nodup_answered : c.answered.Nodup
  answered : ∀ x, x ∈ c.answered ↔ x ∈ voters past
  lease : ∀ bound, own ≤ bound → (∀ a ∈ past, a.reply.priorLease ≤ bound) → c.priorLease ≤ bound

namespace Candidate.Counted

variable {id : NodeId} {own : Duration} {past past' : List Arrival} {c : Candidate}

theorem stand (id : NodeId) (deadline : Instant) (own : Duration) :
    Counted id own [] (.stand id deadline own) where
  nodup_votes := List.nodup_singleton id
  votes x := by simp [Candidate.stand, granters]
  nodup_answered := List.nodup_nil
  answered x := by simp [Candidate.stand, voters]
  lease bound hown _ := hown

theorem record (h : c.Counted id own past) (a : Arrival) :
    (c.record a.voter a.reply.granted a.reply.priorLease).Counted id own (past ++ [a]) where
  nodup_votes := nodup_votes_record h.nodup_votes
  votes x := by rw [mem_votes_record, h.votes, mem_granters_concat, or_assoc]
  nodup_answered := nodup_answered_record h.nodup_answered
  answered x := by rw [mem_answered_record, h.answered, mem_voters_concat]
  lease bound hown hpast := by
    refine record_priorLease_le (h.lease bound hown fun b hb => hpast b ?_) (hpast a ?_)
    · exact List.mem_append_left _ hb
    · exact List.mem_append_right _ List.mem_cons_self

theorem conclude (h : c.Counted id own past) (electionAt : Instant) :
    (c.conclude electionAt).Counted id own past :=
  ⟨h.nodup_votes, h.votes, h.nodup_answered, h.answered, h.lease⟩

/-- Only who has granted and who has answered counts, and leases do no harm. -/
theorem congr (h : c.Counted id own past) (granted : granters past' = granters past)
    (answered : voters past' = voters past) (more : past ⊆ past') : c.Counted id own past' where
  nodup_votes := h.nodup_votes
  votes x := by rw [granted]; exact h.votes x
  nodup_answered := h.nodup_answered
  answered x := by rw [answered]; exact h.answered x
  lease bound hown hpast := h.lease bound hown fun a ha => hpast a (more ha)

theorem votes_length (h : c.Counted id own past) :
    c.votes.length = (insert id (granters past)).card := by
  rw [← List.toFinset_card_of_nodup h.nodup_votes]
  congr 1
  ext x
  rw [List.mem_toFinset, h.votes, Finset.mem_insert]

/-- Where only peers answer, as many answers as there are peers are all. -/
theorem allAnswered_iff {peers : List NodeId} (h : c.Counted id own past) (distinct : peers.Nodup)
    (within : ∀ x ∈ voters past, x ∈ peers) :
    c.allAnswered peers.length = true ↔ ∀ p ∈ peers, p ∈ voters past := by
  have hsubset : c.answered ⊆ peers := fun x hx => within x ((h.answered x).mp hx)
  have hsubperm : c.answered.Subperm peers := List.subperm_of_subset h.nodup_answered hsubset
  rw [allAnswered, decide_eq_true_eq]
  constructor
  · intro hlength p hp
    exact (h.answered p).mp ((hsubperm.perm_of_length_le hlength).mem_iff.mpr hp)
  · intro hall
    have hback : peers ⊆ c.answered := fun p hp => (h.answered p).mpr (hall p hp)
    exact (List.subperm_of_subset distinct hback).length_le

theorem agree {c' : Candidate} (h : c.Counted id own past) (h' : c'.Counted id own past')
    (granted : granters past' = granters past) (answered : voters past' = voters past) :
    c.votes.Perm c'.votes ∧ c.answered.Perm c'.answered := by
  constructor
  · refine (List.perm_ext_iff_of_nodup h.nodup_votes h'.nodup_votes).mpr fun x => ?_
    rw [h.votes, h'.votes, granted]
  · refine (List.perm_ext_iff_of_nodup h.nodup_answered h'.nodup_answered).mpr fun x => ?_
    rw [h.answered, h'.answered, answered]

end Candidate.Counted

namespace Node

/-- The node after the given replies, in their order. -/
def collect (n : Node) (arrivals : List Arrival) : Except ClockOverflow Node :=
  arrivals.foldlM (fun n a =>
    (n.handle (.message a.voter (.voteReply a.reply)) a.now a.draw).map (·.1)) n

/-- Replies to the vote requests of a candidate: they are of its term and from
its peers, and each peer sticks to its answer. -/
structure Polls (n : Node) (arrivals : List Arrival) : Prop where
  term : ∀ a ∈ arrivals, a.reply.term = n.record.currentTerm
  peer : ∀ a ∈ arrivals, a.voter ∈ n.peers
  steady : ∀ a ∈ arrivals, ∀ b ∈ arrivals, a.voter = b.voter → a.reply.granted = b.reply.granted

variable {n n₀ n' n'' : Node} {past rest arrivals arrivals' : List Arrival} {a : Arrival}
  {c : Candidate} {own : Duration} {commands : List Command}

theorem Polls.mono (h : n₀.Polls arrivals) (hsubset : past ⊆ arrivals) : n₀.Polls past where
  term a ha := h.term a (hsubset ha)
  peer a ha := h.peer a (hsubset ha)
  steady a ha b hb := h.steady a (hsubset ha) b (hsubset hb)

theorem Polls.congr (h : n₀.Polls arrivals) (same : SameReplies arrivals' arrivals) :
    n₀.Polls arrivals' where
  term a ha := by
    obtain ⟨b, hb, _, hreply⟩ := same.exists_mem ha
    exact hreply ▸ h.term b hb
  peer a ha := by
    obtain ⟨b, hb, hvoter, _⟩ := same.exists_mem ha
    exact hvoter ▸ h.peer b hb
  steady a ha a' ha' hsame := by
    obtain ⟨b, hb, hvoter, hreply⟩ := same.exists_mem ha
    obtain ⟨b', hb', hvoter', hreply'⟩ := same.exists_mem ha'
    rw [← hreply, ← hreply']
    exact h.steady b hb b' hb' (hvoter.trans (hsame.trans hvoter'.symm))

theorem Polls.voters_subset (h : n₀.Polls arrivals) : ∀ x ∈ voters arrivals, x ∈ n₀.peers := by
  intro x hx
  obtain ⟨a, ha, rfl⟩ := mem_voters.mp hx
  exact h.peer a ha

/-- The servers that have granted their vote, the candidate being one of them,
are a majority. -/
def Elects (n : Node) (arrivals : List Arrival) : Prop :=
  n.clusterSize / 2 + 1 ≤ (insert n.id (granters arrivals)).card

/-- Every peer has answered. -/
def Canvassed (n : Node) (arrivals : List Arrival) : Prop :=
  ∀ p ∈ n.peers, p ∈ voters arrivals

/-- What the candidate `n₀` has become by the replies so far. -/
inductive Tallied (n₀ : Node) (own : Duration) (past : List Arrival) : Node → Prop
  | waiting {c : Candidate} (counted : c.Counted n₀.id own past) (tallying : c.tallying = true)
      (short : ¬ n₀.Elects past) (missing : ¬ n₀.Canvassed past) :
      Tallied n₀ own past { n₀ with role := .candidate c }
  | lost {c : Candidate} (counted : c.Counted n₀.id own past) (closed : c.tallying = false)
      (short : ¬ n₀.Elects past) (full : n₀.Canvassed past) :
      Tallied n₀ own past { n₀ with role := .candidate c }
  | won {n : Node} (leads : n.isLeader = true) (majority : n₀.Elects past)
      (record : n.record =
        { n₀.record with log := n₀.record.log ++ [.noOp n₀.record.currentTerm] }) :
      Tallied n₀ own past n

/-- Another reply of a peer that has answered brings nothing new. -/
theorem Polls.same_granters (h : n₀.Polls (past ++ [a])) (again : a.voter ∈ voters past) :
    granters (past ++ [a]) = granters past := by
  obtain ⟨b, hb, hvoter⟩ := mem_voters.mp again
  ext x
  rw [mem_granters_concat, or_iff_left_iff_imp]
  rintro ⟨rfl, hgranted⟩
  have hsame := h.steady b (List.mem_append_left _ hb) a
    (List.mem_append_right _ List.mem_cons_self) hvoter
  exact mem_granters.mpr ⟨b, hb, hvoter, hsame.trans hgranted⟩

theorem Elects.concat (h : n₀.Elects past) (a : Arrival) : n₀.Elects (past ++ [a]) := by
  refine Nat.le_trans h (Finset.card_le_card (Finset.insert_subset_insert _ ?_))
  intro x hx
  exact mem_granters_concat.mpr (.inl hx)

/-- What a tally comes to once the last reply is in it. -/
theorem tally_tallied {now : Instant} {draw : Nat} (counted : c.Counted n₀.id own past)
    (tallying : c.tallying = true) (distinct : n₀.peers.Nodup) (peers : n₀.peers ≠ [])
    (within : ∀ x ∈ voters past, x ∈ n₀.peers)
    (h : n₀.tally c now draw = .ok (n', commands)) : n₀.Tallied own past n' := by
  have hmajority : c.hasMajority n₀.clusterSize = true ↔ n₀.Elects past := by
    rw [Candidate.hasMajority, decide_eq_true_eq, counted.votes_length, Elects]
  have hall : c.allAnswered n₀.peers.length = true ↔ n₀.Canvassed past :=
    counted.allAnswered_iff distinct within
  obtain ⟨majority, leads, lease, rfl⟩ | ⟨minority, full, rfl⟩ | ⟨minority, missing, rfl⟩ :=
    tally_outcome h
  · exact .won leads (hmajority.mp majority) (won_record peers)
  · refine .lost (counted.conclude _) rfl (fun elects => ?_) (hall.mp full)
    exact Bool.eq_false_iff.mp minority (hmajority.mpr elects)
  · refine .waiting counted tallying (fun elects => ?_) fun canvassed => ?_
    · exact Bool.eq_false_iff.mp minority (hmajority.mpr elects)
    · exact Bool.eq_false_iff.mp missing (hall.mpr canvassed)

theorem Tallied.term (h : n₀.Tallied own past n) :
    n.record.currentTerm = n₀.record.currentTerm := by
  cases h with
  | waiting counted tallying short missing => rfl
  | lost counted closed short full => rfl
  | won leads majority record => rw [record]

theorem Tallied.step (h : n₀.Tallied own past n) (distinct : n₀.peers.Nodup)
    (polls : n₀.Polls (past ++ [a]))
    (handled : n.handle (.message a.voter (.voteReply a.reply)) a.now a.draw =
      .ok (n', commands)) : n₀.Tallied own (past ++ [a]) n' := by
  have hlast : a ∈ past ++ [a] := List.mem_append_right _ List.mem_cons_self
  have hpeer := polls.peer a hlast
  have hterm : a.reply.term = n.record.currentTerm := (polls.term a hlast).trans h.term.symm
  -- once the outcome is known, the reply is ignored
  have hignored : (∀ c, n.role = .candidate c → c.tallying = false) → n' = n := by
    intro hclosed
    have hsame := (voteReply_ignored hterm hclosed).symm.trans handled
    exact (congrArg Prod.fst (Except.ok.inj hsame)).symm
  cases h with
  | @waiting c counted tallying short missing =>
      rw [voteReply_counts rfl tallying hterm] at handled
      have hpeers : n₀.peers ≠ [] := List.ne_nil_of_mem hpeer
      exact tally_tallied (counted.record a) ((c.record_tallying _ _ _).trans tallying) distinct
        hpeers polls.voters_subset handled
  | @lost c counted closed short full =>
      obtain rfl := hignored fun d hd => Role.candidate.inj hd ▸ closed
      have hgranters := polls.same_granters (full _ hpeer)
      have hvoters : voters (past ++ [a]) = voters past := by
        ext x
        rw [mem_voters_concat, or_iff_left_iff_imp]
        rintro rfl
        exact full _ hpeer
      refine .lost (counted.congr hgranters hvoters (List.subset_append_left _ _)) closed ?_ ?_
      · rw [Elects, hgranters]
        exact short
      · rw [Canvassed, hvoters]
        exact full
  | won leads majority record =>
      obtain ⟨l, role⟩ := isLeader_iff.mp leads
      obtain rfl := hignored fun c hc => nomatch role.symm.trans hc
      exact .won leads (majority.concat a) record

/-- A reply is taken if a win by it could set its deadlines. -/
theorem Tallied.returns {spare : Duration} (h : n₀.Tallied own past n)
    (term : a.reply.term = n₀.record.currentTerm) (prior : own ≤ spare)
    (leases : ∀ b ∈ past ++ [a], b.reply.priorLease ≤ spare)
    (reach : a.now + spare + n₀.config.longest < Instant.limit) :
    ∃ n' commands, n.handle (.message a.voter (.voteReply a.reply)) a.now a.draw =
      .ok (n', commands) := by
  have hterm := term.trans h.term.symm
  cases h with
  | @waiting c counted tallying short missing =>
      have hlease := (counted.record a).lease spare prior leases
      rw [voteReply_counts rfl tallying hterm]
      have hspare : a.now + n₀.config.longest < Instant.limit := by
        refine Nat.lt_of_le_of_lt (Nat.add_le_add_right ?_ _) reach
        exact Nat.le_add_right _ _
      have hwindow : a.now + (c.record a.voter a.reply.granted a.reply.priorLease).priorLease +
          n₀.config.lease < Instant.limit :=
        Nat.lt_of_le_of_lt (Nat.add_le_add (Nat.add_le_add_left hlease _)
          n₀.config.lease_le_longest) reach
      obtain ⟨⟨n', commands⟩, htally⟩ : ∃ result, Node.tally { n₀ with role := .candidate c }
          (c.record a.voter a.reply.granted a.reply.priorLease) a.now a.draw = .ok result :=
        (tally_returns_iff hspare).mpr fun _ => hwindow
      exact ⟨n', commands, htally⟩
  | lost counted closed short full =>
      exact ⟨_, _, voteReply_ignored hterm fun d hd => Role.candidate.inj hd ▸ closed⟩
  | won leads majority record =>
      obtain ⟨l, role⟩ := isLeader_iff.mp leads
      exact ⟨_, _, voteReply_ignored hterm fun c hc => nomatch role.symm.trans hc⟩

/-! ## All replies -/

theorem Tallied.collect (h : n₀.Tallied own past n) (distinct : n₀.peers.Nodup)
    (polls : n₀.Polls (past ++ rest)) (hrest : n.collect rest = .ok n') :
    n₀.Tallied own (past ++ rest) n' := by
  induction rest generalizing past n with
  | nil =>
      obtain rfl := Except.ok.inj hrest
      rw [List.append_nil]
      exact h
  | cons a rest ih =>
      rw [List.append_cons] at polls ⊢
      rw [Node.collect, List.foldlM_cons] at hrest
      obtain ⟨n₁, hfirst, hrest⟩ := exists_of_bind_ok hrest
      cases hhandle : n.handle (.message a.voter (.voteReply a.reply)) a.now a.draw with
      | error e =>
          rw [hhandle] at hfirst
          exact nomatch hfirst
      | ok result =>
          obtain ⟨n₂, commands⟩ := result
          rw [hhandle] at hfirst
          obtain rfl : n₂ = n₁ := Except.ok.inj hfirst
          exact ih (h.step distinct (polls.mono (List.subset_append_left _ _)) hhandle) polls hrest

theorem Tallied.collect_returns {spare : Duration} (h : n₀.Tallied own past n)
    (distinct : n₀.peers.Nodup) (polls : n₀.Polls (past ++ rest)) (prior : own ≤ spare)
    (leases : ∀ a ∈ past ++ rest, a.reply.priorLease ≤ spare)
    (reach : ∀ a ∈ rest, a.now + spare + n₀.config.longest < Instant.limit) :
    ∃ n', n.collect rest = .ok n' := by
  induction rest generalizing past n with
  | nil => exact ⟨n, rfl⟩
  | cons a rest ih =>
      rw [List.append_cons] at polls leases
      have hfirst : past ++ [a] ⊆ past ++ [a] ++ rest := List.subset_append_left _ _
      have hpolls := polls.mono hfirst
      obtain ⟨n₁, commands, hhandle⟩ := h.returns
        (hpolls.term a (List.mem_append_right _ List.mem_cons_self)) prior
        (fun b hb => leases b (hfirst hb)) (reach a List.mem_cons_self)
      obtain ⟨n', hrest⟩ := ih (h.step distinct hpolls hhandle) polls leases fun b hb =>
        reach b (List.mem_cons_of_mem _ hb)
      refine ⟨n', ?_⟩
      rw [Node.collect, List.foldlM_cons, hhandle]
      exact hrest

/-- Both nodes lead, or both are candidates that have counted the same. -/
structure SameRole (n n' : Node) : Prop where
  leads : n'.isLeader = n.isLeader
  counted : ∀ c, n.role = .candidate c → ∃ c', n'.role = .candidate c' ∧
    c'.tallying = c.tallying ∧ c.votes.Perm c'.votes ∧ c.answered.Perm c'.answered

/-- Who has granted and who has answered decides what becomes of a candidate. -/
theorem Tallied.agree (h : n₀.Tallied own arrivals n') (h' : n₀.Tallied own arrivals' n'')
    (granted : granters arrivals' = granters arrivals)
    (answered : voters arrivals' = voters arrivals) :
    n''.record = n'.record ∧ n'.SameRole n'' := by
  have helects : n₀.Elects arrivals' ↔ n₀.Elects arrivals := by rw [Elects, Elects, granted]
  have hcanvassed : n₀.Canvassed arrivals' ↔ n₀.Canvassed arrivals := by
    rw [Canvassed, Canvassed, answered]
  have hcandidates : ∀ {c d : Candidate}, c.Counted n₀.id own arrivals →
      d.Counted n₀.id own arrivals' → d.tallying = c.tallying →
      SameRole { n₀ with role := .candidate c } { n₀ with role := .candidate d } := by
    intro c d hc hd htallying
    refine ⟨rfl, fun c' hc' => ?_⟩
    obtain rfl := Role.candidate.inj hc'
    exact ⟨d, rfl, htallying, hc.agree hd granted answered⟩
  cases h with
  | waiting counted tallying short missing =>
      cases h' with
      | waiting counted' tallying' short' missing' =>
          exact ⟨rfl, hcandidates counted counted' (tallying'.trans tallying.symm)⟩
      | lost counted' closed' short' full' => exact absurd (hcanvassed.mp full') missing
      | won leads' majority' record' => exact absurd (helects.mp majority') short
  | lost counted closed short full =>
      cases h' with
      | waiting counted' tallying' short' missing' => exact absurd (hcanvassed.mpr full) missing'
      | lost counted' closed' short' full' =>
          exact ⟨rfl, hcandidates counted counted' (closed'.trans closed.symm)⟩
      | won leads' majority' record' => exact absurd (helects.mp majority') short
  | won leads majority record =>
      cases h' with
      | waiting counted' tallying' short' missing' => exact absurd (helects.mpr majority) short'
      | lost counted' closed' short' full' => exact absurd (helects.mpr majority) short'
      | won leads' majority' record' =>
          obtain ⟨l, role⟩ := isLeader_iff.mp leads
          exact ⟨record'.trans record.symm, leads'.trans leads.symm,
            fun c hc => nomatch role.symm.trans hc⟩

theorem Tallied.leads_iff (h : n₀.Tallied own arrivals n) :
    n.isLeader = true ↔ n₀.Elects arrivals := by
  cases h with
  | waiting counted tallying short missing => exact iff_of_false Bool.false_ne_true short
  | lost counted closed short full => exact iff_of_false Bool.false_ne_true short
  | won leads majority record => exact iff_of_true leads majority

theorem Tallied.candidate (h : n₀.Tallied own arrivals n) (unled : n.isLeader = false) :
    ∃ c, n.role = .candidate c ∧ (c.tallying = false ↔ n₀.Canvassed arrivals) := by
  cases h with
  | waiting counted tallying short missing =>
      refine ⟨_, rfl, iff_of_false ?_ missing⟩
      rw [tallying]
      exact Bool.noConfusion
  | lost counted closed short full => exact ⟨_, rfl, iff_of_true closed full⟩
  | won leads majority record => exact nomatch leads.symm.trans unled

/-- A candidate among several servers starts with its own vote. -/
theorem tallied_candidacy (n : Node) (start : Instant) (peers : n.peers ≠ []) :
    (n.candidacy start).Tallied (n.priorLease.remaining start) [] (n.candidacy start) := by
  have hlength : 0 < n.peers.length := List.length_pos_iff.mpr peers
  refine .waiting (.stand n.id _ _) rfl ?_ ?_
  · intro h
    have hone : (n.peers.length + 1) / 2 + 1 ≤ (insert n.id (granters [])).card := h
    have hcard : (insert n.id (granters [])).card = 1 := Finset.card_singleton _
    omega
  · intro h
    obtain ⟨p, hp⟩ := List.exists_mem_of_ne_nil _ peers
    obtain ⟨a, ha, _⟩ := mem_voters.mp (h p hp)
    exact nomatch ha

end Node

/-! ## The outcome -/

variable {n n₀ : Node} {arrivals : List Arrival} {asked : List Command} {start : Instant}
  {draw : Nat}

/-- A candidate that has handled replies of its peers leads if and only if a
majority has granted its vote, and otherwise has closed its tally if and only
if every peer has answered. In another order, or at other times, the same
replies lead to the same role and the same record. All of them are handled if
the deadlines that a winner would set are within reach of the clock. -/
theorem election_decided_by_replies (distinct : n.peers.Nodup) (free : n.Idle)
    (stood : n.handle .electionTimeout start draw = .ok (n₀, asked)) (polls : n₀.Polls arrivals) :
    (∀ n', n₀.collect arrivals = .ok n' →
      n'.record.currentTerm = n₀.record.currentTerm ∧
      (n'.isLeader = true ↔
        n.clusterSize / 2 + 1 ≤ (insert n.id (granters arrivals)).card) ∧
      (n'.isLeader = false → ∃ c, n'.role = .candidate c ∧
        (c.tallying = false ↔ ∀ p ∈ n.peers, p ∈ voters arrivals)) ∧
      ∀ arrivals' n'', SameReplies arrivals' arrivals → n₀.collect arrivals' = .ok n'' →
        n''.record = n'.record ∧ n'.SameRole n'') ∧
    ∀ spare, n.priorLease.remaining start ≤ spare →
      (∀ a ∈ arrivals, a.reply.priorLease ≤ spare ∧
        a.now + spare + n.config.longest < Instant.limit) →
      ∃ n', n₀.collect arrivals = .ok n' := by
  rcases eq_or_ne n.peers [] with alone | several
  · -- alone it has won at once, and there is nobody to reply
    have hleads := Node.stand_alone free alone stood
    obtain ⟨l, role⟩ := Node.isLeader_iff.mp hleads
    have hpeers : n₀.peers = [] := (Node.handle_deeds stood).frame.peers.trans alone
    obtain rfl : arrivals = [] := List.eq_nil_iff_forall_not_mem.mpr fun a ha => by
      have hpeer := polls.peer a ha
      rw [hpeers] at hpeer
      exact nomatch hpeer
    refine ⟨fun n' hcollect => ?_, fun spare _ _ => ⟨n₀, rfl⟩⟩
    obtain rfl := Except.ok.inj hcollect
    refine ⟨rfl, iff_of_true hleads ?_, fun unled => (nomatch hleads.symm.trans unled), ?_⟩
    · show (n.peers.length + 1) / 2 + 1 ≤ (insert n.id ∅ : Finset NodeId).card
      rw [alone, insert_empty_eq, Finset.card_singleton]
      exact Nat.le_refl 1
    · intro arrivals' n'' same hcollect'
      obtain rfl : arrivals' = [] := List.map_eq_nil_iff.mp same.eq_nil
      obtain rfl := Except.ok.inj hcollect'
      exact ⟨rfl, rfl, fun c hc => nomatch role.symm.trans hc⟩
  · obtain rfl := Node.stand_open free several stood
    have hstart := n.tallied_candidacy start several
    refine ⟨fun n' hcollect => ?_, fun spare hprior hreach => ?_⟩
    · have htallied := hstart.collect distinct polls hcollect
      refine ⟨htallied.term, htallied.leads_iff, htallied.candidate, ?_⟩
      intro arrivals' n'' same hcollect'
      exact htallied.agree (hstart.collect distinct (polls.congr same) hcollect')
        same.granters_eq same.voters_eq
    · exact hstart.collect_returns distinct polls hprior (fun a ha => (hreach a ha).1)
        fun a ha => (hreach a ha).2

/-- A node of five that has just woken up. -/
def nominee : Node where
  id := 1
  peers := [2, 3, 4, 5]
  config := {}
  record := {}
  lastApplied := 0
  role := .follower ⟨none, Duration.ofSeconds 5⟩
  priorLease := {}
  unsaved := false

/-- Two peers grant their vote and two deny it, one of them twice. -/
def nomineeReplies : List Arrival :=
  [⟨2, ⟨1, false, 0⟩, Duration.ofSeconds 5, 0⟩,
    ⟨3, ⟨1, true, Duration.ofSeconds 2⟩, Duration.ofSeconds 5, 0⟩,
    ⟨2, ⟨1, false, Duration.ofSeconds 1⟩, Duration.ofSeconds 6, 0⟩,
    ⟨4, ⟨1, true, 0⟩, Duration.ofSeconds 6, 0⟩,
    ⟨5, ⟨1, false, 0⟩, Duration.ofSeconds 7, 0⟩]

/-- Two votes beside its own are enough, whatever the denials. -/
theorem election_decided_by_replies_nominee :
    (nominee.candidacy (Duration.ofSeconds 5)).Polls nomineeReplies ∧
    ∃ n', (nominee.candidacy (Duration.ofSeconds 5)).collect nomineeReplies = .ok n' ∧
      n'.isLeader = true := by
  have hstood : nominee.handle .electionTimeout (Duration.ofSeconds 5) 0 =
      .ok (nominee.candidacy (Duration.ofSeconds 5), nominee.canvass (Duration.ofSeconds 5)) := rfl
  have hpolls : (nominee.candidacy (Duration.ofSeconds 5)).Polls nomineeReplies :=
    ⟨by decide, by decide, by decide⟩
  obtain ⟨houtcome, hreturns⟩ :=
    election_decided_by_replies (by decide) (.of_follower rfl) hstood hpolls
  obtain ⟨n', hcollect⟩ := hreturns (Duration.ofSeconds 2) (by decide) (by decide)
  exact ⟨hpolls, n', hcollect, (houtcome n' hcollect).2.1.mpr (by decide)⟩

end Quorum
