import Mathlib.Data.Finset.Card
import Quorum.Proofs.Protocol.Chronicle

/-!
# Ballots

One vote for each node and term, and therefore one winner for each term.
A vote is on record before it is sent, a candidate counts only votes that
were given to it, and any two majorities share a node; so a term that was
won is not won again (`Ballots.reign_eq_none`).
-/

namespace Quorum

/-- Different members of a cluster, enough for a majority. -/
structure Roster.Majority (M : Roster) (members : List NodeId) : Prop where
  nodup : members.Nodup
  member : ∀ v ∈ members, v ∈ M.ids
  quorum_le : M.quorum ≤ members.length

/-- Two majorities have a member in common. -/
theorem Roster.Majority.exists_common {M : Roster} {P Q : List NodeId} (hP : M.Majority P)
    (hQ : M.Majority Q) : ∃ v ∈ P, v ∈ Q := by
  have hPs : P.toFinset ⊆ M.ids.toFinset := fun v hv =>
    List.mem_toFinset.mpr (hP.member v (List.mem_toFinset.mp hv))
  have hQs : Q.toFinset ⊆ M.ids.toFinset := fun v hv =>
    List.mem_toFinset.mpr (hQ.member v (List.mem_toFinset.mp hv))
  have hcard : M.ids.toFinset.card < P.toFinset.card + Q.toFinset.card := by
    rw [List.toFinset_card_of_nodup M.nodup, List.toFinset_card_of_nodup hP.nodup,
      List.toFinset_card_of_nodup hQ.nodup]
    have hPq := hP.quorum_le
    have hQq := hQ.quorum_le
    unfold Roster.quorum at hPq hQq
    -- more than half and more than half are more than all
    omega
  obtain ⟨v, hv⟩ := Finset.inter_nonempty_of_card_lt_card_add_card hPs hQs hcard
  obtain ⟨hvP, hvQ⟩ := Finset.mem_inter.mp hv
  exact ⟨v, List.mem_toFinset.mp hvP, List.mem_toFinset.mp hvQ⟩

theorem Roster.Majority.exists_mem {M : Roster} {P : List NodeId} (hP : M.Majority P) :
    ∃ v, v ∈ P := by
  obtain ⟨v, hv, _⟩ := hP.exists_common hP
  exact ⟨v, hv⟩

namespace Chronicle

/-- The votes of a chronicle are in order. -/
structure Ballots (M : Roster) (s : Chronicle) : Prop where
  /-- What a node remembers of its vote is what it did in its term. -/
  cast : ∀ i, s.ballot i (s.term i) = s.vote i
  /-- Nobody votes ahead of time. -/
  later : ∀ i (t : Nat), s.term i < t → s.ballot i t = none
  /-- A vote is for somebody who has reached the term. -/
  asked : ∀ v (t : Nat) c, s.ballot v t = some c → t ≤ s.term c
  request : ∀ a b q, ⟨a, b, .voteRequest q⟩ ∈ s.sent → q.candidate = a ∧ q.term ≤ s.term a
  granted : ∀ a b r, ⟨a, b, .voteReply r⟩ ∈ s.sent → r.granted = true →
    a ∈ M.ids ∧ s.ballot a r.term = some b
  counted : ∀ i votes, s.standing i = .counting votes →
    0 < s.term i ∧ votes.Nodup ∧ ∀ v ∈ votes, v ∈ M.ids ∧ s.ballot v (s.term i) = some i
  /-- Who won a term had the votes of a majority in it. -/
  won : ∀ t g, s.reign t = some g → ∃ Q, M.Majority Q ∧ ∀ v ∈ Q, s.ballot v t = some g.winner
  leads : ∀ i acked, s.standing i = .leading acked → s.reign (s.term i) = some ⟨i, s.log i⟩
  /-- Who won a term is not a candidate in it any more. -/
  crowned : ∀ (t : Nat) g, s.reign t = some g → 0 < t ∧ t ≤ s.term g.winner ∧
    ∀ votes, s.standing g.winner = .counting votes → t < s.term g.winner

variable {M : Roster} {i : NodeId} {s s' : Chronicle} {record : Record} {standing : Standing}
  {votes : List NodeId} {log : Log} {e : LogEntry}

theorem Ballots.start (M : Roster) : Ballots M start := by
  constructor <;> intros <;> simp_all [Chronicle.start]

/-- A candidate that has a majority is the first to win its term. -/
theorem Ballots.reign_eq_none (hb : Ballots M s) (hcounting : s.standing i = .counting votes)
    (hmajority : M.quorum ≤ votes.length) : s.reign (s.term i) = none := by
  by_contra hne
  obtain ⟨g, hg⟩ := Option.ne_none_iff_exists'.mp hne
  obtain ⟨_, hnodup, hvotes⟩ := hb.counted i votes hcounting
  obtain ⟨Q, hQ, hballots⟩ := hb.won _ g hg
  obtain ⟨v, hv, hvQ⟩ := Roster.Majority.exists_common
    ⟨hnodup, fun v hv => (hvotes v hv).1, hmajority⟩ hQ
  -- a common voter makes the winner the candidate, which counts no more then
  have hwinner : g.winner = i :=
    Option.some.inj ((hballots v hvQ).symm.trans (hvotes v hv).2)
  have hlt := (hb.crowned _ g hg).2.2 votes (hwinner ▸ hcounting)
  rw [hwinner] at hlt
  exact Nat.lt_irrefl _ hlt

/-! ## Single moves -/

/-- A node that keeps its term and its vote changes no ballot. -/
theorem Ballots.put (hb : Ballots M s) (hterm : record.currentTerm = s.term i)
    (hvote : record.votedFor = s.vote i)
    (hcounted : ∀ votes, standing = .counting votes → ∃ earlier, s.standing i = .counting earlier ∧
      votes.Nodup ∧ ∀ v ∈ votes, v ∈ M.ids ∧ s.ballot v (s.term i) = some i)
    (hleads : ∀ acked, standing = .leading acked → s.reign (s.term i) = some ⟨i, record.log⟩) :
    Ballots M (s.put i record standing) := by
  have hterms : (s.put i record standing).term = s.term := put_term hterm
  constructor
  case cast => rw [hterms, put_vote hvote]; exact hb.cast
  case later => rw [hterms]; exact hb.later
  case asked => rw [hterms]; exact hb.asked
  case request => rw [hterms]; exact hb.request
  case granted => exact hb.granted
  case counted =>
    intro j votes hj
    rw [hterms]
    by_cases hji : j = i
    · subst hji
      obtain ⟨earlier, hearlier, hvotes⟩ := hcounted votes (by simpa using hj)
      exact ⟨(hb.counted j earlier hearlier).1, hvotes⟩
    · exact hb.counted j votes (by simpa [hji] using hj)
  case won => exact hb.won
  case leads =>
    intro j acked hj
    rw [hterms]
    by_cases hji : j = i
    · subst hji
      simpa using hleads acked (by simpa using hj)
    · simpa [hji] using hb.leads j acked (by simpa [hji] using hj)
  case crowned =>
    intro t g hg
    rw [hterms]
    obtain ⟨hpos, hle, hcount⟩ := hb.crowned t g hg
    refine ⟨hpos, hle, fun votes hvotes => ?_⟩
    by_cases hw : g.winner = i
    · obtain ⟨earlier, hearlier, _⟩ := hcounted votes (by simpa [hw] using hvotes)
      exact hcount earlier (hw ▸ hearlier)
    · exact hcount votes (by simpa [hw] using hvotes)

/-- A message has to report votes as they are. -/
theorem Ballots.say {receiver : NodeId} {message : Message} (hb : Ballots M s)
    (hrequest : ∀ q, message = .voteRequest q → q.candidate = i ∧ q.term ≤ s.term i)
    (hgranted : ∀ r, message = .voteReply r → r.granted = true →
      i ∈ M.ids ∧ s.ballot i r.term = some receiver) :
    Ballots M (s.say i receiver message) where
  cast := hb.cast
  later := hb.later
  asked := hb.asked
  request a b q hq := by
    rcases mem_say.mp hq with hq | hq
    · exact hb.request a b q hq
    · obtain ⟨rfl, -, hm⟩ := InFlight.mk.inj hq
      exact hrequest q hm.symm
  granted a b r hr hg := by
    rcases mem_say.mp hr with hr | hr
    · exact hb.granted a b r hr hg
    · obtain ⟨rfl, rfl, hm⟩ := InFlight.mk.inj hr
      exact hgranted r hm.symm hg
  counted := hb.counted
  won := hb.won
  leads := hb.leads
  crowned := hb.crowned

/-- A newer term begins without a vote. -/
theorem Ballots.adopt {t : Term} (hb : Ballots M s) (hnewer : s.term i < t) :
    Ballots M
      (s.put i { (s.core i).record with currentTerm := t, votedFor := none } .passive) := by
  have hterms : ∀ j, s.term j ≤ (s.put i { (s.core i).record with
      currentTerm := t, votedFor := none } .passive).term j :=
    le_put_term (Nat.le_of_lt hnewer)
  constructor
  case cast =>
    intro j
    by_cases hj : j = i
    · subst hj; simpa using hb.later j t hnewer
    · simpa [hj] using hb.cast j
  case later => exact fun j u hu => hb.later j u (Nat.lt_of_le_of_lt (hterms j) hu)
  case asked => exact fun v u c hc => Nat.le_trans (hb.asked v u c hc) (hterms c)
  case request =>
    intro a b q hq
    obtain ⟨hcandidate, hle⟩ := hb.request a b q hq
    exact ⟨hcandidate, Nat.le_trans hle (hterms a)⟩
  case granted => exact hb.granted
  case counted =>
    intro j votes hj
    by_cases hji : j = i
    · subst hji; simp at hj
    · simpa [hji] using hb.counted j votes (by simpa [hji] using hj)
  case won => exact hb.won
  case leads =>
    intro j acked hj
    by_cases hji : j = i
    · subst hji; simp at hj
    · simpa [hji] using hb.leads j acked (by simpa [hji] using hj)
  case crowned =>
    intro u g hg
    obtain ⟨hpos, hle, hcount⟩ := hb.crowned u g hg
    refine ⟨hpos, Nat.le_trans hle (hterms _), fun votes hvotes => ?_⟩
    by_cases hw : g.winner = i
    · simp [hw] at hvotes
    · simpa [hw] using hcount votes (by simpa [hw] using hvotes)

/-- Standing for election opens a term in which nobody can have voted for the
candidate yet. -/
theorem Ballots.stand (hb : Ballots M s) (hi : i ∈ M.ids) :
    Ballots M (((s.put i
      { (s.core i).record with currentTerm := s.term i + 1, votedFor := some i }
      (.counting [i])).cast i (s.term i + 1) i).enter i (s.term i + 1) (s.log i)) := by
  have hterms : ∀ j, s.term j ≤ (s.put i { (s.core i).record with
      currentTerm := s.term i + 1, votedFor := some i } (.counting [i])).term j :=
    le_put_term (Nat.le_succ _)
  -- the only ballot that changes was not cast before
  have hkept : ∀ v (t : Nat) c, s.ballot v t = some c →
      (if v = i ∧ t = s.term i + 1 then some i else s.ballot v t) = some c := by
    intro v t c hc
    rw [if_neg]
    · exact hc
    · rintro ⟨rfl, rfl⟩
      rw [hb.later v _ (Nat.lt_succ_self _)] at hc
      exact nomatch hc
  constructor
  case cast =>
    intro j
    by_cases hj : j = i
    · subst hj; simp
    · simpa [hj] using hb.cast j
  case later =>
    intro j t ht
    rw [enter_ballot, cast_ballot, if_neg]
    · exact hb.later j t (Nat.lt_of_le_of_lt (hterms j) ht)
    · rintro ⟨rfl, rfl⟩
      simp at ht
  case asked =>
    intro v t c hc
    rw [enter_ballot, cast_ballot] at hc
    split at hc
    · next hvt =>
        obtain rfl := Option.some.inj hc
        simp [hvt.2]
    · exact Nat.le_trans (hb.asked v t c hc) (hterms c)
  case request =>
    intro a b q hq
    obtain ⟨hcandidate, hle⟩ := hb.request a b q hq
    exact ⟨hcandidate, Nat.le_trans hle (hterms a)⟩
  case granted =>
    intro a b r hr hg
    obtain ⟨ha, hballot⟩ := hb.granted a b r hr hg
    exact ⟨ha, hkept a r.term b hballot⟩
  case counted =>
    intro j votes hj
    by_cases hji : j = i
    · subst hji
      obtain rfl : [j] = votes := by simpa using hj
      simpa using hi
    · obtain ⟨hpos, hnodup, hvotes⟩ := hb.counted j votes (by simpa [hji] using hj)
      have hterm : (s.put i { (s.core i).record with
          currentTerm := s.term i + 1, votedFor := some i } (.counting [i])).term j = s.term j := by
        simp [hji]
      refine ⟨Nat.lt_of_lt_of_le hpos (hterms j), hnodup, fun v hv => ⟨(hvotes v hv).1, ?_⟩⟩
      exact (congrArg _ hterm).trans (hkept v _ _ (hvotes v hv).2)
  case won =>
    intro t g hg
    obtain ⟨Q, hQ, hballots⟩ := hb.won t g hg
    exact ⟨Q, hQ, fun v hv => hkept v t _ (hballots v hv)⟩
  case leads =>
    intro j acked hj
    by_cases hji : j = i
    · subst hji; simp at hj
    · simpa [hji] using hb.leads j acked (by simpa [hji] using hj)
  case crowned =>
    intro t g hg
    obtain ⟨hpos, hle, hcount⟩ := hb.crowned t g hg
    refine ⟨hpos, Nat.le_trans hle (hterms _), fun votes hvotes => ?_⟩
    by_cases hw : g.winner = i
    · simpa [hw] using Nat.lt_succ_of_le hle
    · simpa [hw] using hcount votes (by simpa [hw] using hvotes)

/-- The log of the one who won a term takes a new shape in its reign. -/
theorem Ballots.crown {acked : List (NodeId × LogIndex)} (hb : Ballots M s)
    (hpos : 0 < s.term i)
    (hwon : ∃ Q, M.Majority Q ∧ ∀ v ∈ Q, s.ballot v (s.term i) = some i)
    (hmine : ∀ g, s.reign (s.term i) = some g → g.winner = i) :
    Ballots M ((s.put i { (s.core i).record with log } (.leading acked)).crown
      (s.term i) i log) := by
  have hterms : ((s.put i { (s.core i).record with log } (.leading acked)).crown
      (s.term i) i log).term = s.term := put_term rfl
  have hvotes : ((s.put i { (s.core i).record with log } (.leading acked)).crown
      (s.term i) i log).vote = s.vote := put_vote rfl
  constructor
  case cast => rw [hterms, hvotes]; exact hb.cast
  case later => rw [hterms]; exact hb.later
  case asked => rw [hterms]; exact hb.asked
  case request => rw [hterms]; exact hb.request
  case granted => exact hb.granted
  case counted =>
    intro j votes hj
    rw [hterms]
    by_cases hji : j = i
    · subst hji; simp at hj
    · exact hb.counted j votes (by simpa [hji] using hj)
  case won =>
    intro t g hg
    rw [crown_reign] at hg
    split at hg
    · next ht =>
        obtain rfl := Option.some.inj hg
        rw [ht]
        exact hwon
    · exact hb.won t g hg
  case leads =>
    intro j acked' hj
    rw [hterms]
    by_cases hji : j = i
    · subst hji; simp
    · have hold := hb.leads j acked' (by simpa [hji] using hj)
      -- nobody else leads the term that is crowned
      have hne : s.term j ≠ s.term i := fun heq => hji (hmine _ (heq ▸ hold))
      rw [crown_reign, if_neg hne, put_reign, hold]
      simp [hji]
  case crowned =>
    intro t g hg
    rw [hterms]
    rw [crown_reign] at hg
    split at hg
    · next ht =>
        obtain rfl := Option.some.inj hg
        rw [ht]
        exact ⟨hpos, Nat.le_refl _, fun votes hvotes => by simp at hvotes⟩
    · obtain ⟨hpos, hle, hcount⟩ := hb.crowned t g hg
      refine ⟨hpos, hle, fun votes hvotes => ?_⟩
      by_cases hw : g.winner = i
      · simp [hw] at hvotes
      · exact hcount votes (by simpa [hw] using hvotes)

/-- A vote that is free, or was given to the same candidate, is given. -/
theorem Ballots.grant {c : NodeId} (hb : Ballots M s)
    (hfree : s.vote i = none ∨ s.vote i = some c) (hasked : s.term i ≤ s.term c) :
    Ballots M ((s.put i { (s.core i).record with votedFor := some c } (s.standing i)).cast
      i (s.term i) c) := by
  -- a ballot that was cast before is the same now
  have hkept : ∀ j (t : Nat) d, s.ballot j t = some d →
      (if j = i ∧ t = s.term i then some c else s.ballot j t) = some d := by
    intro j t d hd
    split
    · next hjt =>
        obtain ⟨rfl, rfl⟩ := hjt
        rw [hb.cast j] at hd
        rcases hfree with hnone | hsome
        · rw [hnone] at hd; exact absurd hd (by simp)
        · rw [← hsome, hd]
    · exact hd
  have hterms : ((s.put i { (s.core i).record with votedFor := some c } (s.standing i)).cast
      i (s.term i) c).term = s.term := put_term rfl
  have hstandings : ((s.put i { (s.core i).record with votedFor := some c } (s.standing i)).cast
      i (s.term i) c).standing = s.standing := put_standing
  constructor
  case cast =>
    intro j
    rw [hterms]
    by_cases hj : j = i
    · subst hj; simp
    · simpa [hj] using hb.cast j
  case later =>
    intro j t ht
    rw [hterms] at ht
    rw [cast_ballot, if_neg, put_ballot]
    · exact hb.later j t ht
    · rintro ⟨rfl, rfl⟩
      exact Nat.lt_irrefl _ ht
  case asked =>
    intro v t d hd
    rw [hterms]
    rw [cast_ballot] at hd
    split at hd
    · next hvt =>
        obtain rfl := Option.some.inj hd
        rw [hvt.2]
        exact hasked
    · exact hb.asked v t d hd
  case request => rw [hterms]; exact hb.request
  case granted =>
    intro a b r hr hg
    obtain ⟨ha, hballot⟩ := hb.granted a b r hr hg
    exact ⟨ha, hkept a r.term b hballot⟩
  case counted =>
    intro j votes hj
    rw [hterms]
    rw [hstandings] at hj
    obtain ⟨hpos, hnodup, hvotes⟩ := hb.counted j votes hj
    exact ⟨hpos, hnodup, fun v hv => ⟨(hvotes v hv).1, hkept v _ _ (hvotes v hv).2⟩⟩
  case won =>
    intro t g hg
    obtain ⟨Q, hQ, hballots⟩ := hb.won t g hg
    exact ⟨Q, hQ, fun v hv => hkept v t _ (hballots v hv)⟩
  case leads =>
    intro j acked hj
    rw [hterms]
    rw [hstandings] at hj
    by_cases hji : j = i
    · subst hji; simpa using hb.leads j acked hj
    · simpa [hji] using hb.leads j acked hj
  case crowned => rw [hterms, hstandings]; exact hb.crowned

/-! ## Every move -/

theorem Move.ballots (h : Move M i s s') (hi : i ∈ M.ids) (hb : Ballots M s) : Ballots M s' := by
  cases h with
  | adopt newer => exact hb.adopt newer
  | retire => exact hb.put rfl rfl (fun _ h => nomatch h) (fun _ h => nomatch h)
  | stand => exact hb.stand hi
  | @count votes voter r counting arrived granted current =>
      refine hb.put rfl rfl (fun _ h => ?_) (fun _ h => nomatch h)
      obtain rfl := Standing.counting.inj h
      obtain ⟨_, hnodup, hvotes⟩ := hb.counted i votes counting
      obtain ⟨hmember, hballot⟩ := hb.granted _ _ _ arrived granted
      refine ⟨votes, counting, List.Nodup.insert hnodup, fun v hv => ?_⟩
      rcases List.mem_insert_iff.mp hv with rfl | hv
      · exact ⟨hmember, current ▸ hballot⟩
      · exact hvotes v hv
  | win counting majority rows fresh =>
      obtain ⟨hpos, hnodup, hvotes⟩ := hb.counted i _ counting
      refine hb.crown hpos ⟨_, ⟨hnodup, fun v hv => (hvotes v hv).1, majority⟩,
        fun v hv => (hvotes v hv).2⟩ fun g hg => ?_
      rw [hb.reign_eq_none counting majority] at hg
      exact absurd hg (by simp)
  | append operation leading =>
      have hreign := hb.leads i _ leading
      refine hb.crown (hb.crowned _ _ hreign).1 (hb.won _ _ hreign) fun g hg => ?_
      rw [← Option.some.inj (hreign.symm.trans hg)]
  | note leading arrived success current =>
      exact hb.put rfl rfl (fun _ h => nomatch h) (fun _ _ => hb.leads i _ leading)
  | advance leading further own held =>
      exact hb.put rfl rfl (fun _ h => nomatch h) (fun _ _ => hb.leads i _ leading)
  | @grant candidate q prior arrived current free covered =>
      obtain ⟨hcandidate, hle⟩ := hb.request _ _ _ arrived
      refine (hb.grant free (hcandidate ▸ current ▸ hle)).say (fun _ h => nomatch h) ?_
      rintro r hr -
      obtain rfl := Message.voteReply.inj hr
      exact ⟨hi, by simp [hcandidate]⟩
  | accept arrived current fits =>
      refine Ballots.say (hb.put rfl rfl ?_ ?_) ?_ ?_ <;> exact fun _ h => nomatch h
  | tell truthful =>
      refine hb.say ?_ ?_
      · rintro q rfl
        exact ⟨truthful.2.2.1, Nat.le_of_eq truthful.2.1⟩
      · rintro r rfl hgranted
        exact absurd (hgranted.symm.trans truthful) (by simp)

end Chronicle

end Quorum
