import Quorum.Proofs.Protocol.Holdings

/-!
# Commits

What a node has committed is a part of something that a majority holds
(`Settled`). So it never changes: no request can take it out of a log, and
whatever two nodes have committed at any two times agrees.
-/

namespace Quorum.Chronicle

variable {M : Roster} {i j a b : NodeId} {s s' : Chronicle} {log other part : Log}
  {t u n : Nat} {q : AppendRequest}

/-- A majority holds the log, or has held more than it, in the log of a leader
of term `t` or of an earlier one. -/
def Settled (M : Roster) (s : Chronicle) (t : Nat) (log : Log) : Prop :=
  log = [] ∨ ∃ u ≤ t, ∃ part, s.Chosen M u part ∧ log <+: part

/-- Every commit length covers settled entries, and so does every one that a
leader tells. -/
structure Commits (M : Roster) (s : Chronicle) : Prop where
  commit_le : ∀ i, s.commit i ≤ (s.log i).length
  settled : ∀ i, s.Settled M (s.term i) ((s.log i).take (s.commit i))
  announced : ∀ a b q, ⟨a, b, .appendRequest q⟩ ∈ s.sent → ∃ log, s.Excerpt a q log ∧
    q.commit ≤ log.length ∧ s.Settled M q.term (log.take q.commit)

theorem Commits.start (M : Roster) : Commits M start := by
  constructor <;> intros <;> simp_all [Chronicle.start, Settled]

/-! ## Settled logs -/

theorem Settled.mono (h : s.Settled M t log) (htu : t ≤ u) : s.Settled M u log := by
  rcases h with hnil | ⟨v, hv, hrest⟩
  · exact .inl hnil
  · exact .inr ⟨v, Nat.le_trans hv htu, hrest⟩

theorem Settled.of_extends (h : s.Settled M t log) (hx : s.Extends s') : s'.Settled M t log := by
  rcases h with hnil | ⟨v, hv, part, hchosen, hp⟩
  · exact .inl hnil
  · exact .inr ⟨v, hv, part, hchosen.of_extends hx, hp⟩

/-- Every leader of a later term begins with a settled log. -/
theorem Settled.prefix_stood {g : Reign} (h : s.Settled M t log) (hb : Ballots M s)
    (ha : Holdings M s) (htu : t < u) (hg : s.reign u = some g) :
    log <+: s.stood g.winner u := by
  rcases h with rfl | ⟨v, hv, part, hchosen, hp⟩
  · exact List.nil_prefix
  · exact hp.trans (ha.chosen_prefix hb hchosen u g (Nat.lt_of_le_of_lt hv htu) hg)

/-- What is settled by a term is in the log of the leader of that term, and of
every later one. -/
theorem Settled.prefix_of_reign {g : Reign} (h : s.Settled M t log) (hb : Ballots M s)
    (hh : Histories s) (ha : Holdings M s) (htu : t ≤ u) (hg : s.reign u = some g) :
    log <+: g.log := by
  rcases h with rfl | ⟨v, hv, part, hchosen, hp⟩
  · exact List.nil_prefix
  rcases Nat.lt_or_eq_of_le (Nat.le_trans hv htu) with hlt | rfl
  · exact (hp.trans (ha.chosen_prefix hb hchosen u g hlt hg)).trans
      (hh.reigned u g hg).stood_prefix_log
  · obtain ⟨g', hg', hpg⟩ := hchosen.exists_reign
    obtain rfl := Option.some.inj (hg'.symm.trans hg)
    exact hp.trans hpg

/-- Of two settled logs one is a part of the other. -/
theorem Settled.total (h : s.Settled M t log) (ho : s.Settled M u other) (hb : Ballots M s)
    (hh : Histories s) (ha : Holdings M s) : log <+: other ∨ other <+: log := by
  rcases h with rfl | ⟨_, _, part, hchosen, hp⟩
  · exact .inl List.nil_prefix
  rcases ho with rfl | ⟨_, _, part', hchosen', hp'⟩
  · exact .inr List.nil_prefix
  rcases ha.chosen_total hb hh hchosen hchosen' with hle | hle
  · exact List.prefix_or_prefix_of_prefix (hp.trans hle) hp'
  · exact List.prefix_or_prefix_of_prefix hp (hp'.trans hle)

/-- A majority has a settled log now: who held it once and lost it since would
have lost it to a leader that began without it. -/
theorem Settled.exists_holders (h : s.Settled M t log) (hne : log ≠ []) (hb : Ballots M s)
    (ha : Holdings M s) : ∃ Q, M.Majority Q ∧ ∀ x ∈ Q, log <+: s.log x := by
  rcases h with rfl | ⟨u, _, part, hchosen, hp⟩
  · exact absurd rfl hne
  · have hlater := ha.chosen_prefix hb hchosen
    obtain ⟨_, Q, hQ, hholds⟩ := hchosen
    refine ⟨Q, hQ, fun x hx => ?_⟩
    rcases (ha.kept x u part (hholds x hx)).2 with hpart | ⟨v, g, huv, _, hg, hnot⟩
    · exact hp.trans hpart
    · exact absurd (hlater v g huv hg) hnot

/-- What is settled by term `t` goes on behind what the leader of the term has
had, or the other way round. -/
theorem Settled.prefix_or_prefix_of_issued (h : s.Settled M t log) (hb : Ballots M s)
    (ha : Holdings M s) (hpart : s.Issued a t part) : log <+: part ∨ part <+: log := by
  rcases h with rfl | ⟨u, hu, more, hchosen, hp⟩
  · exact .inl List.nil_prefix
  obtain ⟨whole, hw, hpw, hopened⟩ := hpart
  rcases Nat.lt_or_eq_of_le hu with hlt | rfl
  · -- chosen before the term, it is in what the leader began with
    have hmore := ha.chosen_prefix hb hchosen t _ hlt hw
    exact .inl ((hp.trans hmore).trans ((List.prefix_append _ _).trans hopened))
  · obtain ⟨g, hg, hpg⟩ := hchosen.exists_reign
    obtain rfl := Option.some.inj (hg.symm.trans hw)
    exact List.prefix_or_prefix_of_prefix (hp.trans hpg) hpw

/-! ## Every move -/

/-- A leader and the peers whose rows reach a length make a majority that
holds its log up to there. -/
theorem Holdings.chosen_of_rows {rows : List (NodeId × LogIndex)} (ha : Holdings M s)
    (hb : Ballots M s) (hi : i ∈ M.ids) (hl : s.standing i = .leading rows) (hpos : 0 < n)
    (hn : n ≤ (s.log i).length) (hown : (s.log i).termAt n = s.term i)
    (hheld : M.quorum ≤ ((s.log i).length :: rows.map (·.2)).countP (n ≤ ·)) :
    s.Chosen M (s.term i) ((s.log i).take n) := by
  have hreign := hb.leads i rows hl
  obtain ⟨hnodup, hrows⟩ := ha.rows i rows hl
  have hterm : s.term i ≠ 0 := Nat.ne_of_gt (hb.crowned _ _ hreign).1
  have hlength : ((s.log i).take n).length = n := List.length_take_of_le hn
  refine ⟨Log.lastTerm_take_of_termAt hown hterm, i :: (rows.filter (n ≤ ·.2)).map (·.1), ?_, ?_⟩
  · constructor
    case nodup =>
      refine List.nodup_cons.mpr ⟨fun hmem => ?_, hnodup.sublist (List.filter_sublist.map _)⟩
      obtain ⟨row, hrow, heq⟩ := List.mem_map.mp hmem
      exact (hrows row (List.mem_of_mem_filter hrow)).2.1 heq
    case member =>
      intro v hv
      rcases List.mem_cons.mp hv with rfl | hv
      · exact hi
      · obtain ⟨row, hrow, rfl⟩ := List.mem_map.mp hv
        exact (hrows row (List.mem_of_mem_filter hrow)).1
    case quorum_le =>
      rw [List.length_cons, List.length_map, ← List.countP_eq_length_filter]
      rw [List.countP_cons, if_pos (decide_eq_true hn), List.countP_map] at hheld
      exact hheld
  · intro x hx
    refine ⟨_, hreign, List.take_prefix _ _, ?_⟩
    rw [hlength]
    rcases List.mem_cons.mp hx with rfl | hx
    · exact .inl rfl
    · obtain ⟨row, hrow, rfl⟩ := List.mem_map.mp hx
      obtain ⟨hrow, hreach⟩ := List.mem_filter.mp hrow
      have hreach : n ≤ row.2 := of_decide_eq_true hreach
      rcases (hrows row hrow).2.2 with hzero | ⟨b, r, hm, hr, hrt, hle⟩
      · exact absurd (hzero ▸ hreach) (Nat.not_le_of_lt hpos)
      · exact .inr ⟨b, r, hm, hr, hrt, Nat.le_trans hreach hle⟩

/-- What a node has committed is still there, and it has committed no less. -/
structure Keeps (s s' : Chronicle) (i : NodeId) : Prop where
  commit_le : s.commit i ≤ s'.commit i
  committed : (s.log i).take (s.commit i) <+: s'.log i

theorem Keeps.refl (s : Chronicle) (i : NodeId) : s.Keeps s i :=
  ⟨Nat.le_refl _, List.take_prefix _ _⟩

theorem Keeps.trans {s₁ s₂ s₃ : Chronicle} (hc : Commits M s₁) (h₁ : s₁.Keeps s₂ i)
    (h₂ : s₂.Keeps s₃ i) : s₁.Keeps s₃ i where
  commit_le := Nat.le_trans h₁.commit_le h₂.commit_le
  committed := by
    rw [← Log.take_eq_of_take_prefix h₁.committed (hc.commit_le i)]
    exact (List.take_prefix_take_left h₁.commit_le).trans h₂.committed

/-- What taking over a leader's entries means for commits: the node keeps what
it has committed, and has all that the leader had. -/
theorem Commits.splice (hc : Commits M s) (hb : Ballots M s) (hh : Histories s)
    (ha : Holdings M s) (hq : s.Excerpt a q part) (hcurrent : q.term = s.term i)
    (hfits : (s.log i).holds q.prevIndex q.prevTerm = true) :
    (s.log i).take (s.commit i) <+: (s.log i).splice q.prevIndex q.entries ∧
      part <+: (s.log i).splice q.prevIndex q.entries := by
  rcases hq.splice hh (hh.sound i) hfits with ⟨hin, heq⟩ | ⟨hnot, heq⟩ <;> rw [heq]
  · exact ⟨List.take_prefix _ _, hin⟩
  · -- the node's log is replaced, so it did not have all that the leader had
    refine ⟨?_, List.prefix_rfl⟩
    have hsettled := hc.settled i
    rw [← hcurrent] at hsettled
    rcases hsettled.prefix_or_prefix_of_issued hb ha hq.issued with hp | hp
    · exact hp
    · exact absurd (hp.trans (List.take_prefix _ _)) hnot

theorem Move.keeps (h : Move M i s s') (hb : Ballots M s) (hh : Histories s)
    (ha : Holdings M s) (hc : Commits M s) (j : NodeId) : s.Keeps s' j := by
  by_cases hj : j = i
  · subst hj
    rcases h.commit_cases with ⟨hsame, hp⟩ | ⟨rows, _, hlt, _, _, hlog, _⟩ |
      ⟨a, q, harrived, hcurrent, _, hfits, hspliced, hmax⟩
    · exact ⟨Nat.le_of_eq hsame.symm, (List.take_prefix _ _).trans hp⟩
    · exact ⟨Nat.le_of_lt hlt, hlog ▸ List.take_prefix _ _⟩
    · obtain ⟨part, hq⟩ := hh.shipped a j q harrived
      refine ⟨hmax ▸ Nat.le_max_left _ _, ?_⟩
      rw [hspliced]
      exact (hc.splice hb hh ha hq hcurrent hfits).1
  · refine ⟨Nat.le_of_eq (h.commit_of_ne hj).symm, ?_⟩
    rw [h.log_of_ne hj]
    exact List.take_prefix _ _

/-- The mover has what it has committed, and that is settled. -/
theorem Move.settled (h : Move M i s s') (hi : i ∈ M.ids) (hb : Ballots M s) (hh : Histories s)
    (ha : Holdings M s) (hc : Commits M s) :
    s'.commit i ≤ (s'.log i).length ∧
      s'.Settled M (s'.term i) ((s'.log i).take (s'.commit i)) := by
  have hext := h.extends hb
  have hkeeps := (h.keeps hb hh ha hc i).committed
  have hle := hc.commit_le i
  have hstays : s'.commit i = s.commit i → s'.commit i ≤ (s'.log i).length ∧
      s'.Settled M (s'.term i) ((s'.log i).take (s'.commit i)) := fun hsame => by
    rw [hsame, Log.take_eq_of_take_prefix hkeeps hle]
    refine ⟨?_, ((hc.settled i).of_extends hext).mono (hext.term i)⟩
    exact List.length_take_of_le hle ▸ hkeeps.length_le
  rcases h.commit_cases with ⟨hsame, _⟩ | ⟨rows, hl, hlt, hown, hheld, hlog, hterm⟩ |
    ⟨a, q, harrived, hcurrent, hterm, hfits, hspliced, hmax⟩
  · exact hstays hsame
  · -- a leader commits what its rows show
    have hpos := (hb.crowned _ _ (hb.leads i rows hl)).1
    obtain ⟨e, he, _⟩ := Log.exists_entry?_of_termAt hown (Nat.ne_of_gt hpos)
    have hn := Log.le_length_of_entry he
    have hchosen := ha.chosen_of_rows hb hi hl (Nat.zero_lt_of_lt hlt) hn hown hheld
    rw [hlog, hterm]
    exact ⟨hn, .inr ⟨_, Nat.le_refl _, _, hchosen.of_extends hext, List.prefix_rfl⟩⟩
  · -- a follower commits what its leader had committed
    obtain ⟨part, hq, hannounced, hsettled⟩ := hc.announced a i q harrived
    rw [hq.length_eq, Nat.min_eq_left hannounced] at hmax
    rcases Nat.le_total q.commit (s.commit i) with hold | hnew
    · exact hstays (hmax.trans (Nat.max_eq_left hold))
    · have hin := (hc.splice hb hh ha hq hcurrent hfits).2
      rw [hmax, Nat.max_eq_right hnew, hterm, hspliced,
        Log.take_eq_of_take_prefix ((List.take_prefix _ _).trans hin) hannounced]
      exact ⟨Nat.le_trans hannounced hin.length_le, hcurrent ▸ hsettled.of_extends hext⟩

theorem Move.announced (h : Move M i s s') (hb : Ballots M s) (hh : Histories s)
    (hc : Commits M s) (hm : ⟨a, b, .appendRequest q⟩ ∈ s'.sent) :
    ∃ log, s'.Excerpt a q log ∧ q.commit ≤ log.length ∧
      s'.Settled M q.term (log.take q.commit) := by
  have hext := h.extends hb
  have hnow : ∃ log, s.Excerpt a q log ∧ q.commit ≤ log.length ∧
      s.Settled M q.term (log.take q.commit) := by
    rcases h.request_cases hm (.inr ⟨q, rfl⟩) with hm | ⟨rfl, hsay, _⟩
    · exact hc.announced a b q hm
    · have hq := Excerpt.of_maySay hb hh hsay
      obtain ⟨_, hterm, _, _, _, _, hcommit⟩ := hsay
      refine ⟨s.log a, hq, ?_, ?_⟩
      · rw [hcommit]
        exact hc.commit_le a
      · rw [hcommit, hterm]
        exact hc.settled a
  obtain ⟨log, hq, hle, hsettled⟩ := hnow
  exact ⟨log, hq.of_extends hext hb, hle, hsettled.of_extends hext⟩

theorem Move.commits (h : Move M i s s') (hi : i ∈ M.ids) (hb : Ballots M s)
    (hh : Histories s) (ha : Holdings M s) (hc : Commits M s) : Commits M s' := by
  have hext := h.extends hb
  have hmover := h.settled hi hb hh ha hc
  constructor
  case commit_le =>
    intro j
    by_cases hj : j = i
    · exact hj ▸ hmover.1
    · rw [h.commit_of_ne hj, h.log_of_ne hj]
      exact hc.commit_le j
  case settled =>
    intro j
    by_cases hj : j = i
    · exact hj ▸ hmover.2
    · rw [h.term_of_ne hj, h.log_of_ne hj, h.commit_of_ne hj]
      exact (hc.settled j).of_extends hext
  case announced => exact fun _ _ _ hm => h.announced hb hh hc hm

end Quorum.Chronicle
