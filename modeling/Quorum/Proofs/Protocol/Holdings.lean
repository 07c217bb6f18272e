import Quorum.Proofs.Protocol.Histories

/-!
# Holdings

Who holds how much of a leader's log. A node that has confirmed a part of it
keeps that part, unless the leader of a later term began without it
(`Holdings.kept`); and it votes only for candidates that have the part, with
the same exception (`Holdings.voted`). Where a majority holds a part that
ends in the leader's own term there is no first such exception: every later
leader begins with the part (`Holdings.chosen_prefix`).
-/

namespace Quorum.Chronicle

variable {M : Roster} {i j a b c x : NodeId} {s s' : Chronicle} {log other part : Log}
  {t u v : Nat} {n : Nat} {e : LogEntry} {g : Reign}

/-- A node has confirmed to the leader of term `t` that it has the first `n`
entries. -/
def Acked (s : Chronicle) (x : NodeId) (t n : Nat) : Prop :=
  ∃ b r, ⟨x, b, .appendReply r⟩ ∈ s.sent ∧ r.success = true ∧ r.term = t ∧ n ≤ r.acked

/-- In term `t` node `x` has had a part of the leader's log: as the leader
itself, or as one that confirmed it. -/
def Holds (s : Chronicle) (x : NodeId) (t : Nat) (part : Log) : Prop :=
  ∃ g, s.reign t = some g ∧ part <+: g.log ∧ (x = g.winner ∨ s.Acked x t part.length)

/-- The leader of some term after `t` and before `v` began without `part`. -/
def Missed (s : Chronicle) (t v : Nat) (part : Log) : Prop :=
  ∃ u g, t < u ∧ u < v ∧ s.reign u = some g ∧ ¬ part <+: s.stood g.winner u

/-- Nodes keep what they hold, and vote accordingly. -/
structure Holdings (M : Roster) (s : Chronicle) : Prop where
  acked : ∀ x b r, ⟨x, b, .appendReply r⟩ ∈ s.sent → r.success = true →
    ∃ g, s.reign r.term = some g ∧ r.acked ≤ g.log.length
  kept : ∀ x t part, s.Holds x t part → t ≤ s.term x ∧
    (part <+: s.log x ∨ s.Missed t ((s.log x).lastTerm + 1) part)
  voted : ∀ x (t u : Nat) part c, s.Holds x t part → part.lastTerm = t → t < u →
    s.ballot x u = some c → part <+: s.stood c u ∨ s.Missed t u part
  rows : ∀ i rows, s.standing i = .leading rows → (rows.map (·.1)).Nodup ∧
    ∀ row ∈ rows, row.1 ∈ M.ids ∧ row.1 ≠ i ∧ (row.2 = 0 ∨ s.Acked row.1 (s.term i) row.2)

theorem Holdings.start (M : Roster) : Holdings M start := by
  constructor <;> intros <;> simp_all [Chronicle.start, Holds]

/-! ## What lasts -/

theorem Acked.of_extends (h : s.Acked x t n) (hx : s.Extends s') : s'.Acked x t n := by
  obtain ⟨b, r, hm, hr⟩ := h
  exact ⟨b, r, hx.sent hm, hr⟩

theorem Holds.of_extends (h : s.Holds x t part) (hx : s.Extends s') : s'.Holds x t part := by
  obtain ⟨g, hg, hp, hwho⟩ := h
  obtain ⟨log', hg', hp'⟩ := hx.reign t g hg
  exact ⟨_, hg', hp.trans hp', hwho.imp id fun ha => ha.of_extends hx⟩

theorem Missed.of_extends (h : s.Missed t v part) (hx : s.Extends s') (hb : Ballots M s) :
    s'.Missed t v part := by
  obtain ⟨u, g, htu, huv, hg, hnot⟩ := h
  obtain ⟨log', hg', _⟩ := hx.reign u g hg
  refine ⟨u, _, htu, huv, hg', ?_⟩
  rw [hx.stood _ u (hb.crowned u g hg).2.1]
  exact hnot

theorem Missed.mono (h : s.Missed t u part) (huv : u ≤ v) : s.Missed t v part := by
  obtain ⟨w, g, htw, hwu, hg⟩ := h
  exact ⟨w, g, htw, Nat.lt_of_lt_of_le hwu huv, hg⟩

/-- A log ends no later than in the term of the node that has it. -/
theorem Missed.of_sound (h : s.Missed t (log.lastTerm + 1) part) (hlog : s.Sound u log) :
    s.Missed t (u + 1) part :=
  h.mono (Nat.succ_le_succ (Log.lastTerm_le hlog.bounded))

/-! ## What a node comes to hold -/

/-- Parts of one leader's log are parts of each other. -/
theorem prefix_total_of_reign (hg : s.reign t = some g) (hp : part <+: g.log)
    (ho : ∃ g', s.reign t = some g' ∧ other <+: g'.log) : part <+: other ∨ other <+: part := by
  obtain ⟨g', hg', hp'⟩ := ho
  obtain rfl := Option.some.inj (hg.symm.trans hg')
  exact List.prefix_or_prefix_of_prefix hp hp'

/-- What a node newly holds is a part of its log. -/
theorem Move.holds_cases (h : Move M i s s') (hb : Ballots M s) (hh : Histories s)
    (ha : Holdings M s) (hx : s'.Holds x t part) :
    s.Holds x t part ∨
      x = i ∧ t = s.term i ∧ s'.term i = s.term i ∧ part <+: s'.log i := by
  obtain ⟨g, hg, hp, hwho⟩ := hx
  rcases h.reign_cases hb hg with hold | ⟨rfl, hterm, rfl, e, _, hgrown, hprior⟩
  · rcases hwho with rfl | ⟨b, r, hm, hr, rfl, hlength⟩
    · exact .inl ⟨g, hold, hp, .inl rfl⟩
    · rcases h.acked_cases hm hr with hm |
        ⟨q, rfl, harrived, hcurrent, hterm, hfits, hspliced, hrterm, hacked⟩
      · exact .inl ⟨g, hold, hp, .inr ⟨b, r, hm, hr, rfl, hlength⟩⟩
      · -- it is confirmed in this very move
        obtain ⟨source, hq⟩ := hh.shipped b x q harrived
        obtain ⟨whole, hw, hpw, _⟩ := hq.issued
        rw [hrterm] at hold
        obtain rfl := Option.some.inj (hold.symm.trans hw)
        have hsource : part <+: source :=
          List.prefix_of_prefix_length_le hp hpw (by rw [← hq.length_eq, ← hacked]; exact hlength)
        refine .inr ⟨rfl, hrterm.trans hcurrent, hterm, ?_⟩
        rw [hspliced]
        rcases hq.splice hh (hh.sound x) hfits with ⟨hin, heq⟩ | ⟨_, heq⟩ <;> rw [heq]
        · exact hsource.trans hin
        · exact hsource
  · rcases hwho with rfl | ⟨b, r, hm, hr, hrterm, hlength⟩
    · exact .inr ⟨rfl, rfl, hterm, hp⟩
    · rcases h.acked_cases hm hr with hm | ⟨q, rfl, _⟩
      · -- what was confirmed before is a part of what the leader had before
        obtain ⟨g₀, hg₀, hle⟩ := ha.acked x b r hm hr
        rw [hrterm] at hg₀
        rcases hprior with hprior | ⟨hnone, _⟩
        · obtain rfl := Option.some.inj (hg₀.symm.trans hprior)
          refine .inl ⟨_, hprior, ?_, .inr ⟨b, r, hm, hr, hrterm, hlength⟩⟩
          refine List.prefix_of_prefix_length_le hp ?_ (Nat.le_trans hlength hle)
          exact ⟨[e], hgrown.symm⟩
        · rw [hnone] at hg₀
          exact absurd hg₀ (by simp)
      · exact .inr ⟨rfl, rfl, hterm, hp⟩

/-- A leader's log that replaces one with a part in it has the part too, unless
it is the log of a later leader that began without the part. -/
theorem Holds.prefix_or_missed (h : s.Holds x t part) (hissued : s.Issued a u other)
    (htu : t ≤ u) (hp : part <+: log) (hnot : ¬ other <+: log) :
    part <+: other ∨ s.Missed t (u + 1) part := by
  obtain ⟨g, hg, hpg, _⟩ := h
  obtain ⟨whole, hw, hpw, hopened⟩ := hissued
  by_cases hin : part <+: other
  · exact .inl hin
  · have hne : t ≠ u := by
      rintro rfl
      rcases prefix_total_of_reign hg hpg ⟨_, hw, hpw⟩ with h | h
      · exact hin h
      · exact hnot (h.trans hp)
    refine .inr ⟨u, _, Nat.lt_of_le_of_ne htu hne, Nat.lt_succ_self u, hw, fun hc => hin ?_⟩
    exact hc.trans ((List.prefix_append _ _).trans hopened)

/-! ## What a voter's check is worth -/

/-- A log that covers one that has `part` has it too, unless the leader of the
term in which it ends began without it. -/
theorem Histories.prefix_of_covered {q : VoteRequest} (hh : Histories s) (hd : s.Described c q)
    (hlog : s.Sound u log) (hp : part <+: log) (ht : part.lastTerm = t) (hpos : 0 < t)
    (htu : t < q.term)
    (hcovered : log.isCoveredBy q.lastIndex q.lastTerm = true) :
    part <+: s.stood c q.term ∨ s.Missed t q.term part := by
  have hle : t ≤ log.lastTerm := ht ▸ Log.lastTerm_mono hlog.ordered hp
  simp only [Log.isCoveredBy, hd.lastIndex, hd.lastTerm, Bool.or_eq_true, Bool.and_eq_true,
    decide_eq_true_eq, beq_iff_eq] at hcovered
  have hlast : log.lastTerm ≤ (s.stood c q.term).lastTerm := by
    rcases hcovered with hlt | ⟨heq, _⟩
    · exact Nat.le_of_lt hlt
    · exact Nat.le_of_eq heq.symm
  have hlogpos : 0 < log.lastTerm := Nat.lt_of_lt_of_le hpos hle
  have hstoodpos : 0 < (s.stood c q.term).lastTerm := Nat.lt_of_lt_of_le hlogpos hlast
  obtain ⟨g, hg, hpg⟩ := hd.rooted.exists_reign hstoodpos
  rcases hcovered with hlt | ⟨heq, hlength⟩
  · -- the candidate's log ends in a later reign, behind all that opened it
    have hopen := (hh.reigned _ g hg).stood_prefix_of_lastTerm hpg rfl hstoodpos
    by_cases hin : part <+: s.stood g.winner (s.stood c q.term).lastTerm
    · exact .inl (hin.trans hopen)
    · have hend := Log.lastTerm_lt hd.earlier (Nat.zero_lt_of_lt htu)
      exact .inr ⟨_, g, Nat.lt_of_le_of_lt hle hlt, hend, hg, hin⟩
  · -- both logs end in one reign, and the candidate's is no shorter
    obtain ⟨g', hg', hpg'⟩ := hlog.rooted.exists_reign hlogpos
    rw [← heq, hg] at hg'
    obtain rfl := Option.some.inj hg'
    exact .inl (hp.trans (List.prefix_of_prefix_length_le hpg' hpg hlength))

/-- A voter's log ends before the term in which it votes for another. -/
theorem Described.lastTerm_lt_of_covered {q : VoteRequest} (hd : s.Described c q)
    (hpos : 0 < q.term) (hcovered : log.isCoveredBy q.lastIndex q.lastTerm = true) :
    log.lastTerm < q.term := by
  have hlast := Log.lastTerm_lt hd.earlier hpos
  simp only [Log.isCoveredBy, hd.lastTerm, Bool.or_eq_true, Bool.and_eq_true,
    decide_eq_true_eq, beq_iff_eq] at hcovered
  rcases hcovered with hlt | ⟨heq, _⟩
  · exact Nat.lt_trans hlt hlast
  · exact heq ▸ hlast

/-! ## Every move -/

theorem Move.acked {r : AppendReply} (h : Move M i s s') (hb : Ballots M s) (hh : Histories s)
    (ha : Holdings M s) (hm : ⟨x, b, .appendReply r⟩ ∈ s'.sent) (hr : r.success = true) :
    ∃ g, s'.reign r.term = some g ∧ r.acked ≤ g.log.length := by
  have hx := h.extends hb
  have hnow : ∃ g, s.reign r.term = some g ∧ r.acked ≤ g.log.length := by
    rcases h.acked_cases hm hr with hm | ⟨q, _, harrived, _, _, _, _, hrterm, hacked⟩
    · exact ha.acked x b r hm hr
    · obtain ⟨source, hq⟩ := hh.shipped b i q harrived
      obtain ⟨whole, hw, hp, _⟩ := hq.issued
      exact ⟨_, hrterm ▸ hw, by rw [hacked, hq.length_eq]; exact hp.length_le⟩
  obtain ⟨g, hg, hle⟩ := hnow
  obtain ⟨log', hg', hp⟩ := hx.reign _ g hg
  exact ⟨_, hg', Nat.le_trans hle hp.length_le⟩

/-- What a node had is still in its log, or the log has been brought in line
with a leader that began without it. -/
theorem Move.kept (h : Move M i s s') (hb : Ballots M s) (hh : Histories s)
    (ha : Holdings M s) (hx : s'.Holds x t part) :
    t ≤ s'.term x ∧ (part <+: s'.log x ∨ s'.Missed t ((s'.log x).lastTerm + 1) part) := by
  have hext := h.extends hb
  rcases h.holds_cases hb hh ha hx with hold | ⟨rfl, rfl, hterm, hp⟩
  · obtain ⟨hle, hkept⟩ := ha.kept x t part hold
    refine ⟨Nat.le_trans hle (hext.term x), ?_⟩
    by_cases hxi : x = i
    · subst hxi
      rcases h.log_cases with hsame | ⟨_, _, e, he, hgrown⟩ |
        ⟨a, q, harrived, hcurrent, _, hfits, hspliced⟩
      · rw [hsame]
        exact hkept.imp id fun hmiss => hmiss.of_extends hext hb
      · rw [hgrown, Log.lastTerm_concat, he]
        refine hkept.imp (fun hp => hp.trans (List.prefix_append _ _)) fun hmiss => ?_
        exact (hmiss.of_sound (hh.sound x)).of_extends hext hb
      · obtain ⟨source, hq⟩ := hh.shipped a x q harrived
        rw [hspliced]
        rcases hq.splice hh (hh.sound x) hfits with ⟨_, heq⟩ | ⟨hnot, heq⟩ <;> rw [heq]
        · exact hkept.imp id fun hmiss => hmiss.of_extends hext hb
        · -- the leader's log replaces the node's, whichever of them has the part
          have hnow : part <+: source ∨ s.Missed t (q.term + 1) part := by
            rcases hkept with hp | hmiss
            · exact hold.prefix_or_missed hq.issued (hcurrent ▸ hle) hp hnot
            · exact .inr (hcurrent ▸ hmiss.of_sound (hh.sound x))
          rw [hh.issued_lastTerm hq.issued]
          exact hnow.imp id fun hmiss => hmiss.of_extends hext hb
    · rw [h.log_of_ne hxi]
      exact hkept.imp id fun hmiss => hmiss.of_extends hext hb
  · exact ⟨Nat.le_of_eq hterm.symm, .inl hp⟩

/-- Who holds a part of a leader's log votes, in a later term, for candidates
that have it. -/
theorem Move.voted (h : Move M i s s') (hi : i ∈ M.ids) (hb : Ballots M s) (hh : Histories s)
    (ha : Holdings M s) (hx : s'.Holds x t part) (ht : part.lastTerm = t) (htu : t < u)
    (hc : s'.ballot x u = some c) : part <+: s'.stood c u ∨ s'.Missed t u part := by
  have hext := h.extends hb
  rcases h.holds_cases hb hh ha hx with hold | ⟨rfl, rfl, hterm, _⟩
  · rcases h.ballot_cases hc with hballot | ⟨rfl, rfl, rfl, hstood⟩ |
      ⟨a, q, rfl, harrived, rfl, rfl, hcurrent, hcovered⟩
    · rw [hext.stood c u (hb.asked x u c hballot)]
      exact (ha.voted x t u part c hold ht htu hballot).imp id fun hm => hm.of_extends hext hb
    · -- a candidate stands with the log that it has
      rw [hstood]
      refine (ha.kept c t part hold).2.imp id fun hmiss => ?_
      exact (hmiss.of_sound (hh.sound c)).of_extends hext hb
    · obtain ⟨hcandidate, hasked⟩ := hb.request a x q harrived
      have hd := hh.described a x q harrived
      rw [hcandidate, hext.stood a q.term hasked]
      have hpos : 0 < t := by
        obtain ⟨g, hg, _⟩ := hold
        exact (hb.crowned t g hg).1
      have hnow : part <+: s.stood a q.term ∨ s.Missed t q.term part := by
        rcases (ha.kept x t part hold).2 with hp | hmiss
        · exact hh.prefix_of_covered hd (hh.sound x) hp ht hpos htu hcovered
        · refine .inr (hmiss.mono (Nat.succ_le_of_lt ?_))
          exact hd.lastTerm_lt_of_covered (Nat.zero_lt_of_lt htu) hcovered
      exact hnow.imp id fun hm => hm.of_extends hext hb
  · -- nobody votes ahead of time
    rw [(h.ballots hi hb).later x u (hterm ▸ htu)] at hc
    exact absurd hc (by simp)

theorem Move.rows {rows : List (NodeId × LogIndex)} (h : Move M i s s') (hb : Ballots M s)
    (ha : Holdings M s) (hl : s'.standing j = .leading rows) :
    (rows.map (·.1)).Nodup ∧ ∀ row ∈ rows, row.1 ∈ M.ids ∧ row.1 ≠ j ∧
      (row.2 = 0 ∨ s'.Acked row.1 (s'.term j) row.2) := by
  have hext := h.extends hb
  have hkept : ∀ {k rows}, s.standing k = .leading rows → (rows.map (·.1)).Nodup ∧
      ∀ row ∈ rows, row.1 ∈ M.ids ∧ row.1 ≠ k ∧
        (row.2 = 0 ∨ s'.Acked row.1 (s.term k) row.2) := fun hold => by
    obtain ⟨hnodup, hrows⟩ := ha.rows _ _ hold
    refine ⟨hnodup, fun row hrow => ?_⟩
    obtain ⟨hmem, hne, hacked⟩ := hrows row hrow
    exact ⟨hmem, hne, hacked.imp id fun h => h.of_extends hext⟩
  by_cases hj : j = i
  · subst hj
    obtain ⟨hterm, ⟨hnodup, hfresh⟩ | hold | ⟨earlier, peer, r, hold, hm, hr, hrterm, rfl⟩⟩ :=
      h.leading_cases hl
    · refine ⟨hnodup, fun row hrow => ?_⟩
      obtain ⟨hmem, hne, hzero⟩ := hfresh row hrow
      exact ⟨hmem, hne, .inl hzero⟩
    · rw [hterm]
      exact hkept hold
    · rw [hterm]
      obtain ⟨hnodup, hrows⟩ := hkept hold
      refine ⟨?_, fun row hrow => ?_⟩
      · rw [List.map_map]
        refine (List.map_congr_left fun row _ => ?_) ▸ hnodup
        simp only [Function.comp_apply]
        split <;> rfl
      · obtain ⟨old, hmem, rfl⟩ := List.mem_map.mp hrow
        obtain ⟨hin, hne, hacked⟩ := hrows old hmem
        split
        · next hpeer =>
            refine ⟨hin, hne, ?_⟩
            -- the row now holds the larger of two confirmed lengths
            have hnew : s'.Acked old.1 (s.term j) r.acked :=
              ⟨j, r, hext.sent (hpeer ▸ hm), hr, hrterm, Nat.le_refl _⟩
            rcases Nat.le_total old.2 r.acked with hle | hle
            · rw [Nat.max_eq_right hle]
              exact .inr hnew
            · rw [Nat.max_eq_left hle]
              exact hacked
        · exact ⟨hin, hne, hacked⟩
  · rw [h.standing_of_ne hj] at hl
    rw [h.term_of_ne hj]
    exact hkept hl

theorem Move.holdings (h : Move M i s s') (hi : i ∈ M.ids) (hb : Ballots M s)
    (hh : Histories s) (ha : Holdings M s) : Holdings M s' where
  acked _ _ _ hm hr := h.acked hb hh ha hm hr
  kept _ _ _ hx := h.kept hb hh ha hx
  voted _ _ _ _ _ hx ht htu hc := h.voted hi hb hh ha hx ht htu hc
  rows _ _ hl := h.rows hb ha hl

/-! ## What a majority holds -/

/-- A majority holds a part of the log of the leader of term `t`, up to an
entry of that term. -/
def Chosen (M : Roster) (s : Chronicle) (t : Nat) (part : Log) : Prop :=
  part.lastTerm = t ∧ ∃ Q, M.Majority Q ∧ ∀ x ∈ Q, s.Holds x t part

theorem Chosen.of_extends (h : s.Chosen M t part) (hx : s.Extends s') : s'.Chosen M t part := by
  obtain ⟨ht, Q, hQ, hholds⟩ := h
  exact ⟨ht, Q, hQ, fun x hxQ => (hholds x hxQ).of_extends hx⟩

theorem Chosen.exists_reign (h : s.Chosen M t part) :
    ∃ g, s.reign t = some g ∧ part <+: g.log := by
  obtain ⟨_, Q, hQ, hholds⟩ := h
  obtain ⟨x, hx⟩ := hQ.exists_mem
  obtain ⟨g, hg, hp, _⟩ := hholds x hx
  exact ⟨g, hg, hp⟩

/-- Every later leader begins with what a majority holds: one of its voters
does, and of the leaders in between none began without it. -/
theorem Holdings.chosen_prefix (ha : Holdings M s) (hb : Ballots M s) (h : s.Chosen M t part) :
    ∀ u g, t < u → s.reign u = some g → part <+: s.stood g.winner u := by
  intro u
  -- on the later term, since a voter's exception is a leader before it
  induction u using Nat.strongRecOn with
  | ind u ih =>
      intro g htu hg
      obtain ⟨ht, Q, hQ, hholds⟩ := h
      obtain ⟨V, hV, hballots⟩ := hb.won u g hg
      obtain ⟨x, hxQ, hxV⟩ := hQ.exists_common hV
      rcases ha.voted x t u part _ (hholds x hxQ) ht htu (hballots x hxV) with hp | hmiss
      · exact hp
      · obtain ⟨w, g', htw, hwu, hg', hnot⟩ := hmiss
        exact absurd (ih w hwu g' htw hg') hnot

/-- Of two parts that majorities hold one is a part of the other. -/
theorem Holdings.chosen_total (ha : Holdings M s) (hb : Ballots M s) (hh : Histories s)
    (h : s.Chosen M t part) (ho : s.Chosen M u other) : part <+: other ∨ other <+: part := by
  obtain ⟨g, hg, hp⟩ := h.exists_reign
  obtain ⟨g', hg', hp'⟩ := ho.exists_reign
  rcases Nat.lt_trichotomy t u with hlt | heq | hlt
  · refine List.prefix_or_prefix_of_prefix ?_ hp'
    exact (ha.chosen_prefix hb h u g' hlt hg').trans (hh.reigned u g' hg').stood_prefix_log
  · exact prefix_total_of_reign hg hp ⟨g', heq ▸ hg', hp'⟩
  · refine List.prefix_or_prefix_of_prefix hp ?_
    exact (ha.chosen_prefix hb ho t g hlt hg).trans (hh.reigned t g hg).stood_prefix_log

end Quorum.Chronicle
