import Quorum.Proofs.Log.Matching
import Quorum.Proofs.Protocol.Extension

/-!
# Histories

Where the entries of a log come from: each was put there, behind the very
same entries, by the winner of its term. All logs therefore match, whatever
a follower has merged, and a follower that takes over what a leader has sent
keeps its own log or gets the leader's (`Excerpt.splice`).
-/

namespace Quorum.Chronicle

variable {M : Roster} {i a b : NodeId} {s s' : Chronicle} {log other part : Log} {t u : Nat}
  {e : LogEntry} {g : Reign} {q : AppendRequest}

/-! ## Logs that come from reigns -/

/-- Every entry of a log stands, behind the same entries, in the reign of its
term. -/
def Rooted (s : Chronicle) (log : Log) : Prop :=
  ∀ p e, p ++ [e] <+: log → ∃ g, s.reign e.term = some g ∧ p ++ [e] <+: g.log

/-- There is one reign for each term, so two such logs match. -/
theorem Rooted.matches (h : s.Rooted log) (ho : s.Rooted other) : Log.Matches log other := by
  intro p e q f hp hq hlength hterm
  obtain ⟨g, hg, hpg⟩ := h p e hp
  obtain ⟨g', hg', hqg⟩ := ho q f hq
  rw [← hterm, hg] at hg'
  obtain rfl := Option.some.inj hg'
  refine (List.prefix_of_prefix_length_le hpg hqg ?_).eq_of_length ?_ <;>
    simp [hlength]

/-- A log that is not empty is a part of the reign of its last term. -/
theorem Rooted.exists_reign (h : s.Rooted log) (hpos : 0 < log.lastTerm) :
    ∃ g, s.reign log.lastTerm = some g ∧ log <+: g.log := by
  obtain ⟨p, e, hlog, he⟩ := Log.exists_concat_of_lastTerm (rfl : log.lastTerm = _)
    (Nat.ne_of_gt hpos)
  obtain ⟨g, hg, hp⟩ := h p e (hlog ▸ List.prefix_rfl)
  exact ⟨g, he ▸ hg, hlog ▸ hp⟩

/-- What the log of a node in term `t` is like. -/
structure Sound (s : Chronicle) (t : Nat) (log : Log) : Prop where
  rooted : s.Rooted log
  ordered : log.Pairwise (·.term ≤ ·.term)
  bounded : ∀ e ∈ log, e.term ≤ t

theorem Sound.nil (s : Chronicle) (t : Nat) : s.Sound t [] where
  rooted p e h := by simp at h
  ordered := List.Pairwise.nil
  bounded e h := by simp at h

theorem Sound.of_prefix (h : s.Sound t log) (hp : part <+: log) : s.Sound t part where
  rooted p e hpe := h.rooted p e (hpe.trans hp)
  ordered := h.ordered.sublist hp.sublist
  bounded e he := h.bounded e (hp.subset he)

theorem Sound.mono (h : s.Sound t log) (htu : t ≤ u) : s.Sound u log where
  rooted := h.rooted
  ordered := h.ordered
  bounded e he := Nat.le_trans (h.bounded e he) htu

theorem Sound.of_extends (h : s.Sound t log) (hx : s.Extends s') : s'.Sound t log where
  rooted p e hp := by
    obtain ⟨g, hg, hpg⟩ := h.rooted p e hp
    obtain ⟨log', hg', hp'⟩ := hx.reign _ g hg
    exact ⟨_, hg', hpg.trans hp'⟩
  ordered := h.ordered
  bounded := h.bounded

/-- A leader puts an entry of its term behind its log. -/
theorem Sound.concat (h : s.Sound t log) (he : e.term = t)
    (hreign : s.reign t = some ⟨i, log ++ [e]⟩) : s.Sound t (log ++ [e]) where
  rooted p f hpf := by
    rcases List.prefix_concat_iff.mp hpf with heq | hpf
    · obtain ⟨rfl, hf⟩ := List.append_inj' heq rfl
      obtain rfl : f = e := by simpa using hf
      exact ⟨_, he ▸ hreign, List.prefix_rfl⟩
    · exact h.rooted p f hpf
  ordered := Log.pairwise_concat h.ordered h.bounded he
  bounded f hf := by
    rcases List.mem_append.mp hf with hf | hf
    · exact h.bounded f hf
    · rw [List.mem_singleton.mp hf, he]

/-! ## What a winner begins with, and what it sends -/

/-- The log of a reign opens with what its winner stood with, all of earlier
terms, and an entry of its own. -/
structure Reigned (s : Chronicle) (t : Nat) (g : Reign) : Prop where
  sound : s.Sound t g.log
  opened : s.stood g.winner t ++ [.noOp t] <+: g.log
  earlier : ∀ e ∈ s.stood g.winner t, e.term < t

theorem Reigned.stood_prefix_log (h : s.Reigned t g) : s.stood g.winner t <+: g.log :=
  (List.prefix_append _ _).trans h.opened

/-- A part of a reign that ends in its term has in it all that the winner stood
with. -/
theorem Reigned.stood_prefix_of_lastTerm (h : s.Reigned t g) (hp : log <+: g.log)
    (hlast : log.lastTerm = t) (hpos : 0 < t) : s.stood g.winner t <+: log := by
  rcases List.prefix_or_prefix_of_prefix h.stood_prefix_log hp with hin | hpart
  · exact hin
  · -- what the winner stood with holds no entry of the term
    have hlt : log.lastTerm < t := Log.lastTerm_lt (fun e he => h.earlier e (hpart.subset he)) hpos
    exact absurd hlast (Nat.ne_of_lt hlt)

/-- A log that node `a` has had as the leader of term `t`. -/
def Issued (s : Chronicle) (a : NodeId) (t : Nat) (log : Log) : Prop :=
  ∃ whole, s.reign t = some ⟨a, whole⟩ ∧ log <+: whole ∧ s.stood a t ++ [.noOp t] <+: log

/-- A request holds the end of a log that its sender has had as a leader. -/
structure Excerpt (s : Chronicle) (a : NodeId) (q : AppendRequest) (log : Log) : Prop where
  issued : s.Issued a q.term log
  prev_le : q.prevIndex ≤ log.length
  prevTerm : q.prevTerm = log.termAt q.prevIndex
  entries : q.entries = log.drop q.prevIndex

/-- A vote request describes the log with which its sender stands. -/
structure Described (s : Chronicle) (a : NodeId) (q : VoteRequest) : Prop where
  lastIndex : q.lastIndex = (s.stood a q.term).length
  lastTerm : q.lastTerm = (s.stood a q.term).lastTerm
  rooted : s.Rooted (s.stood a q.term)
  earlier : ∀ e ∈ s.stood a q.term, e.term < q.term

/-- The logs of a chronicle have the histories that they should. -/
structure Histories (s : Chronicle) : Prop where
  sound : ∀ i, s.Sound (s.term i) (s.log i)
  reigned : ∀ (t : Nat) g, s.reign t = some g → s.Reigned t g
  standing : ∀ i votes, s.standing i = .counting votes →
    s.stood i (s.term i) = s.log i ∧ ∀ e ∈ s.log i, e.term < s.term i
  described : ∀ a b q, ⟨a, b, .voteRequest q⟩ ∈ s.sent → s.Described a q
  shipped : ∀ a b q, ⟨a, b, .appendRequest q⟩ ∈ s.sent → ∃ log, s.Excerpt a q log

theorem Histories.start : Histories start := by
  constructor
  case sound => exact fun i => .nil _ _
  all_goals intros; simp_all [Chronicle.start]

theorem Histories.issued_sound (hh : Histories s) (h : s.Issued a t log) : s.Sound t log := by
  obtain ⟨whole, hg, hp, _⟩ := h
  exact (hh.reigned t _ hg).sound.of_prefix hp

/-- The log of a leader ends in its own term. -/
theorem Histories.issued_lastTerm (hh : Histories s) (h : s.Issued a t log) :
    log.lastTerm = t := by
  have hsound := hh.issued_sound h
  obtain ⟨whole, hg, hp, hopened⟩ := h
  refine Nat.le_antisymm (Log.lastTerm_le hsound.bounded) ?_
  simpa [LogEntry.noOp] using Log.lastTerm_mono hsound.ordered hopened

/-- What a request makes of a log that it fits: nothing new if the log holds
what the leader had, and the leader's log if not. -/
theorem Excerpt.splice (hq : s.Excerpt a q part) (hh : Histories s) (hlog : s.Sound t log)
    (hfits : log.holds q.prevIndex q.prevTerm = true) :
    (part <+: log ∧ log.splice q.prevIndex q.entries = log) ∨
      (¬ part <+: log ∧ log.splice q.prevIndex q.entries = part) := by
  rw [hq.entries]
  rw [hq.prevTerm] at hfits
  exact Log.splice_of_matches (hlog.rooted.matches (hh.issued_sound hq.issued).rooted)
    hq.prev_le hfits

/-- A leader sends the end of the log that it has. -/
theorem Excerpt.of_maySay (hb : Ballots M s) (hh : Histories s)
    (hsay : s.MaySay a (.appendRequest q)) : s.Excerpt a q (s.log a) := by
  obtain ⟨⟨acked, hlead⟩, hterm, _, hprev, hprevTerm, hentries, _⟩ := hsay
  have hreign := hb.leads a acked hlead
  have hissued : s.Issued a q.term (s.log a) :=
    ⟨s.log a, hterm ▸ hreign, List.prefix_rfl, hterm ▸ (hh.reigned _ _ hreign).opened⟩
  exact ⟨hissued, hprev, hprevTerm, hentries⟩

theorem Excerpt.length_eq (hq : s.Excerpt a q part) :
    q.prevIndex + q.entries.length = part.length := by
  rw [hq.entries, List.length_drop]
  exact Nat.add_sub_cancel' hq.prev_le

/-! ## What lasts -/

theorem Reigned.of_extends (h : s.Reigned t g) (hx : s.Extends s')
    (ht : t ≤ s.term g.winner) : s'.Reigned t g where
  sound := h.sound.of_extends hx
  opened := by rw [hx.stood _ _ ht]; exact h.opened
  earlier := by rw [hx.stood _ _ ht]; exact h.earlier

theorem Issued.of_extends (h : s.Issued a t log) (hx : s.Extends s') (hb : Ballots M s) :
    s'.Issued a t log := by
  obtain ⟨whole, hg, hp, hopened⟩ := h
  obtain ⟨whole', hg', hp'⟩ := hx.reign t _ hg
  refine ⟨whole', hg', hp.trans hp', ?_⟩
  rw [hx.stood a t (hb.crowned t _ hg).2.1]
  exact hopened

theorem Excerpt.of_extends (h : s.Excerpt a q log) (hx : s.Extends s') (hb : Ballots M s) :
    s'.Excerpt a q log :=
  ⟨h.issued.of_extends hx hb, h.prev_le, h.prevTerm, h.entries⟩

theorem Described.of_extends {q : VoteRequest} (h : s.Described a q) (hx : s.Extends s')
    (hterm : q.term ≤ s.term a) : s'.Described a q := by
  have hstood := hx.stood a q.term hterm
  constructor
  case lastIndex => rw [hstood]; exact h.lastIndex
  case lastTerm => rw [hstood]; exact h.lastTerm
  case rooted =>
    rw [hstood]
    intro p e hp
    obtain ⟨g, hg, hpg⟩ := h.rooted p e hp
    obtain ⟨log', hg', hp'⟩ := hx.reign _ g hg
    exact ⟨_, hg', hpg.trans hp'⟩
  case earlier => rw [hstood]; exact h.earlier

/-! ## Every move -/

theorem Move.sound (h : Move M i s s') (hb : Ballots M s) (hh : Histories s) (j : NodeId) :
    s'.Sound (s'.term j) (s'.log j) := by
  have hx := h.extends hb
  by_cases hj : j = i
  · subst hj
    have hold := (hh.sound j).of_extends hx
    rcases h.log_cases with hsame | ⟨hterm, hreign, e, he, hgrown⟩ |
      ⟨a, q, harrived, hcurrent, hterm, hfits, hspliced⟩
    · rw [hsame]
      exact hold.mono (hx.term j)
    · rw [hterm, hgrown]
      exact hold.concat he (hgrown ▸ hreign)
    · -- the merged log is the old one or the leader's, and both are sound
      obtain ⟨part, hq⟩ := hh.shipped a j q harrived
      rw [hterm, hspliced]
      rcases hq.splice hh (hh.sound j) hfits with ⟨_, heq⟩ | ⟨_, heq⟩ <;> rw [heq]
      · exact hold
      · exact (hcurrent ▸ hh.issued_sound hq.issued).of_extends hx
  · rw [h.term_of_ne hj, h.log_of_ne hj]
    exact (hh.sound j).of_extends hx

theorem Move.reigned (h : Move M i s s') (hb : Ballots M s) (hh : Histories s)
    (hg : s'.reign t = some g) : s'.Reigned t g := by
  have hx := h.extends hb
  rcases h.reign_cases hb hg with hg | ⟨rfl, hterm, rfl, e, he, hgrown, hold | ⟨_, rfl, votes, hv⟩⟩
  · exact (hh.reigned t g hg).of_extends hx (hb.crowned t g hg).2.1
  · -- the leader has put one more entry behind its log
    have hprior := (hh.reigned _ _ hold).of_extends hx (Nat.le_refl _)
    refine ⟨hterm ▸ h.sound hb hh i, hprior.opened.trans ?_, hprior.earlier⟩
    exact ⟨[e], hgrown.symm⟩
  · -- the term has just been won with the log that the candidate stood with
    obtain ⟨hstood, hearlier⟩ := hh.standing i votes hv
    have hkept := (hx.stood i _ (Nat.le_refl _)).trans hstood
    refine ⟨hterm ▸ h.sound hb hh i, ?_, ?_⟩
    · rw [hkept, ← hgrown]
    · rw [hkept]
      exact hearlier

theorem Move.standing {votes : List NodeId} {j : NodeId} (h : Move M i s s') (hb : Ballots M s)
    (hh : Histories s) (hv : s'.standing j = .counting votes) :
    s'.stood j (s'.term j) = s'.log j ∧ ∀ e ∈ s'.log j, e.term < s'.term j := by
  have hx := h.extends hb
  by_cases hj : j = i
  · subst hj
    obtain ⟨hlog, ⟨⟨earlier, hold⟩, hterm⟩ | ⟨hterm, hstood⟩⟩ := h.counting_cases hv
    · obtain ⟨hstood, hearlier⟩ := hh.standing j earlier hold
      rw [Chronicle.log, hlog, hterm, hx.stood j _ (Nat.le_refl _)]
      exact ⟨hstood, hearlier⟩
    · rw [Chronicle.log, hlog, hstood, hterm]
      exact ⟨rfl, fun e he => Nat.lt_succ_of_le ((hh.sound j).bounded e he)⟩
  · rw [h.standing_of_ne hj] at hv
    rw [h.term_of_ne hj, h.log_of_ne hj, hx.stood j _ (Nat.le_refl _)]
    exact hh.standing j votes hv

theorem Move.described {q : VoteRequest} (h : Move M i s s') (hb : Ballots M s)
    (hh : Histories s) (hm : ⟨a, b, .voteRequest q⟩ ∈ s'.sent) : s'.Described a q := by
  have hx := h.extends hb
  rcases h.request_cases hm (.inl ⟨q, rfl⟩) with hm |
    ⟨rfl, ⟨⟨votes, hv⟩, hterm, _, hindex, hlast⟩, _⟩
  · exact (hh.described a b q hm).of_extends hx (hb.request a b q hm).2
  · obtain ⟨hstood, hearlier⟩ := hh.standing a votes hv
    rw [← hterm] at hstood hearlier
    have hnow : s.Described a q :=
      ⟨by rw [hstood, hindex], by rw [hstood, hlast], by rw [hstood]; exact (hh.sound a).rooted,
        by rw [hstood]; exact hearlier⟩
    exact hnow.of_extends hx (Nat.le_of_eq hterm)

theorem Move.shipped (h : Move M i s s') (hb : Ballots M s) (hh : Histories s)
    (hm : ⟨a, b, .appendRequest q⟩ ∈ s'.sent) : ∃ log, s'.Excerpt a q log := by
  have hx := h.extends hb
  rcases h.request_cases hm (.inr ⟨q, rfl⟩) with hm | ⟨rfl, hsay, _⟩
  · obtain ⟨log, hq⟩ := hh.shipped a b q hm
    exact ⟨log, hq.of_extends hx hb⟩
  · exact ⟨s.log a, (Excerpt.of_maySay hb hh hsay).of_extends hx hb⟩

theorem Move.histories (h : Move M i s s') (hb : Ballots M s) (hh : Histories s) :
    Histories s' where
  sound := h.sound hb hh
  reigned _ _ hg := h.reigned hb hh hg
  standing _ _ hv := h.standing hb hh hv
  described _ _ _ hm := h.described hb hh hm
  shipped _ _ _ hm := h.shipped hb hh hm

end Quorum.Chronicle
