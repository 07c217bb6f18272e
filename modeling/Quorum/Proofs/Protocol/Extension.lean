import Quorum.Proofs.Protocol.Ballots

/-!
# What moves add

A chronicle takes nothing back: every move extends it (`Move.extends`). What
a move can add is said here once for each kind of thing, so that nothing
later has to look at the moves themselves again.
-/

namespace Quorum.Chronicle

variable {M : Roster} {i j a b : NodeId} {s s' : Chronicle} {record : Record}
  {standing : Standing} {log : Log} {t : Nat}

/-- Everything that a chronicle remembers is still there in a later one: what
was sent, who voted for whom, who won which term, and all that a winner's
log has held in its term. -/
structure Extends (s s' : Chronicle) : Prop where
  term : ∀ i, s.term i ≤ s'.term i
  sent : s.sent ⊆ s'.sent
  ballot : ∀ i t c, s.ballot i t = some c → s'.ballot i t = some c
  stood : ∀ i (t : Nat), t ≤ s.term i → s'.stood i t = s.stood i t
  reign : ∀ t g, s.reign t = some g → ∃ log, s'.reign t = some ⟨g.winner, log⟩ ∧ g.log <+: log

theorem Extends.refl (s : Chronicle) : s.Extends s :=
  ⟨fun _ => Nat.le_refl _, fun _ h => h, fun _ _ _ h => h, fun _ _ _ => rfl,
    fun _ g h => ⟨g.log, h, List.prefix_rfl⟩⟩

theorem Extends.trans {s₁ s₂ s₃ : Chronicle} (h₁ : s₁.Extends s₂) (h₂ : s₂.Extends s₃) :
    s₁.Extends s₃ where
  term i := Nat.le_trans (h₁.term i) (h₂.term i)
  sent m hm := h₂.sent (h₁.sent hm)
  ballot i t c hc := h₂.ballot i t c (h₁.ballot i t c hc)
  stood i t ht := (h₂.stood i t (Nat.le_trans ht (h₁.term i))).trans (h₁.stood i t ht)
  reign t g hg := by
    obtain ⟨log₂, hg₂, hp₂⟩ := h₁.reign t g hg
    obtain ⟨log₃, hg₃, hp₃⟩ := h₂.reign t _ hg₂
    exact ⟨log₃, hg₃, hp₂.trans hp₃⟩

/-- A change of one node in which its term does not fall. -/
theorem Extends.put (s : Chronicle) (hterm : s.term i ≤ record.currentTerm) :
    s.Extends (s.put i record standing) where
  term j := by
    by_cases hj : j = i
    · subst hj; simpa using hterm
    · simp [hj]
  sent _ hm := hm
  ballot _ _ _ hc := hc
  stood _ _ _ := rfl
  reign _ g hg := ⟨g.log, hg, List.prefix_rfl⟩

theorem Extends.say (s : Chronicle) (sender receiver : NodeId) (message : Message) :
    s.Extends (s.say sender receiver message) :=
  ⟨fun _ => Nat.le_refl _, fun _ hm => List.mem_append_left _ hm, fun _ _ _ hc => hc,
    fun _ _ _ => rfl, fun _ g hg => ⟨g.log, hg, List.prefix_rfl⟩⟩

theorem Extends.cast {t : Term} {c : NodeId} (s : Chronicle)
    (hfree : ∀ d, s.ballot i t = some d → c = d) : s.Extends (s.cast i t c) where
  term _ := Nat.le_refl _
  sent _ hm := hm
  ballot j u d hd := by
    rw [cast_ballot]
    split
    · next hju => rw [hfree d (hju.1 ▸ hju.2 ▸ hd)]
    · exact hd
  stood _ _ _ := rfl
  reign _ g hg := ⟨g.log, hg, List.prefix_rfl⟩

theorem Extends.crown {t : Term} (s : Chronicle)
    (hgrows : ∀ g, s.reign t = some g → g.winner = i ∧ g.log <+: log) :
    s.Extends (s.crown t i log) where
  term _ := Nat.le_refl _
  sent _ hm := hm
  ballot _ _ _ hc := hc
  stood _ _ _ := rfl
  reign u g hg := by
    rw [crown_reign]
    split
    · next hu =>
        obtain ⟨hwinner, hlog⟩ := hgrows g (hu ▸ hg)
        exact ⟨log, by rw [hwinner], hlog⟩
    · exact ⟨g.log, hg, List.prefix_rfl⟩

/-! ## Every move -/

/-- No move takes anything back. -/
theorem Move.extends (h : Move M i s s') (hb : Ballots M s) : s.Extends s' := by
  cases h with
  | adopt newer => exact .put s (Nat.le_of_lt newer)
  | retire => exact .put s (Nat.le_refl _)
  | stand =>
      have hfree := hb.later i (s.term i + 1) (Nat.lt_succ_self _)
      have hcast : s.Extends ((s.put i
          { (s.core i).record with currentTerm := s.term i + 1, votedFor := some i }
          (.counting [i])).cast i (s.term i + 1) i) := by
        refine (Extends.put s ?_).trans (.cast _ fun d hd => ?_)
        · exact Nat.le_succ _
        · rw [put_ballot, hfree] at hd
          exact absurd hd (by simp)
      -- the log is entered for a term that the node had not reached
      refine ⟨hcast.term, hcast.sent, hcast.ballot, fun j t ht => ?_, hcast.reign⟩
      rw [enter_stood, if_neg]
      · rfl
      · rintro ⟨rfl, rfl⟩
        exact Nat.not_succ_le_self _ ht
  | count counting arrived granted current => exact .put s (Nat.le_refl _)
  | win counting majority rows fresh =>
      refine (Extends.put s ?_).trans (.crown _ fun g hg => ?_)
      · exact Nat.le_refl _
      rw [put_reign, hb.reign_eq_none counting majority] at hg
      exact absurd hg (by simp)
  | append operation leading =>
      refine (Extends.put s ?_).trans (.crown _ fun g hg => ?_)
      · exact Nat.le_refl _
      rw [put_reign, hb.leads i _ leading] at hg
      obtain rfl := Option.some.inj hg
      exact ⟨rfl, List.prefix_append _ _⟩
  | note leading arrived success current => exact .put s (Nat.le_refl _)
  | advance leading further own held => exact .put s (Nat.le_refl _)
  | grant arrived current free covered =>
      refine ((Extends.put s ?_).trans (.cast _ fun d hd => ?_)).trans (.say ..)
      · exact Nat.le_refl _
      rw [put_ballot, hb.cast i] at hd
      rcases free with hnone | hsome
      · rw [hnone] at hd; exact absurd hd (by simp)
      · exact Option.some.inj (hsome.symm.trans hd)
  | accept arrived current fits =>
      refine (Extends.put s ?_).trans (.say ..)
      exact Nat.le_refl _
  | tell truthful => exact .say ..

/-- A move of one node leaves the others where they are. -/
theorem Move.core_of_ne (h : Move M i s s') (hj : j ≠ i) : s'.core j = s.core j := by
  cases h <;> simp [hj]

theorem Move.term_of_ne (h : Move M i s s') (hj : j ≠ i) : s'.term j = s.term j :=
  congrArg (·.record.currentTerm) (h.core_of_ne hj)

theorem Move.log_of_ne (h : Move M i s s') (hj : j ≠ i) : s'.log j = s.log j :=
  congrArg (·.record.log) (h.core_of_ne hj)

theorem Move.commit_of_ne (h : Move M i s s') (hj : j ≠ i) : s'.commit j = s.commit j :=
  congrArg (·.record.commitLength) (h.core_of_ne hj)

theorem Move.standing_of_ne (h : Move M i s s') (hj : j ≠ i) : s'.standing j = s.standing j :=
  congrArg (·.standing) (h.core_of_ne hj)

/-! ## What is new after a move -/

/-- A reign is new when its term has just been won, and it grows when its
leader appends an entry. -/
theorem Move.reign_cases {g : Reign} (h : Move M i s s') (hb : Ballots M s)
    (hg : s'.reign t = some g) :
    s.reign t = some g ∨
      t = s.term i ∧ s'.term i = s.term i ∧ g = ⟨i, s'.log i⟩ ∧
        ∃ e, e.term = t ∧ s'.log i = s.log i ++ [e] ∧
          (s.reign t = some ⟨i, s.log i⟩ ∨
            s.reign t = none ∧ e = .noOp t ∧ ∃ votes, s.standing i = .counting votes) := by
  cases h with
  | win counting majority rows fresh =>
      rw [crown_reign] at hg
      split at hg
      · next ht =>
          obtain rfl := Option.some.inj hg
          subst ht
          exact .inr ⟨rfl, by simp, by simp, .noOp (s.term i), rfl, by simp,
            .inr ⟨hb.reign_eq_none counting majority, rfl, _, counting⟩⟩
      · exact .inl hg
  | append operation leading =>
      rw [crown_reign] at hg
      split at hg
      · next ht =>
          obtain rfl := Option.some.inj hg
          subst ht
          exact .inr ⟨rfl, by simp, by simp, ⟨s.term i, operation⟩, rfl, by simp,
            .inl (hb.leads i _ leading)⟩
      · exact .inl hg
  | _ => exact .inl hg

/-- A log stays as it is, grows by an entry of its leader, or takes over what
a leader has sent. -/
theorem Move.log_cases (h : Move M i s s') :
    s'.log i = s.log i ∨
      (s'.term i = s.term i ∧ s'.reign (s.term i) = some ⟨i, s'.log i⟩ ∧
        ∃ e, e.term = s.term i ∧ s'.log i = s.log i ++ [e]) ∨
      ∃ a q, ⟨a, i, .appendRequest q⟩ ∈ s.sent ∧ q.term = s.term i ∧ s'.term i = s.term i ∧
        (s.log i).holds q.prevIndex q.prevTerm = true ∧
        s'.log i = (s.log i).splice q.prevIndex q.entries := by
  cases h with
  | win counting majority rows fresh =>
      exact .inr (.inl ⟨by simp, by simp, .noOp (s.term i), rfl, by simp⟩)
  | append operation leading =>
      exact .inr (.inl ⟨by simp, by simp, ⟨s.term i, operation⟩, rfl, by simp⟩)
  | accept arrived current fits =>
      exact .inr (.inr ⟨_, _, arrived, current, by simp, fits, by simp⟩)
  | _ => exact .inl (by simp)

/-- A candidate that counts has counted before, or has just stood for
election. -/
theorem Move.counting_cases {votes : List NodeId} (h : Move M i s s')
    (hv : s'.standing i = .counting votes) :
    (s'.core i).record.log = s.log i ∧
      ((∃ earlier, s.standing i = .counting earlier) ∧ s'.term i = s.term i ∨
        s'.term i = s.term i + 1 ∧ s'.stood i (s'.term i) = s.log i) := by
  cases h with
  | stand => exact ⟨by simp, .inr ⟨by simp, by simp⟩⟩
  | count counting arrived granted current => exact ⟨by simp, .inl ⟨⟨_, counting⟩, by simp⟩⟩
  | grant arrived current free covered =>
      exact ⟨by simp, .inl ⟨⟨votes, by simpa using hv⟩, by simp⟩⟩
  | tell truthful => exact ⟨by simp, .inl ⟨⟨votes, hv⟩, by simp⟩⟩
  | _ => simp at hv

/-- A vote is given by a candidate to itself, or to one that asked for it with
a log that covers the voter's. -/
theorem Move.ballot_cases {v c : NodeId} (h : Move M i s s') (hc : s'.ballot v t = some c) :
    s.ballot v t = some c ∨
      v = i ∧ c = i ∧ t = s.term i + 1 ∧ s'.stood i t = s.log i ∨
      ∃ a q, v = i ∧ ⟨a, i, .voteRequest q⟩ ∈ s.sent ∧ q.candidate = c ∧ q.term = t ∧
        t = s.term i ∧ (s.log i).isCoveredBy q.lastIndex q.lastTerm = true := by
  cases h with
  | stand =>
      rw [enter_ballot, cast_ballot] at hc
      split at hc
      · next hvt =>
          obtain ⟨rfl, rfl⟩ := hvt
          obtain rfl := Option.some.inj hc
          exact .inr (.inl ⟨rfl, rfl, rfl, by simp⟩)
      · exact .inl hc
  | grant arrived current free covered =>
      rw [say_ballot, cast_ballot] at hc
      split at hc
      · next hvt =>
          obtain ⟨rfl, rfl⟩ := hvt
          obtain rfl := Option.some.inj hc
          exact .inr (.inr ⟨_, _, rfl, arrived, rfl, current, rfl, covered⟩)
      · exact .inl hc
  | _ => exact .inl hc

/-- Requests report what their sender is. -/
theorem Move.request_cases {message : Message} (h : Move M i s s')
    (hm : ⟨a, b, message⟩ ∈ s'.sent)
    (hrequest : (∃ q, message = .voteRequest q) ∨ ∃ q, message = .appendRequest q) :
    ⟨a, b, message⟩ ∈ s.sent ∨ a = i ∧ s.MaySay i message ∧ s'.core i = s.core i := by
  cases h with
  | grant arrived current free covered =>
      rcases mem_say.mp hm with hm | hm
      · exact .inl hm
      · obtain ⟨rfl, rfl, rfl⟩ := InFlight.mk.inj hm
        simp at hrequest
  | accept arrived current fits =>
      rcases mem_say.mp hm with hm | hm
      · exact .inl hm
      · obtain ⟨rfl, rfl, rfl⟩ := InFlight.mk.inj hm
        simp at hrequest
  | tell truthful =>
      rcases mem_say.mp hm with hm | hm
      · exact .inl hm
      · obtain ⟨rfl, rfl, rfl⟩ := InFlight.mk.inj hm
        exact .inr ⟨rfl, truthful, rfl⟩
  | _ => exact .inl hm

/-- A node confirms what it has just taken over. -/
theorem Move.acked_cases {r : AppendReply} (h : Move M i s s')
    (hm : ⟨a, b, .appendReply r⟩ ∈ s'.sent) (hr : r.success = true) :
    ⟨a, b, .appendReply r⟩ ∈ s.sent ∨
      ∃ q, a = i ∧ ⟨b, i, .appendRequest q⟩ ∈ s.sent ∧ q.term = s.term i ∧
        s'.term i = s.term i ∧ (s.log i).holds q.prevIndex q.prevTerm = true ∧
        s'.log i = (s.log i).splice q.prevIndex q.entries ∧ r.term = q.term ∧
        r.acked = q.prevIndex + q.entries.length := by
  cases h with
  | grant arrived current free covered =>
      rcases mem_say.mp hm with hm | hm
      · exact .inl hm
      · exact absurd (InFlight.mk.inj hm).2.2 (by simp)
  | accept arrived current fits =>
      rcases mem_say.mp hm with hm | hm
      · exact .inl hm
      · obtain ⟨rfl, rfl, hreply⟩ := InFlight.mk.inj hm
        obtain rfl := Message.appendReply.inj hreply
        exact .inr ⟨_, rfl, arrived, current, by simp, fits, by simp, current.symm, rfl⟩
  | tell truthful =>
      rcases mem_say.mp hm with hm | hm
      · exact .inl hm
      · obtain ⟨rfl, rfl, rfl⟩ := InFlight.mk.inj hm
        exact absurd (hr.symm.trans truthful) (by simp)
  | _ => exact .inl hm

/-- The rows of a leader start at zero, and rise to what a peer confirms. -/
theorem Move.leading_cases {rows : List (NodeId × LogIndex)} (h : Move M i s s')
    (hl : s'.standing i = .leading rows) :
    s'.term i = s.term i ∧
      ((rows.map (·.1)).Nodup ∧ (∀ row ∈ rows, row.1 ∈ M.ids ∧ row.1 ≠ i ∧ row.2 = 0) ∨
        s.standing i = .leading rows ∨
        ∃ earlier peer r, s.standing i = .leading earlier ∧
          ⟨peer, i, .appendReply r⟩ ∈ s.sent ∧ r.success = true ∧ r.term = s.term i ∧
          rows = earlier.map fun row =>
            if row.1 = peer then (row.1, max row.2 r.acked) else row) := by
  cases h with
  | win counting majority nodup fresh =>
      obtain rfl : _ = rows := by simpa using hl
      exact ⟨by simp, .inl ⟨nodup, fresh⟩⟩
  | append operation leading =>
      obtain rfl : _ = rows := by simpa using hl
      exact ⟨by simp, .inr (.inl leading)⟩
  | note leading arrived success current =>
      obtain rfl : _ = rows := by simpa using hl
      exact ⟨by simp, .inr (.inr ⟨_, _, _, leading, arrived, success, current, rfl⟩)⟩
  | advance leading further own held =>
      obtain rfl : _ = rows := by simpa using hl
      exact ⟨by simp, .inr (.inl leading)⟩
  | grant arrived current free covered =>
      exact ⟨by simp, .inr (.inl (by simpa using hl))⟩
  | tell truthful => exact ⟨rfl, .inr (.inl hl)⟩
  | _ => simp at hl

/-- A commit length stays, or a leader moves it to what a quorum holds, or a
follower to what it is told. -/
theorem Move.commit_cases (h : Move M i s s') :
    s'.commit i = s.commit i ∧ s.log i <+: s'.log i ∨
      (∃ rows, s.standing i = .leading rows ∧ s.commit i < s'.commit i ∧
        (s.log i).termAt (s'.commit i) = s.term i ∧
        M.quorum ≤ ((s.log i).length :: rows.map (·.2)).countP (s'.commit i ≤ ·) ∧
        s'.log i = s.log i ∧ s'.term i = s.term i) ∨
      ∃ a q, ⟨a, i, .appendRequest q⟩ ∈ s.sent ∧ q.term = s.term i ∧ s'.term i = s.term i ∧
        (s.log i).holds q.prevIndex q.prevTerm = true ∧
        s'.log i = (s.log i).splice q.prevIndex q.entries ∧
        s'.commit i = max (s.commit i) (min q.commit (q.prevIndex + q.entries.length)) := by
  cases h with
  | advance leading further own held =>
      exact .inr (.inl ⟨_, leading, by simpa using further, by simpa using own,
        by simpa using held, by simp, by simp⟩)
  | accept arrived current fits =>
      exact .inr (.inr ⟨_, _, arrived, current, by simp, fits, by simp, by simp⟩)
  | _ => exact .inl (by simp)

end Quorum.Chronicle
