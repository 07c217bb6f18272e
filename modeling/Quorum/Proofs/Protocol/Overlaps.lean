import Quorum.Proofs.Protocol.Histories

/-!
# Overlapping requests

The requests of one term hold the ends of one log at different times, so of two
such logs one is a part of the other (`Excerpt.total`). A follower that has
taken over both has the longer one, or its own log if that has all of it, in
whatever order they came (`Excerpt.merge_comm`), and one that comes again brings
nothing new (`Excerpt.merge_again`).
-/

namespace Quorum

/-- What a request whose entries fit makes of a record. -/
def AppendRequest.merge (q : AppendRequest) (record : Record) : Record :=
  { record with
    log := record.log.splice q.prevIndex q.entries
    commitLength := max record.commitLength (min q.commit (q.prevIndex + q.entries.length)) }

/-- The log of a record has the entry that a request builds on. -/
def AppendRequest.Suits (q : AppendRequest) (record : Record) : Prop :=
  record.log.holds q.prevIndex q.prevTerm = true

namespace Chronicle

variable {s : Chronicle} {a b : NodeId} {q q' : AppendRequest} {log part part' : Log} {t : Nat}
  {record : Record}

/-- In one term there is one leader, whose log only grows. -/
theorem Excerpt.total (h : s.Excerpt a q part) (h' : s.Excerpt b q' part')
    (same : q.term = q'.term) : part <+: part' ∨ part' <+: part := by
  obtain ⟨whole, hreign, hp, _⟩ := h.issued
  obtain ⟨whole', hreign', hp', _⟩ := h'.issued
  rw [same, hreign'] at hreign
  obtain rfl : whole' = whole := congrArg Reign.log (Option.some.inj hreign)
  exact List.prefix_or_prefix_of_prefix hp hp'

section Logs

variable (hh : Histories s) (hq : s.Excerpt a q part) (hlog : s.Sound t log)
  (fits : log.holds q.prevIndex q.prevTerm = true)

include hh hq hlog fits

/-- Whoever has taken over a request has all that the leader had. -/
theorem Excerpt.prefix_splice : part <+: log.splice q.prevIndex q.entries := by
  rcases hq.splice hh hlog fits with ⟨hp, heq⟩ | ⟨_, heq⟩
  · rw [heq]
    exact hp
  · rw [heq]

theorem Excerpt.splice_sound (hterm : q.term = t) :
    s.Sound t (log.splice q.prevIndex q.entries) := by
  rcases hq.splice hh hlog fits with ⟨_, heq⟩ | ⟨_, heq⟩
  · rw [heq]
    exact hlog
  · rw [heq]
    exact hterm ▸ hh.issued_sound hq.issued

/-- A request brings nothing to a log that has all that the leader had. -/
theorem Excerpt.splice_of_prefix (hp : part <+: log) :
    log.splice q.prevIndex q.entries = log := by
  rcases hq.splice hh hlog fits with ⟨_, heq⟩ | ⟨hno, _⟩
  · exact heq
  · exact absurd hp hno

/-- A longer log of the same leader makes up for a shorter one before it. -/
theorem Excerpt.splice_longer (hq' : s.Excerpt b q' part') (hterm : q.term = t)
    (hlonger : part <+: part') (fits' : log.holds q'.prevIndex q'.prevTerm = true)
    (again :
      (log.splice q.prevIndex q.entries).holds q'.prevIndex q'.prevTerm = true) :
    (log.splice q.prevIndex q.entries).splice q'.prevIndex q'.entries =
      log.splice q'.prevIndex q'.entries := by
  have hsound := hq.splice_sound hh hlog fits hterm
  rcases hq'.splice hh hlog fits' with ⟨hp, heq⟩ | ⟨hno, heq⟩
  · rw [hq.splice_of_prefix hh hlog fits (hlonger.trans hp)]
  · rw [heq]
    rcases hq'.splice hh hsound again with ⟨hp, heq'⟩ | ⟨_, heq'⟩
    · -- the shorter one has replaced the log, so it is not shorter
      rw [heq']
      rcases hq.splice hh hlog fits with ⟨_, hkept⟩ | ⟨_, htaken⟩
      · exact absurd (hkept ▸ hp) hno
      · rw [htaken] at hp ⊢
        exact hlonger.eq_of_length_le hp.length_le
    · exact heq'

end Logs

/-- Taking over a request twice is taking it over once. -/
theorem Excerpt.merge_again (hq : s.Excerpt a q part) (hh : Histories s)
    (hlog : s.Sound record.currentTerm record.log) (hterm : q.term = record.currentTerm)
    (suits : q.Suits record) (again : q.Suits (q.merge record)) :
    q.merge (q.merge record) = q.merge record := by
  have hsame : (q.merge record).log.splice q.prevIndex q.entries = (q.merge record).log :=
    hq.splice_of_prefix hh (hq.splice_sound hh hlog suits hterm) again
      (hq.prefix_splice hh hlog suits)
  have hcommit : max (q.merge record).commitLength
      (min q.commit (q.prevIndex + q.entries.length)) = (q.merge record).commitLength :=
    Nat.max_eq_left (Nat.le_max_right _ _)
  rw [AppendRequest.merge, hsame, hcommit]

/-- A shorter log changes nothing, be it before or behind a longer one. -/
theorem Excerpt.splice_comm (hq : s.Excerpt a q part) (hq' : s.Excerpt b q' part')
    (hh : Histories s) (hlog : s.Sound t log) (hterm : q.term = t) (hterm' : q'.term = t)
    (hlonger : part <+: part') (fits : log.holds q.prevIndex q.prevTerm = true)
    (fits' : log.holds q'.prevIndex q'.prevTerm = true)
    (before : (log.splice q.prevIndex q.entries).holds q'.prevIndex q'.prevTerm = true)
    (behind : (log.splice q'.prevIndex q'.entries).holds q.prevIndex q.prevTerm = true) :
    (log.splice q.prevIndex q.entries).splice q'.prevIndex q'.entries =
      (log.splice q'.prevIndex q'.entries).splice q.prevIndex q.entries := by
  have hbefore := hq.splice_longer hh hlog fits hq' hterm hlonger fits' before
  have hbehind := hq.splice_of_prefix hh (hq'.splice_sound hh hlog fits' hterm') behind
    (hlonger.trans (hq'.prefix_splice hh hlog fits'))
  rw [hbefore, hbehind]

/-- Of two requests of one term that fit in either order, the order does not
matter. -/
theorem Excerpt.merge_comm (hq : s.Excerpt a q part) (hq' : s.Excerpt b q' part')
    (hh : Histories s) (hlog : s.Sound record.currentTerm record.log)
    (hterm : q.term = record.currentTerm) (hterm' : q'.term = record.currentTerm)
    (suits : q.Suits record) (suits' : q'.Suits record) (before : q'.Suits (q.merge record))
    (behind : q.Suits (q'.merge record)) :
    q'.merge (q.merge record) = q.merge (q'.merge record) := by
  have hsplice :
      (record.log.splice q.prevIndex q.entries).splice q'.prevIndex q'.entries =
        (record.log.splice q'.prevIndex q'.entries).splice q.prevIndex q.entries := by
    rcases hq.total hq' (hterm.trans hterm'.symm) with hlonger | hlonger
    · exact hq.splice_comm hq' hh hlog hterm hterm' hlonger suits suits' before behind
    · exact (hq'.splice_comm hq hh hlog hterm' hterm hlonger suits' suits behind before).symm
  simp only [AppendRequest.merge, hsplice, Nat.max_right_comm]

end Chronicle

end Quorum
