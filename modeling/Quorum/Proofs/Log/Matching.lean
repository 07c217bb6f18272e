import Quorum.Log.Basic

/-!
# Matching logs

Two logs *match* when entries of one term at one index have the same entries
in front of them, operations included. A follower whose log matches the
leader's takes over the leader's entries by keeping its own log if that goes
on behind the leader's, and by becoming a copy of the leader's log if not
(`splice_of_matches`). Nothing else can come out of the merge, although it
compares nothing but terms.

Prefixes `p ++ [e]` stand for positions: they name the entry and everything
in front of it at once.
-/

namespace Quorum.Log

variable {a b log source : Log} {p q : Log} {e f : LogEntry} {i prev : Nat} {t : Term}

/-! ## Entries by index -/

@[simp] theorem entry?_zero (log : Log) : log.entry? 0 = none := rfl

@[simp] theorem entry?_succ (log : Log) (i : Nat) : log.entry? (i + 1) = log[i]? := by
  unfold entry?
  simp

theorem entry?_of_prefix (h : a <+: b) (hi : i ≤ a.length) : a.entry? i = b.entry? i := by
  cases i with
  | zero => rfl
  | succ i =>
      rw [entry?_succ, entry?_succ, List.prefix_iff_eq_take.mp h, List.getElem?_take_of_lt hi]

/-- The entry at an index closes the part of the log that ends there. -/
theorem take_of_entry (h : log.entry? i = some e) : log.take i = log.take (i - 1) ++ [e] := by
  cases i with
  | zero => simp at h
  | succ i =>
      rw [entry?_succ] at h
      show log.take (i + 1) = log.take i ++ [e]
      rw [List.take_add_one, h]
      rfl

theorem concat_prefix_of_entry (h : log.entry? i = some e) : log.take (i - 1) ++ [e] <+: log := by
  rw [← take_of_entry h]
  exact List.take_prefix i log

theorem le_length_of_entry (h : log.entry? i = some e) : i ≤ log.length := by
  cases i with
  | zero => exact Nat.zero_le _
  | succ i =>
      rw [entry?_succ] at h
      exact (List.getElem?_eq_some_iff.mp h).1

theorem pos_of_entry (h : log.entry? i = some e) : 0 < i := by
  cases i with
  | zero => simp at h
  | succ i => exact Nat.succ_pos i

theorem exists_entry? (hpos : 0 < i) (hi : i ≤ log.length) : ∃ e, log.entry? i = some e := by
  obtain ⟨k, rfl⟩ := Nat.exists_eq_succ_of_ne_zero (Nat.ne_of_gt hpos)
  exact ⟨_, (entry?_succ log k).trans (List.getElem?_eq_getElem hi)⟩

/-- Past its end a log has term zero, so a nonzero term shows an entry. -/
theorem exists_entry?_of_termAt (h : log.termAt i = t) (ht : t ≠ 0) :
    ∃ e, log.entry? i = some e ∧ e.term = t := by
  unfold termAt at h
  cases he : log.entry? i with
  | none => rw [he] at h; exact absurd h.symm ht
  | some e => rw [he] at h; exact ⟨e, rfl, h⟩

/-- A log that begins like another agrees with it up to there. -/
theorem take_eq_of_take_prefix (h : a.take i <+: b) (hi : i ≤ a.length) :
    b.take i = a.take i := by
  rw [List.prefix_iff_eq_take, List.length_take_of_le hi] at h
  exact h.symm

theorem entry?_of_take_prefix {n : Nat} (h : a.take n <+: b) (hn : n ≤ a.length) (hi : i ≤ n) :
    b.entry? i = a.entry? i := by
  have hlength : i ≤ (a.take n).length := by rwa [List.length_take_of_le hn]
  rw [← entry?_of_prefix h hlength, entry?_of_prefix (List.take_prefix n a) hlength]

/-! ## The last term -/

@[simp] theorem lastTerm_nil : lastTerm [] = 0 := rfl

@[simp] theorem lastTerm_concat (p : Log) (e : LogEntry) : lastTerm (p ++ [e]) = e.term := by
  simp [lastTerm]

/-- The last term of a log is the term of its last entry. -/
theorem exists_concat_of_lastTerm (h : log.lastTerm = t) (ht : t ≠ 0) :
    ∃ p e, log = p ++ [e] ∧ e.term = t := by
  rcases List.eq_nil_or_concat log with rfl | ⟨p, e, rfl⟩
  · exact absurd h.symm ht
  · exact ⟨p, e, by simp, by simpa using h⟩

theorem lastTerm_take_of_termAt (h : log.termAt i = t) (ht : t ≠ 0) :
    lastTerm (log.take i) = t := by
  obtain ⟨e, he, het⟩ := exists_entry?_of_termAt h ht
  rw [take_of_entry he, lastTerm_concat, het]

/-- What bounds every term of a log bounds its last one. -/
theorem lastTerm_le (h : ∀ e ∈ log, e.term ≤ t) : log.lastTerm ≤ t := by
  rcases List.eq_nil_or_concat log with rfl | ⟨p, e, rfl⟩
  · exact Nat.zero_le t
  · simpa using h e (by simp)

/-- A log of terms before `t` ends before it. -/
theorem lastTerm_lt (h : ∀ e ∈ log, e.term < t) (ht : 0 < t) : log.lastTerm < t := by
  rcases List.eq_nil_or_concat log with rfl | ⟨p, e, rfl⟩
  · exact ht
  · simpa using h e (by simp)

/-- In a log with ascending terms no entry is later than the last one. -/
theorem term_le_lastTerm (ho : log.Pairwise (·.term ≤ ·.term)) (he : e ∈ log) :
    e.term ≤ log.lastTerm := by
  rcases List.eq_nil_or_concat log with rfl | ⟨p, f, rfl⟩
  · simp at he
  · simp only [List.concat_eq_append] at ho he ⊢
    rw [lastTerm_concat]
    rcases List.mem_append.mp he with he | he
    · exact (List.pairwise_append.mp ho).2.2 e he f (by simp)
    · exact Nat.le_of_eq (congrArg LogEntry.term (List.mem_singleton.mp he))

/-- In a log with ascending terms a longer part ends no earlier. -/
theorem lastTerm_mono (ho : b.Pairwise (·.term ≤ ·.term)) (h : a <+: b) :
    a.lastTerm ≤ b.lastTerm := by
  rcases List.eq_nil_or_concat a with rfl | ⟨p, e, rfl⟩
  · exact Nat.zero_le _
  · simp only [List.concat_eq_append] at h ⊢
    rw [lastTerm_concat]
    exact term_le_lastTerm ho (h.subset (by simp))

theorem pairwise_concat {t : Term} (ho : log.Pairwise (·.term ≤ ·.term))
    (hb : ∀ e ∈ log, e.term ≤ t) (he : e.term = t) :
    (log ++ [e]).Pairwise (·.term ≤ ·.term) := by
  rw [List.pairwise_append]
  refine ⟨ho, List.pairwise_singleton _ e, fun x hx y hy => ?_⟩
  rw [List.mem_singleton.mp hy, he]
  exact hb x hx

/-- Where terms never fall, the first entry of a term stands behind as many
entries as are of earlier terms. -/
theorem countP_lt_of_prefix (ho : log.Pairwise (·.term ≤ ·.term)) (h : p ++ [e] <+: log)
    (hb : ∀ x ∈ p, x.term < e.term) : log.countP (·.term < e.term) = p.length := by
  obtain ⟨rest, rfl⟩ := h
  have hrest : ∀ x ∈ rest, e.term ≤ x.term := fun x hx =>
    (List.pairwise_append.mp ho).2.2 e (by simp) x hx
  have hnone : rest.countP (·.term < e.term) = 0 :=
    List.countP_eq_zero.mpr fun x hx => by simpa using hrest x hx
  rw [List.countP_append, List.countP_append, hnone,
    List.countP_eq_length.mpr fun x hx => decide_eq_true (hb x hx)]
  simp

theorem entry?_concat (p : Log) (e : LogEntry) :
    Log.entry? (p ++ [e]) (p.length + 1) = some e := by
  rw [entry?_succ]
  exact List.getElem?_concat_length

/-! ## Matching -/

/-- Entries of one term at one index have the same entries in front of
them. -/
def Matches (a b : Log) : Prop :=
  ∀ p e q f, p ++ [e] <+: a → q ++ [f] <+: b → p.length = q.length → e.term = f.term →
    p ++ [e] = q ++ [f]

theorem Matches.take_eq (h : Matches a b) (ha : a.entry? i = some e) (hb : b.entry? i = some f)
    (ht : e.term = f.term) : a.take i = b.take i := by
  have hla := le_length_of_entry ha
  have hlb := le_length_of_entry hb
  rw [take_of_entry ha, take_of_entry hb]
  refine h _ _ _ _ (concat_prefix_of_entry ha) (concat_prefix_of_entry hb) ?_ ht
  rw [List.length_take_of_le (by omega), List.length_take_of_le (by omega)]

/-- A log that holds the entry a leader's request builds on agrees with the
leader's log up to it. -/
theorem take_eq_of_holds (h : Matches log source) (hs : prev ≤ source.length)
    (hh : log.holds prev (source.termAt prev)) : log.take prev = source.take prev := by
  simp only [holds, Bool.and_eq_true, Bool.or_eq_true, beq_iff_eq, decide_eq_true_eq] at hh
  obtain ⟨hl, h0 | ht⟩ := hh
  · rw [h0, List.take_zero, List.take_zero]
  · cases prev with
    | zero => rfl
    | succ k =>
        have hk : log.entry? (k + 1) = some log[k] := by simp
        have hk' : source.entry? (k + 1) = some source[k] := by simp
        have hterm : log[k].term = source[k].term := by
          rw [termAt, termAt, hk, hk'] at ht
          exact ht
        exact h.take_eq hk hk' hterm

/-- Grafting matching entries keeps the old suffix if it goes on behind the
new one, and makes it a copy of the new one otherwise. -/
theorem graft_of_matches (p : Log) : ∀ old new : Log, Matches (p ++ old) (p ++ new) →
    (new <+: old ∧ graft old new = old) ∨ (¬ new <+: old ∧ graft old new = new)
  | _, [], _ => .inl ⟨List.nil_prefix, by unfold graft; rfl⟩
  | [], e :: new, _ => .inr ⟨by simp, rfl⟩
  | o :: old, e :: new, h => by
      unfold graft
      by_cases ht : o.term = e.term
      · -- the terms agree, so the entries do, and the rest decides
        have hoe : p ++ [o] = p ++ [e] :=
          h p o p e ⟨old, by simp⟩ ⟨new, by simp⟩ rfl ht
        have heq : o = e := by simpa using hoe
        subst heq
        have hrest : Matches ((p ++ [o]) ++ old) ((p ++ [o]) ++ new) := by simpa using h
        rw [if_pos rfl]
        rcases graft_of_matches (p ++ [o]) old new hrest with ⟨hp, hg⟩ | ⟨hp, hg⟩
        · exact .inl ⟨by simpa using hp, by rw [hg]⟩
        · exact .inr ⟨by simpa using hp, by rw [hg]⟩
      · refine .inr ⟨fun hp => ht ?_, if_neg ht⟩
        rw [(List.cons_prefix_cons.mp hp).1]

/-- Taking over a leader's entries leaves a matching log as it is if the
leader's log is a part of it, and makes it the leader's log otherwise. -/
theorem splice_of_matches (h : Matches log source) (hs : prev ≤ source.length)
    (hh : log.holds prev (source.termAt prev)) :
    (source <+: log ∧ log.splice prev (source.drop prev) = log) ∨
      (¬ source <+: log ∧ log.splice prev (source.drop prev) = source) := by
  have htake := take_eq_of_holds h hs hh
  have hlog : log.take prev ++ log.drop prev = log := List.take_append_drop prev log
  have hsource : log.take prev ++ source.drop prev = source := by
    rw [htake, List.take_append_drop]
  have hm : Matches (log.take prev ++ log.drop prev) (log.take prev ++ source.drop prev) := by
    rw [hlog, hsource]
    exact h
  have hiff : source.drop prev <+: log.drop prev ↔ source <+: log := by
    rw [← List.prefix_append_right_inj (log.take prev), hlog, hsource]
  unfold splice
  rcases graft_of_matches _ _ _ hm with ⟨hp, hg⟩ | ⟨hp, hg⟩
  · exact .inl ⟨hiff.mp hp, by rw [hg, hlog]⟩
  · exact .inr ⟨fun hc => hp (hiff.mpr hc), by rw [hg, hsource]⟩

end Quorum.Log
