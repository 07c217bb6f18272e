import Quorum.Proofs.Log.Lag

/-!
# Merging logs

Entries that a leader sends *part* from a log at the first place where the
terms differ or one of the two ends (`PartAt`). There is one such place, and it
decides what comes out of the merge: the old log if the entries end there, and
otherwise what stands in front of that place, with the entries from there on
behind it (`splice_of_partAt`).
-/

namespace Quorum.Log

variable {log old new : Log} {entries : List LogEntry} {o e : LogEntry} {prev k k' : Nat}

/-- The first place, counted from zero, at which the terms of two lists of
entries differ or one of the lists ends. -/
structure PartAt (old new : List LogEntry) (k : Nat) : Prop where
  before : ∀ i < k, ∃ o e, old[i]? = some o ∧ new[i]? = some e ∧ o.term = e.term
  here : ∀ o e, old[k]? = some o → new[k]? = some e → o.term ≠ e.term

namespace PartAt

/-- There is no other first place. -/
theorem unique (h : PartAt old new k) (h' : PartAt old new k') : k = k' := by
  rcases Nat.lt_trichotomy k k' with hlt | heq | hlt
  · obtain ⟨o, e, ho, he, hterm⟩ := h'.before k hlt
    exact absurd hterm (h.here o e ho he)
  · exact heq
  · obtain ⟨o, e, ho, he, hterm⟩ := h.before k' hlt
    exact absurd hterm (h'.here o e ho he)

/-- Two lists part at once where there is nothing to compare, or where the
first terms differ. -/
theorem zero (h : ∀ o e, old.head? = some o → new.head? = some e → o.term ≠ e.term) :
    PartAt old new 0 :=
  ⟨fun _ hi => absurd hi (Nat.not_lt_zero _), fun o e ho he =>
    h o e (List.head?_eq_getElem? ▸ ho) (List.head?_eq_getElem? ▸ he)⟩

theorem succ (hterm : o.term = e.term) (h : PartAt old new k) :
    PartAt (o :: old) (e :: new) (k + 1) := by
  refine ⟨fun i hi => ?_, h.here⟩
  cases i with
  | zero => exact ⟨o, e, rfl, rfl, hterm⟩
  | succ i => exact h.before i (Nat.lt_of_succ_lt_succ hi)

end PartAt

/-- Grafting goes on to the place where the two lists part. -/
theorem exists_partAt (old new : Log) :
    ∃ k, PartAt old new k ∧
      graft old new = if k = new.length then old else old.take k ++ new.drop k := by
  -- grafting stops where the lists part, and counts one more for each entry it keeps
  fun_induction graft old new with
  | case1 old => exact ⟨0, .zero fun _ _ _ he => absurd he.symm (Option.some_ne_none _), rfl⟩
  | case2 new hne =>
      refine ⟨0, .zero fun _ _ ho => absurd ho.symm (Option.some_ne_none _), ?_⟩
      rw [if_neg fun heq => hne (List.length_eq_zero_iff.mp heq.symm)]
      rfl
  | case3 o old e new hterm ih =>
      obtain ⟨k, hpart, hgraft⟩ := ih
      refine ⟨k + 1, hpart.succ hterm, ?_⟩
      rw [hgraft, List.length_cons]
      by_cases hk : k = new.length
      · rw [if_pos hk, if_pos (congrArg (· + 1) hk)]
      · rw [if_neg hk, if_neg fun heq => hk (Nat.succ.inj heq)]
        rfl
  | case4 o old e new hterm =>
      refine ⟨0, .zero fun o' e' ho he => ?_, rfl⟩
      obtain rfl := Option.some.inj ho
      obtain rfl := Option.some.inj he
      exact hterm

/-- What the merge comes to once it is known where the entries part from the
suffix that they are for. -/
theorem splice_of_partAt (h : PartAt (log.drop prev) entries k) :
    log.splice prev entries =
      if k = entries.length then log else log.take (prev + k) ++ entries.drop k := by
  obtain ⟨k', hpart, hgraft⟩ := exists_partAt (log.drop prev) entries
  obtain rfl := h.unique hpart
  rw [splice, hgraft]
  split
  · exact List.take_append_drop prev log
  · rw [List.take_add, List.append_assoc]

/-- Zero, or the index of an entry of the given term. -/
theorem holds_iff {i : LogIndex} {term : Term} :
    log.holds i term = true ↔
      i ≤ log.length ∧ (i = 0 ∨ ∃ e, log.entry? i = some e ∧ e.term = term) := by
  rw [holds, Bool.and_eq_true, decide_eq_true_eq, Bool.or_eq_true, beq_iff_eq, beq_iff_eq]
  refine and_congr_right fun hlength => ?_
  by_cases hzero : i = 0
  · exact iff_of_true (.inl hzero) (.inl hzero)
  refine or_congr_right ?_
  obtain ⟨e, he⟩ := exists_entry? (Nat.pos_of_ne_zero hzero) hlength
  rw [termAt, he]
  constructor
  · exact fun hterm => ⟨e, rfl, hterm⟩
  · rintro ⟨e', he', hterm⟩
    exact Option.some.inj he' ▸ hterm

theorem le_length_splice (hprev : prev ≤ log.length) :
    prev + entries.length ≤ (log.splice prev entries).length := by
  rw [splice, List.length_append, List.length_take_of_le hprev]
  exact Nat.add_le_add_left (length_le_graft _ _) prev

/-! ## One entry after the other -/

theorem drop_of_getElem? (h : log[prev]? = some o) : log.drop prev = o :: log.drop (prev + 1) := by
  obtain ⟨hlt, rfl⟩ := List.getElem?_eq_some_iff.mp h
  exact List.drop_eq_getElem_cons hlt

/-- An entry of the term that stands in its place changes nothing. -/
theorem splice_cons_of_eq (h : log[prev]? = some o) (hterm : o.term = e.term) :
    log.splice prev (e :: entries) = log.splice (prev + 1) entries := by
  rw [splice, splice, drop_of_getElem? h, graft, if_pos hterm, List.take_add_one, h,
    List.append_assoc]
  rfl

/-- An entry of another term takes its place, and the old suffix goes. -/
theorem splice_cons_of_ne (h : log[prev]? = some o) (hterm : o.term ≠ e.term) :
    log.splice prev (e :: entries) = log.take prev ++ e :: entries := by
  rw [splice, drop_of_getElem? h, graft, if_neg hterm]

/-- Behind the end of the log all entries are appended. -/
theorem splice_length (log : Log) (entries : List LogEntry) :
    log.splice log.length entries = log ++ entries := by
  rw [splice, List.take_length, List.drop_length]
  cases entries <;> rfl

end Quorum.Log
