import Quorum.Proofs.Handlers.Rewriting
import Quorum.Proofs.Log.Merging

/-!
# Taking entries in

A follower goes over the entries of a request one by one, while the log grows
and shrinks under it (`Node.placeAll`). What comes of it is the merge of the
two logs, and the record is marked for saving exactly if the log has changed
(`takeEntriesBehind_eq_placeAll`). A whole request marks it exactly if anything
in it has changed (`Marked`).
-/

namespace Quorum.Node

variable {n n' m : Node} {q : AppendRequest} {entries : List LogEntry}
  {old entry : LogEntry} {i prev : LogIndex} {term : Term} {now : Instant} {draw : Nat}

/-! ## Entry by entry -/

/-- The node after one entry of a request, which stands behind `i` others. An
entry of the same term is already there. One of another term goes, with all that
is behind it. -/
def place (n : Node) (i : LogIndex) (entry : LogEntry) : Node :=
  match n.record.log[i]? with
  | some old =>
    if old.term = entry.term then n
    else n.withRecord { n.record with log := n.record.log.take i ++ [entry] }
  | none => n.append entry

/-- The node after all entries of a request, the first of which stands behind
`i` others. -/
def placeAll (n : Node) (i : LogIndex) : List LogEntry → Node
  | [] => n
  | entry :: rest => (n.place i entry).placeAll (i + 1) rest

theorem place_of_eq (h : n.record.log[i]? = some old) (hterm : old.term = entry.term) :
    n.place i entry = n := by
  rw [place, h]
  exact if_pos hterm

theorem place_of_ne (h : n.record.log[i]? = some old) (hterm : old.term ≠ entry.term) :
    n.place i entry =
      n.withRecord { n.record with log := n.record.log.take i ++ [entry] } := by
  rw [place, h]
  exact if_neg hterm

theorem place_length (n : Node) (entry : LogEntry) :
    n.place n.record.log.length entry = n.append entry := by
  rw [place, List.getElem?_eq_none (Nat.le_refl _)]

theorem takeEntriesBehind_of_ne (h : n.record.log.splice prev entries ≠ n.record.log) :
    n.takeEntriesBehind prev entries =
      n.withRecord { n.record with log := n.record.log.splice prev entries } := if_neg h

/-- Whoever has changed the log already only appends. -/
theorem takeEntriesBehind_length {log : Log} (hprev : log.length = prev) :
    (n.withRecord { n.record with log }).takeEntriesBehind prev entries =
      n.withRecord { n.record with log := log ++ entries } := by
  subst hprev
  rw [← Log.splice_length]
  unfold takeEntriesBehind
  simp only []
  split
  · next hsame =>
      have hsame : log.splice log.length entries = log := hsame
      rw [hsame]
  · rfl

/-- The first entry, and then the others. -/
theorem takeEntriesBehind_cons (h : i ≤ n.record.log.length) :
    n.takeEntriesBehind i (entry :: entries) =
        (n.place i entry).takeEntriesBehind (i + 1) entries ∧
      i + 1 ≤ (n.place i entry).record.log.length := by
  cases hold : n.record.log[i]? with
  | some old =>
      by_cases hterm : old.term = entry.term
      · rw [place_of_eq hold hterm, takeEntriesBehind, takeEntriesBehind,
          Log.splice_cons_of_eq hold hterm]
        exact ⟨rfl, (List.getElem?_eq_some_iff.mp hold).1⟩
      · have htake : (n.record.log.take i ++ [entry]).length = i + 1 := by
          rw [List.length_append, List.length_take_of_le h]
          rfl
        -- the merge has an entry of another term in that place
        have hne : n.record.log.splice i (entry :: entries) ≠ n.record.log := by
          intro hsame
          rw [Log.splice_cons_of_ne hold hterm] at hsame
          rw [← hsame, List.getElem?_append_right (List.length_take_le _ _),
            List.length_take_of_le h, Nat.sub_self] at hold
          exact hterm (congrArg LogEntry.term (Option.some.inj hold)).symm
        rw [place_of_ne hold hterm, takeEntriesBehind_of_ne hne, takeEntriesBehind_length htake,
          Log.splice_cons_of_ne hold hterm, List.append_assoc]
        exact ⟨rfl, Nat.le_of_eq htake.symm⟩
  | none =>
      obtain rfl : i = n.record.log.length := Nat.le_antisymm h (List.getElem?_eq_none_iff.mp hold)
      have hlength : (n.record.log ++ [entry]).length = n.record.log.length + 1 :=
        List.length_append
      have hne : n.record.log.splice n.record.log.length (entry :: entries) ≠ n.record.log := by
        rw [Log.splice_length]
        intro hsame
        simpa using congrArg List.length hsame
      rw [place_length, append, takeEntriesBehind_of_ne hne, takeEntriesBehind_length hlength,
        Log.splice_length, List.append_assoc]
      exact ⟨rfl, Nat.le_of_eq hlength.symm⟩

/-- Going over the entries one by one is the merge. -/
theorem takeEntriesBehind_eq_placeAll (h : i ≤ n.record.log.length) :
    n.takeEntriesBehind i entries = n.placeAll i entries := by
  induction entries generalizing n i with
  | nil =>
      have hsame : n.record.log.splice i [] = n.record.log := by
        rw [Log.splice, Log.graft.eq_1, List.take_append_drop]
      exact if_pos hsame
  | cons entry rest ih =>
      obtain ⟨hcons, hnext⟩ := takeEntriesBehind_cons h
      rw [hcons, ih hnext]
      rfl

/-! ## What is marked for saving -/

/-- The record is marked for saving if it was or if it has changed, and not
otherwise. -/
def Marked (n n' : Node) : Prop :=
  n'.unsaved = true ↔ n.unsaved = true ∨ n'.record ≠ n.record

theorem Marked.of_same (hunsaved : n'.unsaved = n.unsaved) (hrecord : n'.record = n.record) :
    n.Marked n' := by
  rw [Marked, hunsaved, hrecord]
  simp

theorem Marked.withRecord {record : Record} (h : record ≠ n.record) :
    n.Marked (n.withRecord record) :=
  iff_of_true rfl (.inr h)

/-- A later change must not take an earlier one back. -/
theorem Marked.trans (h : n.Marked m) (h' : m.Marked n')
    (lasting : n'.record = n.record → m.record = n.record) : n.Marked n' := by
  refine Iff.trans h' ⟨fun hset => ?_, fun hset => ?_⟩
  · rcases hset with hset | hset
    · exact (h.mp hset).imp_right (mt lasting)
    · exact .inr fun hsame => hset (hsame.trans (lasting hsame).symm)
  · rcases hset with hset | hset
    · exact .inl (h.mpr (.inl hset))
    · by_cases hm : m.record = n.record
      · exact .inr (hm ▸ hset)
      · exact .inl (h.mpr (.inr hm))

theorem takeEntriesBehind_marked (n : Node) (prev : LogIndex) (entries : List LogEntry) :
    n.Marked (n.takeEntriesBehind prev entries) := by
  unfold takeEntriesBehind
  simp only []
  split
  · exact .of_same rfl rfl
  · next hne => exact .withRecord fun hsame => hne (congrArg Record.log hsame)

theorem commitTo_marked (n : Node) (length : LogIndex) : n.Marked (n.commitTo length) := by
  unfold commitTo
  split
  · next more =>
      exact .withRecord fun hsame => Nat.ne_of_gt more (congrArg Record.commitLength hsame)
  · exact .of_same rfl rfl

theorem accepting_marked (n : Node) (q : AppendRequest) : n.Marked (n.accepting q) := by
  refine (takeEntriesBehind_marked n _ _).trans (commitTo_marked _ _) fun hsame => ?_
  -- committing leaves the log, so the log was the same before
  have hsame : (n.accepting q).record = n.record := hsame
  rw [accepting_record] at hsame
  have hlog : n.record.log.splice q.prevIndex q.entries = n.record.log := congrArg Record.log hsame
  rw [takeEntriesBehind_record, hlog]

theorem asFollower_unsaved (n : Node) (leader? : Option NodeId) (now : Instant) (draw : Nat) :
    (n.asFollower leader? now draw).unsaved = n.unsaved := by
  unfold asFollower
  split <;> rfl

theorem inTerm_marked (newer : n.record.currentTerm < term) :
    n.Marked (n.inTerm term now draw) := by
  have hchanged : n.Marked (n.withRecord { n.record with currentTerm := term, votedFor := none }) :=
    .withRecord fun hsame => Nat.ne_of_gt newer (congrArg Record.currentTerm hsame)
  rw [Marked, inTerm, asFollower_unsaved, asFollower_record]
  exact hchanged

end Quorum.Node
