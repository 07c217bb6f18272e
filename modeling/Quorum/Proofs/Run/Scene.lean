import Quorum.Proofs.Protocol.Commits
import Quorum.Proofs.Run.Persistence

/-!
# Runs and their chronicles

Every state of a run has a chronicle in which its nodes are where they are in
the run, and which the chronicle of every later state extends
(`Run.exists_scenes`). Crashes are moves too: a node that is down counts as
one that has given up whatever it was doing, and waking up is no move at all,
since all that was committed had been saved.
-/

namespace Quorum

namespace Chronicle

variable {M : Roster} {i : NodeId} {s s' s₁ s₂ s₃ : Chronicle}

/-- What every sequence of moves leads to. -/
structure Lawful (M : Roster) (s : Chronicle) : Prop where
  ballots : Ballots M s
  histories : Histories s
  holdings : Holdings M s
  commits : Commits M s

theorem Lawful.start (M : Roster) : Lawful M start :=
  ⟨.start M, .start, .start M, .start M⟩

/-- A chronicle of a later time: nothing is forgotten, and what was committed
stays. -/
structure Follows (s s' : Chronicle) : Prop where
  extends' : s.Extends s'
  keeps : ∀ i, s.Keeps s' i

/-- One of two chronicles follows the other. -/
def InLine (s s' : Chronicle) : Prop := s.Follows s' ∨ s'.Follows s

theorem Follows.refl (s : Chronicle) : s.Follows s :=
  ⟨.refl s, .refl s⟩

theorem Follows.trans (hl : s₁.Lawful M) (h₁ : s₁.Follows s₂) (h₂ : s₂.Follows s₃) :
    s₁.Follows s₃ :=
  ⟨h₁.extends'.trans h₂.extends', fun i => (h₁.keeps i).trans hl.commits (h₂.keeps i)⟩

theorem Moves.lawful (h : s.Moves M i s') (hi : i ∈ M.ids) (hl : s.Lawful M) :
    s'.Lawful M ∧ s.Follows s' := by
  induction h with
  | refl => exact ⟨hl, .refl s⟩
  | tail _ hmove ih =>
      obtain ⟨⟨hb, hh, ha, hc⟩, hf⟩ := ih
      refine ⟨⟨hmove.ballots hi hb, hmove.histories hb hh, hmove.holdings hi hb hh ha,
        hmove.commits hi hb hh ha hc⟩, ?_⟩
      exact hf.trans hl ⟨hmove.extends hb, hmove.keeps hb hh ha hc⟩

end Chronicle

/-! ## Stores -/

namespace Replica

variable {r : Replica MemoryStorage} {n n' : Node}

/-- What holds of a replica between events: its record is saved, it has applied
what is committed, and its store is the replay of that. -/
structure Current (r : Replica MemoryStorage) : Prop where
  stored : r.storage.record = r.node.record
  applied : r.node.lastApplied = r.node.record.commitLength
  replayed : r.store = Store.replay (r.node.record.log.take r.node.lastApplied)

theorem Current.applied_le (h : r.Current) :
    r.node.lastApplied ≤ r.node.record.commitLength :=
  Nat.le_of_eq h.applied

theorem applyAll_replay (a b : List LogEntry) :
    (Store.replay a).applyAll b = Store.replay (a ++ b) := by
  rw [Store.replay, Store.replay, Store.applyAll, Store.applyAll, Store.applyAll,
    List.foldl_append]

/-- Applying the committed entries brings the store from what was applied to
what is committed. -/
theorem Current.applyCommitted (hstored : r.storage.record = r.node.record)
    (happlied : r.node.lastApplied ≤ r.node.record.commitLength)
    (hcommit : r.node.record.commitLength ≤ r.node.record.log.length)
    (hstore : r.store = Store.replay (r.node.record.log.take r.node.lastApplied)) :
    r.applyCommitted.Current := by
  have hlength : r.node.lastApplied + r.node.unapplied.length = r.node.record.commitLength := by
    rw [Node.unapplied, List.length_take_of_le]
    · exact Nat.add_sub_cancel' happlied
    · rw [List.length_drop]
      exact Nat.sub_le_sub_right hcommit _
  have hnow : r.applyCommitted.node.lastApplied = r.node.record.commitLength := hlength
  constructor
  case stored => exact hstored
  case applied => exact hnow
  case replayed =>
    rw [applyCommitted_store, hnow, hstore, applyAll_replay, Node.unapplied, ← List.take_add,
      Nat.add_sub_cancel' happlied]
    rfl

/-- A record that is not marked for saving is the one that was saved. -/
theorem saved_record (h : r.storage.record = r.node.record) (hf : r.node.Frame n') :
    (if n'.unsaved then (⟨n'.record, r.storage.saves + 1⟩ : MemoryStorage)
      else r.storage).record = n'.record := by
  split
  · rfl
  · next hno => rw [h, (hf.saved (by simpa using hno)).2]

theorem Current.settle (h : r.Current) (hf : r.node.Frame n')
    (hold : r.node.record.commitLength ≤ r.node.record.log.length)
    (hle : r.node.record.commitLength ≤ n'.record.commitLength)
    (hkept : r.node.record.log.take r.node.record.commitLength <+: n'.record.log)
    (hcommit : n'.record.commitLength ≤ n'.record.log.length) : (r.settle n').Current := by
  have happlied : n'.record.log.take r.node.lastApplied =
      r.node.record.log.take r.node.lastApplied :=
    Log.take_eq_of_take_prefix ((List.take_prefix_take_left h.applied_le).trans hkept)
      (Nat.le_trans h.applied_le hold)
  rw [settle_eq]
  refine .applyCommitted ?_ ?_ hcommit ?_
  · exact saved_record h.stored hf
  · exact hf.lastApplied ▸ Nat.le_trans h.applied_le hle
  · show r.store = Store.replay (n'.record.log.take n'.lastApplied)
    rw [h.replayed, hf.lastApplied, happlied]

/-- A node that wakes up applies again all that is committed. -/
theorem Current.wake {storage : MemoryStorage} (hrecord : n.record = storage.record)
    (hcommit : n.record.commitLength ≤ n.record.log.length) (happlied : n.lastApplied = 0) :
    (Replica.wake n storage).Current := by
  have hnow : ({ node := n, store := .empty, storage, applied := [] } :
      Replica MemoryStorage).applyCommitted.Current := by
    refine .applyCommitted hrecord.symm ?_ hcommit ?_
    · exact happlied ▸ Nat.zero_le _
    · show Store.empty = Store.replay (n.record.log.take n.lastApplied)
      rw [happlied]
      rfl
  exact ⟨hnow.stored, hnow.applied, hnow.replayed⟩

end Replica

/-! ## Scenes -/

/-- A world and its chronicle. -/
structure Scene (M : Roster) (w : World) (s : Chronicle) : Prop where
  core : ∀ i, s.core i = (w.slot i).core
  sent : s.sent = w.sent
  kept : w.Kept M
  current : ∀ i r, w.slot i = .up r → r.Current
  lawful : s.Lawful M

namespace Scene

open World

variable {M : Roster} {i : NodeId} {w w' : World} {s s' : Chronicle} {slot : Slot}

theorem start (M : Roster) : Scene M World.start Chronicle.start where
  core _ := rfl
  sent := rfl
  kept := kept_start M
  current _ _ h := nomatch h
  lawful := .start M

theorem core_up {r : Replica MemoryStorage} (h : Scene M w s) (hr : w.slot i = .up r) :
    s.core i = r.node.core := by
  rw [h.core i, hr]
  rfl

theorem record (h : Scene M w s) (i : NodeId) : (s.core i).record = w.record i := by
  rw [h.core i, World.record]
  cases w.slot i <;> rfl

theorem log (h : Scene M w s) (i : NodeId) : s.log i = (w.record i).log :=
  congrArg Record.log (h.record i)

theorem commit (h : Scene M w s) (i : NodeId) : s.commit i = (w.record i).commitLength :=
  congrArg Record.commitLength (h.record i)

theorem term (h : Scene M w s) (i : NodeId) : s.term i = (w.record i).currentTerm :=
  congrArg Record.currentTerm (h.record i)

/-- Who leads has won its term, and its log is that of its reign. -/
theorem reign_of_leads {t : Term} (h : Scene M w s) (hl : w.Leads i t) :
    s.term i = t ∧ s.reign t = some ⟨i, s.log i⟩ := by
  obtain ⟨n, hn, hleader, rfl⟩ := hl
  obtain ⟨r, hr, rfl⟩ := exists_up_of_node? hn
  have hcore := h.core_up hr
  have hterm : s.term i = r.node.record.currentTerm := by rw [Chronicle.term, hcore]; rfl
  obtain ⟨l, hrole⟩ := Node.isLeader_iff.mp hleader
  have hstanding : s.standing i =
      .leading (l.progress.map fun row => (row.peer, row.acked)) := by
    rw [Chronicle.standing, hcore, Node.core, hrole]
    rfl
  exact ⟨hterm, hterm ▸ h.lawful.ballots.leads i _ hstanding⟩

/-- A change of one member, with its moves. -/
theorem put {out : List InFlight} (h : Scene M w s) (hl : s'.Lawful M)
    (hkept : (w.put i slot).Kept M)
    (hcore : s'.core = Function.update s.core i slot.core) (hsent : s'.sent = s.sent ++ out)
    (hcurrent : ∀ r, slot = .up r → r.Current) :
    Scene M { w.put i slot with sent := w.sent ++ out } s' where
  core j := by
    rw [hcore]
    by_cases hj : j = i
    · subst hj
      rw [Function.update_self, put_slot_self]
    · rw [Function.update_of_ne hj, put_slot_of_ne w slot hj]
      exact h.core j
  sent := by rw [hsent, h.sent]
  kept := hkept
  current :=
    (Function.forall_update_iff w.slot fun _ slot => ∀ r, slot = .up r → r.Current).mpr
      ⟨hcurrent, fun j _ => h.current j⟩
  lawful := hl

/-- A change of one member that sends nothing. -/
theorem put_silent (h : Scene M w s) (hl : s'.Lawful M) (hkept : (w.put i slot).Kept M)
    (hcore : s'.core = Function.update s.core i slot.core) (hsent : s'.sent = s.sent)
    (hcurrent : ∀ r, slot = .up r → r.Current) : Scene M (w.put i slot) s' := by
  have hput := h.put hl hkept hcore (hsent.trans (List.append_nil _).symm) hcurrent
  rw [List.append_nil] at hput
  exact hput

/-- What a handler does is a sequence of moves. -/
theorem act {r : Replica MemoryStorage} {n' : Node} {commands : List Command} (h : Scene M w s)
    (up : w.slot i = .up r) (steps : r.node.Steps M w.sent n' commands)
    (hrange : n'.record.currentTerm < Word.max) :
    ∃ s', Scene M { w.put i (.up (r.settle n')) with sent := w.sent ++ sends i commands } s' ∧
      s.Follows s' := by
  have hkept := (Turn.act up steps).kept h.kept
  obtain ⟨hid, hseat, _, _⟩ := h.kept i r up
  have hi : i ∈ M.ids := hid ▸ hseat.member
  obtain ⟨s', hmoves, hcore, hsent⟩ := steps.reaches hrange s (hid ▸ h.core_up up)
    (h.sent ▸ List.Subset.refl _)
  rw [hid] at hmoves hcore hsent
  obtain ⟨hl, hf⟩ := hmoves.lawful hi h.lawful
  have hrecord : (s.core i).record = r.node.record := congrArg Core.record (h.core_up up)
  have hrecord' : (s'.core i).record = n'.record := by rw [hcore, Function.update_self]; rfl
  have hcore' : s'.core = Function.update s.core i (Slot.up (r.settle n')).core :=
    hcore.trans (congrArg _ (r.settle_core n').symm)
  refine ⟨s', h.put hl hkept hcore' hsent fun r' hr' => ?_, hf⟩
  obtain rfl := Slot.up.inj hr'
  -- what the replica has applied was committed, and commits stay
  obtain ⟨hle, hcommitted⟩ := hf.keeps i
  have hbound := h.lawful.commits.commit_le i
  have hbound' := hl.commits.commit_le i
  simp only [Chronicle.commit, Chronicle.log, hrecord, hrecord'] at hle hcommitted hbound hbound'
  exact (h.current i r up).settle steps.frame hbound hle hcommitted hbound'

/-- A crash loses nothing but the role, since all else was saved. -/
theorem crash {r : Replica MemoryStorage} (h : Scene M w s) (up : w.slot i = .up r) :
    ∃ s', Scene M (w.put i (.down r.storage)) s' ∧ s.Follows s' := by
  have hkept : (w.put i (.down r.storage)).Kept M := (Turn.crash up).kept h.kept
  obtain ⟨hid, hseat, _, _⟩ := h.kept i r up
  obtain ⟨hl, hf⟩ := Chronicle.Moves.lawful (.single .retire) (hid ▸ hseat.member) h.lawful
  refine ⟨_, h.put_silent hl hkept ?_ rfl (fun _ hr => absurd hr (by simp)), hf⟩
  show Function.update s.core i _ = Function.update s.core i ⟨r.storage.record, .passive⟩
  rw [(h.current i r up).stored, h.core_up up]
  rfl

/-- Waking up is no move: a node that is down is where it will be then. -/
theorem wake {storage : MemoryStorage} {n : Node} {now : Instant} {draw : Nat} (h : Scene M w s)
    (member : i ∈ M.ids) (down : w.slot i = .down storage)
    (restored : Node.restore i (M.peers i) (M.config i) storage.record now draw = .ok n) :
    Scene M (w.put i (.up (Replica.wake n storage))) s := by
  have hkept : (w.put i (.up (Replica.wake n storage))).Kept M :=
    (Turn.wake member down restored).kept h.kept
  obtain ⟨_, _, happlied, _, hcore⟩ := Replica.restore_ok restored
  have hrecord : (s.core i).record = storage.record := by rw [h.core i, down]; rfl
  have hbound := h.lawful.commits.commit_le i
  simp only [Chronicle.commit, Chronicle.log, hrecord] at hbound
  -- no saved commit length is beyond the saved log, so none is cut down
  rw [Nat.min_eq_left hbound] at hcore
  have hn : n.record = storage.record := congrArg Core.record hcore
  refine h.put_silent h.lawful hkept ?_ rfl fun r' hr' => ?_
  · show s.core = Function.update s.core i n.core
    have hsame : n.core = s.core i := by rw [hcore, h.core i, down]; rfl
    rw [hsame, Function.update_eq_self]
  · obtain rfl := Slot.up.inj hr'
    exact .wake hn (hn ▸ hbound) happlied

theorem report {r : Replica MemoryStorage} (h : Scene M w s) (up : w.slot i = .up r) :
    Scene M (w.put i (.up r.takeApplied.2)) s := by
  have hkept : (w.put i (.up r.takeApplied.2)).Kept M := (Turn.report up).kept h.kept
  refine h.put_silent h.lawful hkept ?_ rfl fun r' hr' => ?_
  · show s.core = Function.update s.core i r.node.core
    rw [← h.core_up up, Function.update_eq_self]
  · obtain rfl := Slot.up.inj hr'
    obtain ⟨hstored, happlied, hstore⟩ := h.current i r up
    exact ⟨hstored, happlied, hstore⟩

/-- Every turn of a member is a sequence of its moves. -/
theorem turn (h : Scene M w s) (ht : Turn M w w') (hrange : w'.InRange M) :
    ∃ s', Scene M w' s' ∧ s.Follows s' := by
  cases ht with
  | idle => exact ⟨s, h, .refl s⟩
  | @act i r n' commands up steps =>
      obtain ⟨hid, hseat, _, _⟩ := h.kept i r up
      have hterm : ((w.put i (.up (r.settle n'))).record i).currentTerm < Word.max :=
        hrange i (hid ▸ hseat.member)
      rw [record_of_up (put_slot_self w i _)] at hterm
      exact h.act up steps ((congrArg (·.record.currentTerm) (r.settle_core n')) ▸ hterm)
  | report up => exact ⟨s, h.report up, .refl s⟩
  | crash up => exact h.crash up
  | wake member down restored => exact ⟨s, h.wake member down restored, .refl s⟩

theorem after (h : Scene M w s) (actions : List Action)
    (hrange : (actions.foldl (step M) w).InRange M) :
    ∃ s', Scene M (actions.foldl (step M) w) s' ∧ s.Follows s' := by
  induction actions generalizing w s with
  | nil => exact ⟨s, h, .refl s⟩
  | cons action rest ih =>
      have hturn := step_turn h.kept action
      have hnext : (w.step M action).InRange M := fun i hi =>
        Nat.lt_of_le_of_lt ((hturn.kept h.kept).term_le_after rest i) (hrange i hi)
      obtain ⟨s₁, h₁, hf₁⟩ := h.turn hturn hnext
      obtain ⟨s₂, h₂, hf₂⟩ := ih h₁ hrange
      exact ⟨s₂, h₂, hf₁.trans h.lawful hf₂⟩

/-- Every node has in its log what it has committed. -/
theorem commit_le_length (h : Scene M w s) (i : NodeId) :
    (w.record i).commitLength ≤ (w.record i).log.length := by
  rw [← h.commit i, ← h.log i]
  exact h.lawful.commits.commit_le i

theorem leaders_agree_of_follows {a b : NodeId} {t : Term} (h : Scene M w s)
    (h' : Scene M w' s') (hf : s.Follows s') (ha : w.Leads a t) (hb : w'.Leads b t) : a = b := by
  -- the later chronicle has one reign of the term, and both nodes have won it
  obtain ⟨log, hlog, _⟩ := hf.extends'.reign t _ (h.reign_of_leads ha).2
  exact congrArg Reign.winner (Option.some.inj (hlog.symm.trans (h'.reign_of_leads hb).2))

/-- Two nodes that lead in one term, one of them perhaps later, are one. -/
theorem leaders_agree {a b : NodeId} {t : Term} (h : Scene M w s) (h' : Scene M w' s')
    (line : s.InLine s') (ha : w.Leads a t) (hb : w'.Leads b t) : a = b := by
  rcases line with hf | hf
  · exact h.leaders_agree_of_follows h' hf ha hb
  · exact (h'.leaders_agree_of_follows h hf hb ha).symm

theorem commits_agree_of_follows {a b : NodeId} {k : LogIndex} (h : Scene M w s)
    (h' : Scene M w' s') (hf : s.Follows s') (ha : k ≤ (w.record a).commitLength)
    (hb : k ≤ (w'.record b).commitLength) :
    (w.record a).log.entry? k = (w'.record b).log.entry? k := by
  have hla := h.commit_le_length a
  have hlb := h'.commit_le_length b
  have hsettled := (h.lawful.commits.settled a).of_extends hf.extends'
  have hsettled' := h'.lawful.commits.settled b
  rw [h.log a, h.commit a] at hsettled
  rw [h'.log b, h'.commit b] at hsettled'
  rcases hsettled.total hsettled' h'.lawful.ballots h'.lawful.histories
    h'.lawful.holdings with hp | hp
  · exact (Log.entry?_of_take_prefix (hp.trans (List.take_prefix _ _)) hla ha).symm
  · exact Log.entry?_of_take_prefix (hp.trans (List.take_prefix _ _)) hlb hb

/-- What two nodes have committed, one of them perhaps later, is the same as
far as both go. -/
theorem commits_agree {a b : NodeId} {k : LogIndex} (h : Scene M w s) (h' : Scene M w' s')
    (line : s.InLine s') (ha : k ≤ (w.record a).commitLength)
    (hb : k ≤ (w'.record b).commitLength) :
    (w.record a).log.entry? k = (w'.record b).log.entry? k := by
  rcases line with hf | hf
  · exact h.commits_agree_of_follows h' hf ha hb
  · exact (h'.commits_agree_of_follows h hf hb ha).symm

end Scene

/-- Any two states of a run have chronicles, the later of which follows the
earlier. -/
theorem Run.exists_scenes {M : Roster} (r : Run M) {m n : Nat} (hmn : m ≤ n) :
    ∃ s s', Scene M (r.state m) s ∧ Scene M (r.state n) s' ∧ s.Follows s' := by
  obtain ⟨s, hs, _⟩ := (Scene.start M).after (r.actions.take m) (r.state_inRange m)
  have hstate : r.state n =
      ((r.actions.drop m).take (n - m)).foldl (World.step M) (r.state m) := by
    rw [Run.state, Run.state, World.after, World.after, ← List.foldl_append, ← List.take_add,
      Nat.add_sub_cancel' hmn]
  obtain ⟨s', hs', hf⟩ := hs.after ((r.actions.drop m).take (n - m))
    (hstate ▸ r.state_inRange n)
  exact ⟨s, s', hs, hstate ▸ hs', hf⟩

/-- Any two states of a run have chronicles one of which follows the other. -/
theorem Run.exists_scenes_inLine {M : Roster} (r : Run M) (m n : Nat) :
    ∃ s s', Scene M (r.state m) s ∧ Scene M (r.state n) s' ∧ s.InLine s' := by
  rcases Nat.le_total m n with hmn | hnm
  · obtain ⟨s, s', hs, hs', hf⟩ := r.exists_scenes hmn
    exact ⟨s, s', hs, hs', .inl hf⟩
  · obtain ⟨s, s', hs, hs', hf⟩ := r.exists_scenes hnm
    exact ⟨s', s, hs', hs, .inr hf⟩

theorem Run.exists_scene {M : Roster} (r : Run M) (k : Nat) : ∃ s, Scene M (r.state k) s := by
  obtain ⟨s, _, hs, _, _⟩ := r.exists_scenes (Nat.le_refl k)
  exact ⟨s, hs⟩

/-- Every node has in its log what it has committed. -/
theorem Run.commit_le_length {M : Roster} (r : Run M) (k : Nat) (i : NodeId) :
    ((r.state k).record i).commitLength ≤ ((r.state k).record i).log.length := by
  obtain ⟨s, hs⟩ := r.exists_scene k
  exact hs.commit_le_length i

end Quorum
