import Quorum.Proofs.Handlers.Frame
import Quorum.Proofs.Protocol.Chronicle

/-!
# Handlers as moves

Whatever a handler of a node is given, it makes a sequence of moves and sends
what they send (`Node.Steps`). Here are the ways to put such sequences
together, and the transitions that all handlers share. Handlers are opened
nowhere else: what is shown of moves holds of them.
-/

namespace Quorum

/-! ## Sequences of moves -/

/-- Moves of node `i` bring it to where `n'` is, and send `out`. -/
def Chronicle.Reaches (M : Roster) (i : NodeId) (s : Chronicle) (n' : Node)
    (out : List InFlight) : Prop :=
  ∃ s', s.Moves M i s' ∧ s'.core = Function.update s.core i n'.core ∧ s'.sent = s.sent ++ out

/-- What a node does between `n` and `n'` is a sequence of moves in every
chronicle in which it is where `n` is and has been sent what it heard. In the
last term that a word can hold there is nothing to be said. -/
structure Node.Steps (M : Roster) (heard : List InFlight) (n n' : Node)
    (commands : List Command) : Prop where
  frame : n.Frame n'
  reaches : n'.record.currentTerm < Word.max → ∀ s : Chronicle, s.core n.id = n.core →
    heard ⊆ s.sent → s.Reaches M n.id n' (sends n.id commands)

/-- A node of the cluster, as it is started. -/
structure Node.Seated (M : Roster) (n : Node) : Prop where
  member : n.id ∈ M.ids
  peers : n.peers = M.peers n.id

namespace Node

open Chronicle

variable {M : Roster} {heard : List InFlight} {n n' n₁ n₂ n₃ : Node} {leader? : Option NodeId}
  {peer : NodeId} {now : Instant} {draw : Nat} {commands commands₁ commands₂ : List Command}

theorem Seated.of_frame (h : n.Seated M) (hf : n.Frame n') : n'.Seated M where
  member := by rw [hf.id]; exact h.member
  peers := by rw [hf.peers, hf.id]; exact h.peers

theorem Seated.mem_peers (h : n.Seated M) : peer ∈ n.peers ↔ peer ∈ M.ids ∧ peer ≠ n.id := by
  rw [h.peers, (M.peers_perm n.id h.member).mem_iff, M.nodup.mem_erase_iff, and_comm]

theorem Seated.quorum_eq (h : n.Seated M) : n.quorum = M.quorum := by
  have hlength := (M.peers_perm n.id h.member).length_eq
  rw [List.length_erase_of_mem h.member] at hlength
  have hpos := List.length_pos_of_mem h.member
  simp only [quorum, clusterSize, Roster.quorum, h.peers]
  omega

/-! ## Putting steps together -/

theorem Steps.trans (h₁ : Steps M heard n₁ n₂ commands₁) (h₂ : Steps M heard n₂ n₃ commands₂) :
    Steps M heard n₁ n₃ (commands₁ ++ commands₂) where
  frame := h₁.frame.trans h₂.frame
  reaches hrange s hs hheard := by
    have hrange₂ := Nat.lt_of_le_of_lt h₂.frame.term_le hrange
    obtain ⟨s₂, hm₂, hc₂, ho₂⟩ := h₁.reaches hrange₂ s hs hheard
    have hsub : heard ⊆ s₂.sent := fun m hm => by
      rw [ho₂]
      exact List.mem_append_left _ (hheard hm)
    have hid := h₁.frame.id
    obtain ⟨s₃, hm₃, hc₃, ho₃⟩ :=
      h₂.reaches hrange s₂ (by rw [hid, hc₂, Function.update_self]) hsub
    rw [hid] at hm₃ hc₃ ho₃
    refine ⟨s₃, hm₂.trans hm₃, ?_, ?_⟩
    · rw [hc₃, hc₂, Function.update_idem]
    · rw [ho₃, ho₂, sends_append, List.append_assoc]

/-- A change that safety does not rest on is no move at all. -/
theorem Steps.of_core_eq (hf : n.Frame n') (hc : n'.core = n.core)
    (hs : sends n.id commands = []) : Steps M heard n n' commands where
  frame := hf
  reaches _ s hcore _ := by
    refine ⟨s, .refl, ?_, ?_⟩
    · rw [hc, ← hcore, Function.update_eq_self]
    · rw [hs, List.append_nil]

theorem Steps.refl (n : Node) : Steps M heard n n [] :=
  .of_core_eq (.refl n) rfl rfl

/-- A single move. -/
theorem Steps.of_move (hf : n.Frame n')
    (hm : ∀ s : Chronicle, s.core n.id = n.core → heard ⊆ s.sent →
      ∃ s', s.Move M n.id s' ∧ s'.core = Function.update s.core n.id n'.core ∧
        s'.sent = s.sent ++ sends n.id commands) : Steps M heard n n' commands where
  frame := hf
  reaches _ s hcore hheard := by
    obtain ⟨s', hmove, hc, hsent⟩ := hm s hcore hheard
    exact ⟨s', .single hmove, hc, hsent⟩

/-- Messages that report what the node is are sent one after the other. -/
theorem tell_steps (h : ∀ command ∈ commands, ∃ receiver message,
      command = .send receiver message ∧
        ∀ s : Chronicle, s.core n.id = n.core → s.MaySay n.id message) :
    Steps M heard n n commands := by
  induction commands with
  | nil => exact .refl n
  | cons command rest ih =>
      obtain ⟨receiver, message, rfl, hsay⟩ := h command List.mem_cons_self
      have hfirst : Steps M heard n n [.send receiver message] :=
        .of_move (.refl n) fun s hs _ =>
          ⟨_, .tell (hsay s hs), by rw [← hs, Function.update_eq_self]; rfl, rfl⟩
      exact hfirst.trans (ih fun command hc => h command (List.mem_cons_of_mem _ hc))

/-! ## Stepping down and adopting a term -/

theorem stepDown_ok (h : n.stepDown leader? now draw = .ok (n', commands)) :
    ∃ f p, n' = { n with role := .follower f, priorLease := p } ∧
      ∀ i, sends i commands = [] := by
  unfold stepDown at h
  split at h
  · obtain ⟨rfl, rfl⟩ := h
    exact ⟨_, n.priorLease, rfl, fun _ => rfl⟩
  · obtain ⟨electionAt, _, h⟩ := exists_of_bind_ok h
    obtain ⟨rfl, rfl⟩ := h
    exact ⟨_, n.priorLease, rfl, fun _ => rfl⟩
  · obtain ⟨electionAt, _, h⟩ := exists_of_bind_ok h
    obtain ⟨rfl, rfl⟩ := h
    exact ⟨_, _, rfl, fun _ => rfl⟩

/-- Stepping down is a retirement. -/
theorem stepDown_steps (h : n.stepDown leader? now draw = .ok (n', commands)) :
    Steps M heard n n' commands := by
  obtain ⟨f, p, rfl, hsends⟩ := stepDown_ok h
  refine .of_move (.withRole n _ p) fun s hs _ => ⟨_, .retire, ?_, ?_⟩
  · rw [hs]; rfl
  · rw [hsends, List.append_nil]; rfl

theorem adoptTerm_steps {term : Term} (h : n.adoptTerm term now draw = .ok (n', commands)) :
    Steps M heard n n' commands := by
  unfold adoptTerm at h
  split at h
  · next hlt =>
      obtain ⟨f, p, rfl, hsends⟩ := stepDown_ok h
      refine .of_move ((Frame.withRecord (Nat.le_of_lt hlt)).trans (.withRole _ _ p))
        fun s hs _ => ⟨_, .adopt (t := term) ?_, ?_, ?_⟩
      · rw [Chronicle.term, hs]; exact hlt
      · rw [hs]; rfl
      · rw [hsends, List.append_nil]; rfl
  · obtain ⟨rfl, rfl⟩ := h
    exact .refl n

end Node

end Quorum
