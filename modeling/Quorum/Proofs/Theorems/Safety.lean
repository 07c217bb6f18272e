import Quorum.Proofs.Run.Scene

/-!
# Safety

What a cluster never gets wrong, whatever is lost, delayed, repeated or
reordered and whoever crashes when: there is one leader for each term, logs
match, later leaders have what earlier ones committed, and all nodes apply
the same entries in the same order. Each theorem is about every run, and is
read off the chronicles of its states.
-/

namespace Quorum

variable {M : Roster} {a b : NodeId} {t u : Term} {i : LogIndex} {m n : Nat} {e : LogEntry}

/-! ## A run with a change of leaders -/

/-- Three nodes with the ordinary timers. -/
def trio : Roster where
  ids := [0, 1, 2]
  nodup := by decide
  peers i := [0, 1, 2].erase i
  peers_perm _ _ := .refl _
  config _ := {}

/-- Node 0 wins term 1 and crashes with a write that nobody else has. Node 1
wins term 2 and commits a write of its own; node 0 comes back and loses its
entries to node 1. Then node 2 wins term 3. -/
def handover : Run trio where
  actions :=
    [.restart 0 0 0, .restart 1 0 0, .restart 2 0 0, .timer 0 .election 0 0, .deliver 0 0 0,
      .deliver 2 0 0, .request 0 (.set "k" "v") 0, .crash 0, .timer 1 .election 0 0,
      .deliver 6 0 0, .deliver 7 0 0, .deliver 9 0 0, .deliver 10 0 0, .restart 0 0 0,
      .deliver 8 0 0, .request 1 (.set "a" "b") 0, .timer 1 .heartbeat 0 0, .deliver 13 0 0,
      .deliver 14 0 0, .timer 2 .election 0 0, .deliver 15 0 0, .deliver 17 0 0]
  inRange := by decide +kernel

/-! ## Leaders -/

/-- No two nodes ever lead in one term, be it at one time or at different
times of a run. -/
theorem election_safety (r : Run M) (ha : (r.state m).Leads a t) (hb : (r.state n).Leads b t) :
    a = b := by
  obtain ⟨s, s', hs, hs', line⟩ := r.exists_scenes_inLine m n
  exact hs.leaders_agree hs' line ha hb

theorem election_safety_handover :
    (handover.state 13).Leads 1 2 ∧ (handover.state 19).Leads 1 2 ∧ (1 : NodeId) = 1 := by
  have hfirst : (handover.state 13).Leads 1 2 := by decide +kernel
  have hlast : (handover.state 19).Leads 1 2 := by decide +kernel
  exact ⟨hfirst, hlast, election_safety handover hfirst hlast⟩

/-- What is settled in a later state was in the log of every leader of a
later term before. -/
theorem prefix_of_leads {w w' : World} {s s' : Chronicle} {log : Log} (hs : Scene M w s)
    (hs' : Scene M w' s') (hf : s.Follows s') (hsettled : s'.Settled M t log)
    (hb : w.Leads b u) (htu : t < u) : log <+: (w.record b).log := by
  obtain ⟨hterm, hreign⟩ := hs.reign_of_leads hb
  obtain ⟨whole, hwhole, _⟩ := hf.extends'.reign u _ hreign
  have hstood : log <+: s.stood b u := by
    rw [← hf.extends'.stood b u (Nat.le_of_eq hterm.symm)]
    exact hsettled.prefix_stood hs'.lawful.ballots hs'.lawful.holdings htu hwhole
  rw [← hs.log b]
  exact hstood.trans (hs.lawful.histories.reigned u _ hreign).stood_prefix_log

/-- What a leader has at a committed index stands at that index in the log of
every leader of a later term, at whatever time either is looked at. -/
theorem leader_completeness (r : Run M) (ha : (r.state m).Leads a t)
    (hi : i ≤ ((r.state m).record a).commitLength)
    (he : ((r.state m).record a).log.entry? i = some e)
    (hb : (r.state n).Leads b u) (htu : t < u) :
    ((r.state n).record b).log.entry? i = some e := by
  have hsettled : ∀ {s}, Scene M (r.state m) s → s.Settled M t
      (((r.state m).record a).log.take ((r.state m).record a).commitLength) := fun hs => by
    rw [← hs.log a, ← hs.commit a, ← (hs.reign_of_leads ha).1]
    exact hs.lawful.commits.settled a
  have hprefix : ((r.state m).record a).log.take ((r.state m).record a).commitLength <+:
      ((r.state n).record b).log := by
    rcases Nat.le_total m n with hmn | hnm
    · obtain ⟨s, s', hs, hs', hf⟩ := r.exists_scenes hmn
      exact prefix_of_leads hs' hs' (.refl s') ((hsettled hs).of_extends hf.extends') hb htu
    · -- the later leader had the entries before they were committed
      obtain ⟨s, s', hs, hs', hf⟩ := r.exists_scenes hnm
      exact prefix_of_leads hs hs' hf (hsettled hs') hb htu
  rw [Log.entry?_of_take_prefix hprefix (r.commit_le_length m a) hi]
  exact he

theorem leader_completeness_handover :
    ((handover.state 19).Leads 1 2 ∧ 2 ≤ ((handover.state 19).record 1).commitLength ∧
      ((handover.state 19).record 1).log.entry? 2 = some (.set 2 "a" "b") ∧
      (handover.state 22).Leads 2 3 ∧ 2 < 3) ∧
    ((handover.state 22).record 2).log.entry? 2 = some (.set 2 "a" "b") := by
  have ha : (handover.state 19).Leads 1 2 := by decide +kernel
  have hi : 2 ≤ ((handover.state 19).record 1).commitLength := by decide +kernel
  have he : ((handover.state 19).record 1).log.entry? 2 = some (.set 2 "a" "b") := by
    decide +kernel
  have hb : (handover.state 22).Leads 2 3 := by decide +kernel
  exact ⟨⟨ha, hi, he, hb, by decide⟩, leader_completeness handover ha hi he hb (by decide)⟩

/-! ## Logs -/

/-- Two logs that have an entry of one term at one index are the same up to
there, operations included; and along a log the terms never fall, nor rise
above the term of its node. -/
theorem log_matching (r : Run M) (k : Nat) :
    (∀ a b i e f, ((r.state k).record a).log.entry? i = some e →
      ((r.state k).record b).log.entry? i = some f → e.term = f.term →
      ((r.state k).record a).log.take i = ((r.state k).record b).log.take i) ∧
    ∀ a, ((r.state k).record a).log.Pairwise (·.term ≤ ·.term) ∧
      ∀ e ∈ ((r.state k).record a).log, e.term ≤ ((r.state k).record a).currentTerm := by
  obtain ⟨s, hs⟩ := r.exists_scene k
  have hsound : ∀ a, s.Sound ((r.state k).record a).currentTerm ((r.state k).record a).log :=
    fun a => hs.term a ▸ hs.log a ▸ hs.lawful.histories.sound a
  refine ⟨fun a b i e f he hf hterm => ?_, fun a => ⟨(hsound a).ordered, (hsound a).bounded⟩⟩
  exact ((hsound a).rooted.matches (hsound b).rooted).take_eq he hf hterm

theorem log_matching_handover :
    (((handover.state 19).record 1).log.entry? 2 = some (.set 2 "a" "b") ∧
      ((handover.state 19).record 2).log.entry? 2 = some (.set 2 "a" "b")) ∧
    ((handover.state 19).record 1).log.take 2 = ((handover.state 19).record 2).log.take 2 := by
  have hleader : ((handover.state 19).record 1).log.entry? 2 = some (.set 2 "a" "b") := by
    decide +kernel
  have hfollower : ((handover.state 19).record 2).log.entry? 2 = some (.set 2 "a" "b") := by
    decide +kernel
  obtain ⟨hmatch, _⟩ := log_matching handover 19
  exact ⟨⟨hleader, hfollower⟩, hmatch 1 2 2 _ _ hleader hfollower rfl⟩

/-! ## What is committed and applied -/

/-- A node never takes back what it has committed. -/
theorem commits_stay (r : Run M) (hmn : m ≤ n) (a : NodeId) :
    ((r.state m).record a).commitLength ≤ ((r.state n).record a).commitLength ∧
      ((r.state n).record a).log.take ((r.state m).record a).commitLength =
        ((r.state m).record a).log.take ((r.state m).record a).commitLength := by
  obtain ⟨s, s', hs, hs', hf⟩ := r.exists_scenes hmn
  obtain ⟨hle, hcommitted⟩ := hf.keeps a
  rw [hs.commit a, hs'.commit a] at hle
  rw [hs.commit a, hs.log a, hs'.log a] at hcommitted
  exact ⟨hle, Log.take_eq_of_take_prefix hcommitted (r.commit_le_length m a)⟩

/-- What two nodes have committed, at any two times, is the same as far as
both go. -/
theorem commits_agree (r : Run M) (ha : i ≤ ((r.state m).record a).commitLength)
    (hb : i ≤ ((r.state n).record b).commitLength) :
    ((r.state m).record a).log.entry? i = ((r.state n).record b).log.entry? i := by
  obtain ⟨s, s', hs, hs', line⟩ := r.exists_scenes_inLine m n
  exact hs.commits_agree hs' line ha hb

/-- All nodes apply one sequence of entries: what a node has applied is
committed, what is committed stays and is the same everywhere, and the store
of a node is the replay of what it has applied. -/
theorem state_machine_safety (r : Run M) :
    (∀ k a, ((r.state k).record a).commitLength ≤ ((r.state k).record a).log.length ∧
      ∀ node, (r.state k).node? a = some node →
        node.lastApplied ≤ node.record.commitLength) ∧
    (∀ m n a, m ≤ n →
      ((r.state m).record a).commitLength ≤ ((r.state n).record a).commitLength ∧
      ((r.state n).record a).log.take ((r.state m).record a).commitLength =
        ((r.state m).record a).log.take ((r.state m).record a).commitLength) ∧
    (∀ m n a b i, i ≤ ((r.state m).record a).commitLength →
      i ≤ ((r.state n).record b).commitLength →
      ((r.state m).record a).log.entry? i = ((r.state n).record b).log.entry? i) ∧
    ∀ k a replica, (r.state k).slot a = .up replica →
      replica.store = Store.replay (replica.node.record.log.take replica.node.lastApplied) := by
  refine ⟨fun k a => ⟨r.commit_le_length k a, fun node hnode => ?_⟩,
    fun m n a hmn => commits_stay r hmn a, fun m n a b i ha hb => commits_agree r ha hb,
    fun k a replica hup => ?_⟩
  · obtain ⟨s, hs⟩ := r.exists_scene k
    obtain ⟨replica, hup, rfl⟩ := World.exists_up_of_node? hnode
    exact (hs.current a replica hup).applied_le
  · obtain ⟨s, hs⟩ := r.exists_scene k
    exact (hs.current a replica hup).replayed

theorem state_machine_safety_handover :
    (1 ≤ ((handover.state 13).record 1).commitLength ∧
      1 ≤ ((handover.state 22).record 2).commitLength) ∧
    ((handover.state 13).record 1).log.entry? 1 = ((handover.state 22).record 2).log.entry? 1 := by
  have hearlier : 1 ≤ ((handover.state 13).record 1).commitLength := by decide +kernel
  have hlater : 1 ≤ ((handover.state 22).record 2).commitLength := by decide +kernel
  obtain ⟨_, _, hagree, _⟩ := state_machine_safety handover
  exact ⟨⟨hearlier, hlater⟩, hagree 13 22 1 2 1 hearlier hlater⟩

end Quorum
