import Quorum.Proofs.Run.Refusals
import Quorum.Proofs.Theorems.Acknowledged

/-!
# Failed writes

A client that is told of failure can rely on it as long as its write has not
lost its place to another one. A node that leads again, in a later term and
with a shorter log, may give the same index away twice, and then tells the
client that came first of failure although its entry may live on elsewhere. If
that entry is committed after all, it is the later write that is lost.
-/

namespace Quorum

namespace World

/-- A node has committed an entry at an index. -/
def Commits (w : World) (x : NodeId) (index : LogIndex) (entry : LogEntry) : Prop :=
  index ≤ (w.record x).commitLength ∧ (w.record x).log.entry? index = some entry

instance (w : World) (x : NodeId) (index : LogIndex) (entry : LogEntry) :
    Decidable (w.Commits x index entry) :=
  inferInstanceAs (Decidable (_ ∧ _))

/-- A node has applied an entry at an index to its store, or reports that it
has. -/
def Applies (w : World) (x : NodeId) (index : LogIndex) (entry : LogEntry) : Prop :=
  ∃ replica, w.slot x = .up replica ∧
    (index ≤ replica.node.lastApplied ∧ replica.node.record.log.entry? index = some entry ∨
      (index, entry) ∈ replica.applied)

end World

variable {M : Roster} {w w' : World} {s s' : Chronicle} {x y : NodeId} {index : LogIndex}
  {e f : LogEntry} {t : Term} {g : Reign} {ticket : Ticket} {m n : Nat}

/-- Only what is committed is applied. -/
theorem Scene.commits_of_applies (h : Scene M w s) (hreports : w.Reports)
    (happlies : w.Applies x index e) : w.Commits x index e := by
  obtain ⟨replica, up, happlied⟩ := happlies
  have hnow : index ≤ replica.node.lastApplied ∧
      replica.node.record.log.entry? index = some e :=
    happlied.elim id fun hreport => hreports x replica up _ hreport
  rw [World.Commits, World.record_of_up up]
  exact ⟨Nat.le_trans hnow.1 (h.current x replica up).applied_le, hnow.2⟩

/-- Only in a later term may a node commit another entry in place of one that
a leader has had. -/
theorem Scene.term_lt_of_reign (h : Scene M w s) (h' : Scene M w' s') (hx : s.Extends s')
    (he : w.Commits x index e) (hg : s'.reign t = some g) (hf : g.log.entry? index = some f)
    (hne : e ≠ f) : t < (w.record x).currentTerm := by
  obtain ⟨hindex, hentry⟩ := he
  have hsettled := (h.lawful.commits.settled x).of_extends hx
  rw [h.log, h.commit, h.term] at hsettled
  refine Nat.lt_of_not_le fun hle => hne ?_
  -- otherwise the leader would have had what the node has committed
  have hp := hsettled.prefix_of_reign h'.lawful.ballots h'.lawful.histories
    h'.lawful.holdings hle hg
  rw [Log.entry?_of_take_prefix hp (h.commit_le_length x) hindex, hentry] at hf
  exact Option.some.inj hf

namespace ClientRun

theorem commits_of_applies (r : ClientRun M) (h : (r.state n).world.Applies x index e) :
    (r.state n).world.Commits x index e := by
  obtain ⟨_, _, hs, _, _, hl, _⟩ := r.exists_scenes (Nat.le_refl n)
  exact hs.commits_of_applies hl.reports h

/-- At any two moments, what two nodes have committed at an index is the
same. -/
theorem commits_unique (r : ClientRun M) (he : (r.state m).world.Commits x index e)
    (hf : (r.state n).world.Commits y index f) : e = f := by
  obtain ⟨_, _, hs, hs', line⟩ := r.exists_scenes_inLine m n
  have hsame := hs.commits_agree hs' line he.1 hf.1
  rw [he.2, hf.2] at hsame
  exact Option.some.inj hsame

/-- Whoever commits another entry in place of an admitted write, before or
after its admission, does so in a later term. -/
theorem term_lt_of_ticket (r : ClientRun M) (hticket : ticket ∈ (r.state m).tickets)
    (he : (r.state n).world.Commits x ticket.index e) (hne : e ≠ ticket.entry) :
    ticket.entry.term < ((r.state n).world.record x).currentTerm := by
  rcases Nat.le_total m n with hmn | hnm
  · obtain ⟨d, rfl⟩ := Nat.exists_eq_add_of_le hmn
    have hkept := (Service.grows (M := M) (r.state m) ((r.acts.drop m).take d)).1 hticket
    rw [← r.state_add m d] at hkept
    obtain ⟨_, _, hs, _, _, hl, _⟩ := r.exists_scenes (Nat.le_refl (m + d))
    obtain ⟨g, hg, hentry⟩ := hl.reigned ticket hkept
    exact hs.term_lt_of_reign hs (.refl _) he hg hentry hne
  · obtain ⟨_, _, hs, hs', hfollows, _, hl⟩ := r.exists_scenes hnm
    obtain ⟨g, hg, hentry⟩ := hl.reigned ticket hticket
    exact hs.term_lt_of_reign hs' hfollows.extends' he hg hentry hne

/-- A write whose node has committed another entry is never committed. -/
theorem not_commits_of_refutes (r : ClientRun M) (h : (r.state m).world.Refutes ticket) :
    ¬ (r.state n).world.Commits x ticket.index ticket.entry := by
  intro hcommits
  obtain ⟨hindex, hother⟩ := h
  obtain ⟨s, _, hs, _⟩ := r.exists_scenes (Nat.le_refl m)
  have hle := Nat.le_trans hindex (hs.commit_le_length ticket.member)
  obtain ⟨e, he⟩ := Log.exists_entry? (Log.pos_of_entry hcommits.2) hle
  rw [r.commits_unique ⟨hindex, he⟩ hcommits] at he
  exact hother he

end ClientRun

/-- If the entry of a failed write is committed or applied anywhere and at any
time, the step that told of the failure was the one in which its node admitted
another write at the same index in a later term; whoever commits the entry
does so in a term that is later still, and nobody ever commits that of the
other write. -/
theorem revived_write_was_displaced (r : ClientRun M) (hfailed : (r.state m).Failed ticket)
    (hdone : (r.state n).world.Commits x ticket.index ticket.entry ∨
      (r.state n).world.Applies x ticket.index ticket.entry) :
    ∃ k < m, ¬ (r.state k).Failed ticket ∧ (r.state (k + 1)).Failed ticket ∧
      ∃ other ∈ (r.state (k + 1)).tickets, other ∉ (r.state k).tickets ∧
        other.Displaces ticket ∧
        other.entry.term < ((r.state n).world.record x).currentTerm ∧
        ∀ l y, ¬ (r.state l).world.Commits y other.index other.entry ∧
          ¬ (r.state l).world.Applies y other.index other.entry := by
  have hrevived := hdone.elim id r.commits_of_applies
  obtain ⟨k, hk, hearlier, htold, hrefuted | ⟨other, hother, hnew, hplace⟩⟩ :=
    r.exists_excuse hfailed
  · exact absurd hrevived (r.not_commits_of_refutes hrefuted)
  · obtain ⟨_, hindex, hterm⟩ := id hplace
    have hne : ticket.entry ≠ other.entry := fun hsame =>
      absurd (congrArg LogEntry.term hsame) (Nat.ne_of_lt hterm)
    rw [← hindex] at hrevived
    refine ⟨k, hk, hearlier, htold, other, hother, hnew, hplace,
      r.term_lt_of_ticket hother hrevived hne, fun l y => ?_⟩
    have hlost : ¬ (r.state l).world.Commits y other.index other.entry := fun h =>
      hne (r.commits_unique hrevived h)
    exact ⟨hlost, fun h => hlost (r.commits_of_applies h)⟩

/-- Five nodes with the ordinary timers. -/
def quintet : Roster where
  ids := [0, 1, 2, 3, 4]
  nodup := by decide
  peers i := [0, 1, 2, 3, 4].erase i
  peers_perm _ _ := .refl _
  config _ := {}

/-- In term 1 node 0 admits two writes, and nobody but node 2 receives them.
Node 1 wins term 2 without them and empties the log of node 0, which then wins
term 3 and admits a write at the index of the second one. Node 2 wins term 4
and commits what it has. -/
def revival : ClientRun quintet where
  acts :=
    let t := Duration.ofMilliseconds 3000
    [.cluster (.restart 0 0 0), .cluster (.restart 1 0 0), .cluster (.restart 2 0 0),
      .cluster (.restart 3 0 0), .cluster (.restart 4 0 0),
      .cluster (.timer 0 .election 0 0), .cluster (.deliver 0 0 0), .cluster (.deliver 1 0 0),
      .cluster (.deliver 4 0 0), .cluster (.deliver 5 0 0), .offer 1 0 (.set "a" "1") 0,
      .offer 2 0 (.set "b" "2") 0, .cluster (.timer 0 .heartbeat 0 0), .cluster (.deliver 11 0 0),
      .cluster (.timer 1 .election 0 0), .cluster (.deliver 17 0 0), .cluster (.deliver 18 0 0),
      .cluster (.deliver 19 0 0), .cluster (.deliver 20 0 0), .cluster (.deliver 21 0 0),
      .cluster (.timer 0 .election t 0), .cluster (.deliver 28 t 0), .cluster (.deliver 29 t 0),
      .cluster (.deliver 30 t 0), .cluster (.deliver 31 t 0), .offer 3 0 (.set "c" "3") t,
      .cluster (.deliver 27 t 0), .cluster (.timer 2 .election t 0), .cluster (.deliver 39 t 0),
      .cluster (.deliver 40 t 0), .cluster (.deliver 41 t 0), .cluster (.deliver 42 t 0),
      .cluster (.deliver 45 t 0), .cluster (.deliver 46 t 0), .cluster (.deliver 47 t 0),
      .cluster (.deliver 47 t 0), .cluster (.deliver 47 t 0), .cluster (.deliver 48 t 0),
      .cluster (.deliver 48 t 0), .cluster (.deliver 48 t 0), .cluster (.timer 2 .heartbeat t 0),
      .cluster (.deliver 51 t 0), .cluster (.deliver 52 t 0), .cluster (.deliver 53 t 0),
      .cluster (.deliver 54 t 0)]
  inRange := by decide +kernel

theorem revival_failed : (revival.state 26).Failed ⟨2, 0, 3, .set 1 "b" "2"⟩ := by
  have hticket : (⟨2, 0, 3, .set 1 "b" "2"⟩ : Ticket) ∈ (revival.state 26).tickets := by
    decide +kernel
  have hanswer : ((2, .fail "" none) : RequestId × Reply) ∈ (revival.state 26).answers := by
    decide +kernel
  exact ⟨hticket, _, hanswer, rfl⟩

theorem revived_write_was_displaced_revival :
    ((revival.state 26).Failed ⟨2, 0, 3, .set 1 "b" "2"⟩ ∧
      (revival.state 45).world.Commits 2 3 (.set 1 "b" "2")) ∧
    ∃ k < 26, ∃ other ∈ (revival.state (k + 1)).tickets,
      other.Displaces ⟨2, 0, 3, .set 1 "b" "2"⟩ := by
  have hcommits : (revival.state 45).world.Commits 2 3 (.set 1 "b" "2") := by decide +kernel
  obtain ⟨k, hk, _, _, other, hother, _, hplace, _⟩ :=
    revived_write_was_displaced revival revival_failed (.inl hcommits)
  exact ⟨⟨revival_failed, hcommits⟩, k, hk, other, hother, hplace⟩

/-- A write whose client is told of failure may be committed after that. -/
theorem not_failed_for_good :
    ¬ ∀ (M : Roster) (r : ClientRun M) (m n : Nat) (ticket : Ticket) (x : NodeId),
      (r.state m).Failed ticket →
        ¬ (r.state n).world.Commits x ticket.index ticket.entry ∧
          ¬ (r.state n).world.Applies x ticket.index ticket.entry := by
  intro h
  have hcommits : (revival.state 45).world.Commits 2 3 (.set 1 "b" "2") := by decide +kernel
  exact (h quintet revival 26 45 _ 2 revival_failed).1 hcommits

end Quorum
