import Quorum.Proofs.Cluster.Enactment
import Quorum.Proofs.Run.Openings

/-!
# What holds in every cluster that can come about

Facts about the nodes of a simulated cluster that need its whole past, or that
of the run behind it: what a leader's lease and rows are like, how the logs of
any two members match, and that no log goes on behind that of a leader which
nobody has overtaken (`Attainable.log_eq_of_prefix`).
-/

namespace Quorum

/-! ## Leases -/

namespace Node

variable {now : Instant} {n n' : Node} {l' : Leader} {event : Event}

/-- A leader's lease is as long as it was configured. -/
theorem Led.duration (h : Led now event n n' l')
    (before : ∀ l, n.role = .leader l → l.lease.duration = n.config.lease) :
    l'.lease.duration = n'.config.lease := by
  cases h with
  | @win m prior lease₀ lease granted begun =>
      rw [((m.crowned lease now).advanceCommit_frame _).config]
      exact (LeaderLease.beginRound_ok begun).2.1.trans (LeaderLease.grant_ok granted).2.1
  | @round l lease role begun =>
      rw [((n.inRound l lease now).advanceCommit_frame _).config]
      exact (LeaderLease.beginRound_ok begun).2.1.trans (before l role)
  | @note l sender r lease renewed role heard success current recorded =>
      let n₁ : Node := { n with role := .leader { l.recordSuccess sender r.acked with lease } }
      rw [(n₁.advanceCommit_frame _).config]
      exact (LeaderLease.recordAck_ok recorded).2.1.trans (before l role)
  | @lower l sender role =>
      have hold := before l role
      exact hold
  | vote candidate role =>
      rw [(voteFor_frame n candidate).config]
      exact before _ role
  | stay role => exact before _ role

end Node

namespace World

variable {M : Roster} {w w' : World} {action : Action}

/-- Every leader's lease is as long as it was configured. -/
def Leased (w : World) : Prop :=
  ∀ i r l, w.slot i = .up r → r.node.role = .leader l → l.lease.duration = r.node.config.lease

theorem Leased.put {i : NodeId} {slot : Slot} (h : w.Leased)
    (hslot : ∀ r l, slot = .up r → r.node.role = .leader l →
      l.lease.duration = r.node.config.lease) : (w.put i slot).Leased :=
  (Function.forall_update_iff w.slot fun _ slot => ∀ r l, slot = .up r →
      r.node.role = .leader l → l.lease.duration = r.node.config.lease).mpr
    ⟨hslot, fun j _ r l => h j r l⟩

theorem Beat.leased (hb : Beat M w action w') (h : w.Leased) : w'.Leased := by
  cases hb with
  | idle aside => exact h
  | @handle i r event now draw n' commands moment brings up handled =>
      refine h.put fun r' l' hr' role' => ?_
      obtain rfl := Slot.up.inj hr'
      rw [Replica.settle_eq] at role' ⊢
      exact (Node.handle_led handled role').duration fun l role => h i r l up role
  | @submit i r operation quiet up =>
      refine h.put fun r' l' hr' role' => ?_
      obtain rfl := Slot.up.inj hr'
      have htended := r.node.submit_tended operation
      rw [Replica.settle_eq] at role' ⊢
      have role : r.node.role = .leader l' := htended.role.symm.trans role'
      exact (h i r l' up role).trans (congrArg TimerConfig.lease htended.config).symm
  | @report i r quiet up =>
      refine h.put fun r' l' hr' role' => ?_
      obtain rfl := Slot.up.inj hr'
      exact h i r l' up role'
  | crash aside up => exact h.put fun r l hr => nomatch hr
  | wake quiet member down restored =>
      refine h.put fun r' l' hr' role' => ?_
      obtain rfl := Slot.up.inj hr'
      obtain ⟨f, role⟩ := Replica.restore_role restored
      exact nomatch role.symm.trans role'

end World

theorem Run.leased {M : Roster} (r : Run M) (k : Nat) : (r.state k).Leased := by
  induction k with
  | zero => exact fun i r l hr => nomatch hr
  | succ k ih =>
      obtain ⟨action, hbeat⟩ := r.exists_beat k
      exact hbeat.leased ih

/-- The log of a leader ends in the term that it leads. -/
theorem Scene.lastTerm_of_leads {M : Roster} {w : World} {s : Chronicle} {i : NodeId} {t : Term}
    (h : Scene M w s) (hl : w.Leads i t) : 0 < t ∧ (s.log i).lastTerm = t := by
  obtain ⟨_, hreign⟩ := h.reign_of_leads hl
  have hopened := (h.lawful.histories.reigned t _ hreign).opened
  exact ⟨(h.lawful.ballots.crowned t _ hreign).1,
    h.lawful.histories.issued_lastTerm ⟨_, hreign, List.prefix_rfl, hopened⟩⟩

/-! ## Clusters -/

namespace Cluster

variable {c : Cluster} {i j l : NodeId} {n m : Node} {lead : Leader}

theorem Attainable.seated (h : c.Attainable) : c.Seated := by
  induction h with
  | start call => exact start_seated call
  | obey _ call ih => exact ih.obey call
  | shuffle _ sent ih => exact ih
  | @deliver c c' m rest _ queue call ih =>
      have hpopped : Seated { c with inFlight := rest } := ih
      exact (hpopped.deliver m).holds _ call

theorem exists_replica (h : c.node? i = some n) : ∃ r, c.replica? i = some r ∧ r.node = n :=
  Option.map_eq_some_iff.mp h

/-- In a cluster all of whose members are up, and none of them beyond a term
that is not the last, no term is. -/
theorem inRange_of_le {term : Term} (lt : term < Word.max)
    (up : ∀ i < c.size, ∃ n, c.node? i = some n ∧ n.record.currentTerm ≤ term) : c.InRange := by
  intro m hm
  obtain ⟨i, hi, rfl⟩ := List.mem_iff_getElem.mp hm
  obtain ⟨n, hn, hle⟩ := up i hi
  obtain ⟨r, hr, rfl⟩ := exists_replica hn
  have hslot : c.members[i].slot = .up r := by
    have hsame := (slot?_of_member (List.getElem?_eq_getElem hi)).symm.trans
      (slot?_of_replica? hr)
    exact Option.some.inj hsame
  rw [hslot]
  exact Nat.lt_of_le_of_lt hle lt

/-! ## Leaders -/

section past

variable (attained : c.Attainable) (range : c.InRange)

include attained range

/-- A leader's lease is as long as it was configured, and each peer has a row. -/
theorem Attainable.incumbent (hn : c.node? i = some n) (role : n.role = .leader lead) :
    lead.lease.duration = n.config.lease ∧ lead.progress.map (·.peer) = distinct n.peers := by
  obtain ⟨run, k, hshadow⟩ := attained.exists_run range
  obtain ⟨r, hr, rfl⟩ := exists_replica hn
  exact ⟨run.leased k i r lead (hshadow.up hr) role,
    (run.tallied k i r lead (hshadow.up hr) role).rows⟩

/-- The logs of two members match. -/
theorem Attainable.log_matches (hn : c.node? i = some n) (hm : c.node? j = some m) :
    Log.Matches n.record.log m.record.log := by
  obtain ⟨w, s, hshadow, hscene⟩ := attained.exists_scene range
  obtain ⟨r, hr, rfl⟩ := exists_replica hn
  obtain ⟨r', hr', rfl⟩ := exists_replica hm
  have hsound := (hscene.lawful.histories.sound i).rooted.matches
    (hscene.lawful.histories.sound j).rooted
  rw [hscene.log, hscene.log, World.record_of_up (hshadow.up hr),
    World.record_of_up (hshadow.up hr')] at hsound
  exact hsound

theorem Attainable.commit_le_length (hn : c.node? i = some n) :
    n.record.commitLength ≤ n.record.log.length := by
  obtain ⟨w, s, hshadow, hscene⟩ := attained.exists_scene range
  obtain ⟨r, hr, rfl⟩ := exists_replica hn
  have hle := hscene.commit_le_length i
  rwa [World.record_of_up (hshadow.up hr)] at hle

/-- The store of a member is the replay of what it has committed. -/
theorem Attainable.store_eq {r : Replica MemoryStorage} (hr : c.replica? i = some r) :
    r.store = Store.replay (r.node.record.log.take r.node.record.commitLength) := by
  obtain ⟨w, s, hshadow, hscene⟩ := attained.exists_scene range
  have hcurrent := hscene.current i r (hshadow.up hr)
  rw [← hcurrent.applied]
  exact hcurrent.replayed

/-- The last entry of a leader's log is of its own term. -/
theorem Attainable.termAt_lastIndex (hn : c.node? l = some n) (leads : n.isLeader = true) :
    n.record.log.termAt n.lastIndex = n.record.currentTerm := by
  obtain ⟨w, s, hshadow, hscene⟩ := attained.exists_scene range
  obtain ⟨r, hr, rfl⟩ := exists_replica hn
  have hup := hshadow.up hr
  obtain ⟨hpos, hlast⟩ := hscene.lastTerm_of_leads ⟨r.node, congrArg Slot.node? hup, leads, rfl⟩
  rw [hscene.log, World.record_of_up hup] at hlast
  obtain ⟨p, e, hlog, hterm⟩ := Log.exists_concat_of_lastTerm hlast (Nat.ne_of_gt hpos)
  have hindex : r.node.lastIndex = p.length + 1 := by
    rw [Node.lastIndex, hlog, List.length_append, List.length_singleton]
  rw [hindex, hlog, Log.termAt, Log.entry?_concat]
  exact hterm

/-- Nobody's log goes on behind that of a leader whose term it has not passed:
what stood there would be of the leader's own term, so that of the leader. -/
theorem Attainable.log_eq_of_prefix (hn : c.node? l = some n) (leads : n.isLeader = true)
    (hm : c.node? j = some m) (older : m.record.currentTerm ≤ n.record.currentTerm)
    (hp : n.record.log <+: m.record.log) : m.record.log = n.record.log := by
  obtain ⟨w, s, hshadow, hscene⟩ := attained.exists_scene range
  obtain ⟨r, hr, rfl⟩ := exists_replica hn
  obtain ⟨r', hr', rfl⟩ := exists_replica hm
  have hup := hshadow.up hr
  have hleads : w.Leads l r.node.record.currentTerm :=
    ⟨r.node, congrArg Slot.node? hup, leads, rfl⟩
  obtain ⟨_, hreign⟩ := hscene.reign_of_leads hleads
  obtain ⟨hpos, hlast⟩ := hscene.lastTerm_of_leads hleads
  rw [hscene.log, World.record_of_up hup] at hreign hlast
  have hsound := hscene.lawful.histories.sound j
  rw [hscene.log, hscene.term, World.record_of_up (hshadow.up hr')] at hsound
  -- the longer log ends in the same term, so it is a part of the same reign
  have hsame : r'.node.record.log.lastTerm = r.node.record.currentTerm := by
    refine Nat.le_antisymm (Nat.le_trans (Log.lastTerm_le hsound.bounded) older) ?_
    rw [← hlast]
    exact Log.lastTerm_mono hsound.ordered hp
  obtain ⟨g, hg, hpart⟩ := hsound.rooted.exists_reign (hsame ▸ hpos)
  rw [hsame, hreign] at hg
  obtain rfl := Option.some.inj hg
  exact (hp.eq_of_length_le hpart.length_le).symm

end past

end Cluster

end Quorum
