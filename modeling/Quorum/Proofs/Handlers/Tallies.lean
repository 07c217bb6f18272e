import Mathlib.Data.List.Perm.Subperm
import Quorum.Proofs.Handlers.Expiries
import Quorum.Proofs.Handlers.Replication
import Quorum.Proofs.Log.Matching

/-!
# What a leader has counted

A leader counts twice. The peers that have acknowledged its latest round renew
its lease, and the lengths that its peers have confirmed let it commit. A reply
that is counted in the first tally is counted in the second as well, and
confirms no less than the entry that opened the leader's term. So a leader
whose lease is confirmed has committed that entry (`Node.Tallies`).
-/

namespace Quorum

/-! ## Confirmed leases -/

namespace LeaderLease

variable {l l' : LeaderLease} {now : Instant} {duration prior : Duration} {quorum round : Nat}
  {peer : NodeId} {renewed : Bool}

theorem grant_confirmed (h : grant now duration prior = .ok l) : l.confirmed = false := by
  obtain ⟨barrier, _, h⟩ := exists_of_bind_ok h
  obtain ⟨expiresAt, _, h⟩ := exists_of_bind_ok h
  obtain rfl := Except.ok.inj h
  rfl

/-- A lease becomes confirmed by a quorum only. -/
theorem renew_confirmed (h : l.renew quorum = .ok (l', renewed)) (confirmed : l'.confirmed = true) :
    l.confirmed = true ∨ quorum ≤ l'.acks.length + 1 := by
  unfold renew at h
  split at h
  · obtain ⟨rfl, rfl⟩ := h
    exact .inl confirmed
  · next hquorum =>
      obtain ⟨expiresAt, _, h⟩ := exists_of_bind_ok h
      obtain ⟨rfl, rfl⟩ := h
      exact .inr (Nat.le_of_not_lt hquorum)

theorem beginRound_confirmed (h : l.beginRound now quorum = .ok l')
    (confirmed : l'.confirmed = true) : l.confirmed = true ∨ quorum ≤ l'.acks.length + 1 := by
  obtain ⟨⟨l'', renewed⟩, hrenew, h⟩ := exists_of_bind_ok h
  obtain rfl := Except.ok.inj h
  exact (renew_confirmed hrenew confirmed).imp id id

theorem recordAck_confirmed (h : l.recordAck peer round quorum = .ok (l', renewed))
    (confirmed : l'.confirmed = true) : l.confirmed = true ∨ quorum ≤ l'.acks.length + 1 := by
  unfold recordAck at h
  split at h
  · exact (renew_confirmed h confirmed).imp id id
  · obtain ⟨rfl, rfl⟩ := h
    exact .inl confirmed

end LeaderLease

namespace Leader

variable {l : Leader} {row : PeerProgress}

theorem peers_updatePeer (l : Leader) (peer : NodeId) {change : PeerProgress → PeerProgress}
    (same : ∀ row, (change row).peer = row.peer) :
    (l.updatePeer peer change).progress.map (·.peer) = l.progress.map (·.peer) := by
  rw [updatePeer, List.map_map]
  refine List.map_congr_left fun row _ => ?_
  simp only [Function.comp_apply]
  split
  · exact same row
  · rfl

theorem peers_recordSuccess (l : Leader) (peer : NodeId) (length : LogIndex) :
    (l.recordSuccess peer length).progress.map (·.peer) = l.progress.map (·.peer) :=
  l.peers_updatePeer peer fun _ => rfl

theorem peers_recordFailure (l : Leader) (peer : NodeId) :
    (l.recordFailure peer).progress.map (·.peer) = l.progress.map (·.peer) :=
  l.peers_updatePeer peer fun _ => rfl

theorem exists_row_recordSuccess (h : row ∈ l.progress) (peer : NodeId) (length : LogIndex) :
    ∃ row' ∈ (l.recordSuccess peer length).progress, row'.peer = row.peer ∧
      row.acked ≤ row'.acked ∧ (row.peer = peer → length ≤ row'.acked) := by
  refine ⟨_, List.mem_map_of_mem h, ?_⟩
  split
  · exact ⟨rfl, Nat.le_max_left _ _, fun _ => Nat.le_max_right _ _⟩
  · next hother => exact ⟨rfl, Nat.le_refl _, fun hsame => absurd hsame hother⟩

theorem exists_row_recordFailure (h : row ∈ l.progress) (peer : NodeId) :
    ∃ row' ∈ (l.recordFailure peer).progress, row'.peer = row.peer ∧
      row'.acked = row.acked := by
  refine ⟨_, List.mem_map_of_mem h, ?_⟩
  split <;> exact ⟨rfl, rfl⟩

end Leader

namespace Node

variable {now : Instant} {draw : Nat} {n n' n₂ : Node} {l l' : Leader} {event : Event}
  {sender receiver : NodeId} {message : Message} {operation : Operation}
  {commands said : List Command} {heard? : Option (NodeId × Message)}

/-! ## Where a term begins -/

/-- The index behind all entries of earlier terms, where those of the node's
own term begin. -/
def opening (n : Node) : LogIndex :=
  n.record.log.countP (·.term < n.record.currentTerm) + 1

theorem opening_congr (log : n'.record.log = n.record.log)
    (term : n'.record.currentTerm = n.record.currentTerm) : n'.opening = n.opening := by
  rw [opening, opening, log, term]

theorem opening_append (n : Node) (operation : Operation) :
    (n.append ⟨n.record.currentTerm, operation⟩).opening = n.opening := by
  show (n.record.log ++ [LogEntry.mk n.record.currentTerm operation]).countP
    (fun e => e.term < n.record.currentTerm) + 1 = n.opening
  rw [List.countP_append, opening]
  simp

/-- The entry that opened the node's term is in its log. -/
def Opened (n : Node) : Prop :=
  n.record.log.entry? n.opening = some (.noOp n.record.currentTerm)

theorem Opened.termAt (h : n.Opened) : n.record.log.termAt n.opening = n.record.currentTerm := by
  rw [Log.termAt, h]
  rfl

theorem Opened.le_lastIndex (h : n.Opened) : n.opening ≤ n.lastIndex :=
  Log.le_length_of_entry h

theorem advanceCommit_opening (n : Node) (l : Leader) :
    (n.advanceCommit l).opening = n.opening := by
  obtain ⟨_, _, hterm, hlog⟩ := n.advanceCommit_same l
  exact opening_congr hlog hterm

theorem Opened.of_advanceCommit (h : (n.advanceCommit l).Opened) : n.Opened := by
  obtain ⟨_, _, hterm, hlog⟩ := n.advanceCommit_same l
  unfold Opened at h
  rwa [advanceCommit_opening, hlog, hterm] at h

/-- Committing takes nothing back. -/
theorem advanceCommit_commit (n : Node) (l : Leader) :
    (n.advanceCommit l).record.commitLength =
      max n.record.commitLength (n.record.log.commitPoint n.record.currentTerm
        n.record.commitLength (l.replicatedOn n.lastIndex n.quorum)) :=
  congrArg (·.record.commitLength) (commitTo_core _)

/-! ## The two tallies -/

/-- Who is counted as having acknowledged the latest round has confirmed the
entry that opened the term. -/
structure Counts (n : Node) (l : Leader) : Prop where
  rows : l.progress.map (·.peer) = distinct n.peers
  nodup : l.lease.acks.Nodup
  acked : ∀ x ∈ l.lease.acks, ∃ row ∈ l.progress, row.peer = x ∧ n.opening ≤ row.acked

/-- A leader that has begun no round has counted nobody. -/
theorem Counts.of_acks_nil (rows : l.progress.map (·.peer) = distinct n.peers)
    (fresh : l.lease.acks = []) : n.Counts l where
  rows := rows
  nodup := fresh ▸ List.nodup_nil
  acked x hx := by
    rw [fresh] at hx
    exact nomatch hx

/-- The peers that are counted and the leader itself reach the opening. -/
theorem Counts.quorum_le_countP (h : n.Counts l) (opened : n.Opened)
    (quorum : n.quorum ≤ l.lease.acks.length + 1) :
    n.quorum ≤ (n.lastIndex :: l.ackedLengths).countP (n.opening ≤ ·) := by
  have hsubset : l.lease.acks ⊆ (l.progress.filter (n.opening ≤ ·.acked)).map (·.peer) := by
    intro x hx
    obtain ⟨row, hrow, rfl, hreach⟩ := h.acked x hx
    exact List.mem_map_of_mem (List.mem_filter.mpr ⟨hrow, decide_eq_true hreach⟩)
  have hle := (List.subperm_of_subset h.nodup hsubset).length_le
  rw [List.length_map, ← List.countP_eq_length_filter] at hle
  rw [List.countP_cons, if_pos (decide_eq_true opened.le_lastIndex), Leader.ackedLengths,
    List.countP_map]
  exact Nat.le_trans quorum (Nat.succ_le_succ hle)

/-- A leader whose latest round a quorum has acknowledged commits the entry
that opened its term. -/
theorem Counts.opening_le_commit (h : n.Counts l) (opened : n.Opened)
    (quorum : n.quorum ≤ l.lease.acks.length + 1) :
    n.opening ≤ (n.advanceCommit l).record.commitLength := by
  have hheld : n.opening ≤ l.replicatedOn n.lastIndex n.quorum :=
    le_quorumLength (Nat.succ_pos _) (h.quorum_le_countP opened quorum)
  rw [advanceCommit_commit]
  exact Nat.le_trans (Log.le_commitPoint opened.termAt hheld opened.le_lastIndex)
    (Nat.le_max_right _ _)

/-- A leader has counted as it should, and once its lease is confirmed the
entry that opened its term is committed. -/
structure Tallies (n : Node) (l : Leader) : Prop extends n.Counts l where
  committed : l.lease.confirmed = true → n.opening ≤ n.record.commitLength

/-- Whoever has just been counted, committing settles what is due. -/
theorem Counts.tallies (h : n.Counts l) (opened : n.Opened)
    (confirmed : l.lease.confirmed = true →
      n.opening ≤ n.record.commitLength ∨ n.quorum ≤ l.lease.acks.length + 1) :
    (n.advanceCommit l).Tallies l where
  rows := by rw [(n.advanceCommit_frame l).peers]; exact h.rows
  nodup := h.nodup
  acked := by rw [advanceCommit_opening]; exact h.acked
  committed hlease := by
    rw [advanceCommit_opening]
    rcases confirmed hlease with hbefore | hquorum
    · rw [advanceCommit_commit]
      exact Nat.le_trans hbefore (Nat.le_max_left _ _)
    · exact h.opening_le_commit opened hquorum

/-! ## How a node comes to lead, or goes on -/

/-- How a node comes out of an event as a leader. -/
inductive Led (now : Instant) (event : Event) (n : Node) : Node → Leader → Prop
  /-- It has won, and begun its first round. -/
  | win {m : Node} {prior : Duration} {lease₀ lease : LeaderLease}
      (granted : LeaderLease.grant now m.config.lease prior = .ok lease₀)
      (begun : lease₀.beginRound now m.quorum = .ok lease) :
      Led now event n
        ((m.crowned lease now).advanceCommit
          (.start m.peers m.lastIndex (now + m.config.heartbeat) lease))
        (.start m.peers m.lastIndex (now + m.config.heartbeat) lease)
  | round {l : Leader} {lease : LeaderLease} (role : n.role = .leader l)
      (begun : l.lease.beginRound now n.quorum = .ok lease) :
      Led now event n
        ((n.inRound l lease now).advanceCommit
          { l with heartbeatAt := now + n.config.heartbeat, lease })
        { l with heartbeatAt := now + n.config.heartbeat, lease }
  | note {l : Leader} {sender : NodeId} {r : AppendReply} {lease : LeaderLease} {renewed : Bool}
      (role : n.role = .leader l) (heard : event = .message sender (.appendReply r))
      (success : r.success = true) (current : r.term = n.record.currentTerm)
      (recorded : l.lease.recordAck sender r.round n.quorum = .ok (lease, renewed)) :
      Led now event n
        ({ n with role := .leader { l.recordSuccess sender r.acked with lease } }.advanceCommit
          { l.recordSuccess sender r.acked with lease })
        { l.recordSuccess sender r.acked with lease }
  | lower {l : Leader} (sender : NodeId) (role : n.role = .leader l) :
      Led now event n { n with role := .leader (l.recordFailure sender) } (l.recordFailure sender)
  | vote {l : Leader} (candidate : NodeId) (role : n.role = .leader l) :
      Led now event n (n.voteFor candidate) l
  | stay {l : Leader} (role : n.role = .leader l) : Led now event n n l

theorem Expiry.led {timer : Timer} (h : Expiry now draw n timer n' said)
    (role : n'.role = .leader l) : Led now event n n' l := by
  cases h with
  | idle => exact .stay role
  | stand free => exact nomatch role
  | fail free => exact nomatch role
  | win free granted begun =>
      obtain rfl := Role.leader.inj ((commitTo_same _ _).1.symm.trans role)
      exact .win granted begun
  | lose role' tallying passed => exact nomatch role
  | round role' begun =>
      obtain rfl := Role.leader.inj ((commitTo_same _ _).1.symm.trans role)
      exact .round role' begun
  | resign role' expired =>
      obtain ⟨f, hf⟩ := n.asFollower_role none now draw
      exact nomatch hf.symm.trans role

theorem Response.led (h : Response now draw n sender message n' said)
    (role : n'.role = .leader l) : Led now (.message sender message) n n' l := by
  cases h with
  | grant grants => exact .vote _ ((voteFor_role n _).symm.trans role)
  | deny grants => exact .stay role
  | discard idle => exact .stay role
  | count role' tallying current => exact nomatch role
  | lose role' tallying current => exact nomatch role
  | win role' tallying current majority granted begun =>
      obtain rfl := Role.leader.inj ((commitTo_same _ _).1.symm.trans role)
      exact .win granted begun
  | reject stale => exact .stay role
  | refuse current accepts => exact nomatch role
  | accept current accepts => exact nomatch (accepting_same _ _).1.symm.trans role
  | ignore idle => exact .stay role
  | note role' current success recorded =>
      obtain rfl := Role.leader.inj ((commitTo_same _ _).1.symm.trans role)
      exact .note role' rfl success current recorded
  | lower role' current failure =>
      obtain rfl := Role.leader.inj role
      exact .lower sender role'

theorem handle_led (h : n.handle event now draw = .ok (n', commands))
    (role : n'.role = .leader l) : Led now event n n' l := by
  cases event with
  | electionTimeout => exact (timer_expires .election h).led role
  | voteRoundTimeout => exact (timer_expires .voteRound h).led role
  | heartbeatTimeout => exact (timer_expires .heartbeat h).led role
  | leaseTimeout => exact (timer_expires .leaseExpiry h).led role
  | message sender message =>
      -- a message of a newer term leaves no leader behind
      rcases Nat.lt_or_ge n.record.currentTerm message.term with newer | older
      · exact ((handleMessage_idle h (.inr newer)).not_leader role).elim
      · exact (handleMessage_response h older).led role

/-! ## Every event -/

theorem Counts.note {lease : LeaderLease} {renewed : Bool} {round length : Nat} (h : n.Counts l)
    (recorded : l.lease.recordAck sender round n.quorum = .ok (lease, renewed))
    (peer : sender ∈ n.peers) (reached : n.opening ≤ length) :
    Counts { n with role := .leader { l.recordSuccess sender length with lease } }
      { l.recordSuccess sender length with lease } := by
  obtain ⟨_, _, _, _, hacks⟩ := LeaderLease.recordAck_ok recorded
  have hkept : ∀ x ∈ l.lease.acks, ∃ row ∈ (l.recordSuccess sender length).progress,
      row.peer = x ∧ n.opening ≤ row.acked := by
    intro x hx
    obtain ⟨row, hrow, rfl, hreach⟩ := h.acked x hx
    obtain ⟨row', hrow', hpeer, hle, _⟩ := Leader.exists_row_recordSuccess hrow sender length
    exact ⟨row', hrow', hpeer, Nat.le_trans hreach hle⟩
  refine ⟨(l.peers_recordSuccess sender length).trans h.rows, ?_, ?_⟩
  · rcases hacks with hsame | ⟨hcons, _, hnew⟩
    · exact hsame ▸ h.nodup
    · exact hcons ▸ List.nodup_cons.mpr ⟨hnew, h.nodup⟩
  · show ∀ x ∈ lease.acks, _
    rcases hacks with hsame | ⟨hcons, _, _⟩
    · exact hsame ▸ hkept
    · rw [hcons]
      intro x hx
      rcases List.mem_cons.mp hx with rfl | hx
      · -- every peer has a row, and that of the sender now reaches what it confirmed
        obtain ⟨row, hrow, rfl⟩ := List.mem_map.mp (h.rows ▸ mem_distinct.mpr peer)
        obtain ⟨row', hrow', hpeer, _, hnow⟩ :=
          Leader.exists_row_recordSuccess hrow row.peer length
        exact ⟨row', hrow', hpeer, Nat.le_trans reached (hnow rfl)⟩
      · exact hkept x hx

theorem Tallies.lower (h : n.Tallies l) (sender : NodeId) :
    Tallies { n with role := .leader (l.recordFailure sender) } (l.recordFailure sender) where
  rows := (l.peers_recordFailure sender).trans h.rows
  nodup := h.nodup
  acked x hx := by
    obtain ⟨row, hrow, rfl, hreach⟩ := h.acked x hx
    obtain ⟨row', hrow', hpeer, hsame⟩ := Leader.exists_row_recordFailure hrow sender
    exact ⟨row', hrow', hpeer, hsame ▸ hreach⟩
  committed := h.committed

theorem Tallies.vote (h : n.Tallies l) (candidate : NodeId) :
    (n.voteFor candidate).Tallies l := by
  unfold voteFor
  split
  · exact h
  · exact ⟨⟨h.rows, h.nodup, h.acked⟩, h.committed⟩

/-- A node that leads has its tallies in order after every event, provided that
replies which count confirm the opening of the term. -/
theorem Led.tallies (h : Led now event n n' l') (before : ∀ l, n.role = .leader l → n.Tallies l)
    (replies : ∀ l sender r, n.role = .leader l → event = .message sender (.appendReply r) →
      r.success = true → r.term = n.record.currentTerm →
      sender ∈ n.peers ∧ n.opening ≤ r.acked) (opened : n'.Opened) : n'.Tallies l' := by
  cases h with
  | @win m prior lease₀ lease granted begun =>
      have hcounts : (m.crowned lease now).Counts
          (.start m.peers m.lastIndex (now + m.config.heartbeat) lease) := by
        refine .of_acks_nil ?_ (LeaderLease.beginRound_ok begun).2.2.2.2
        rw [Leader.start, List.map_map]
        exact List.map_id _
      refine hcounts.tallies opened.of_advanceCommit fun confirmed => .inr ?_
      refine (LeaderLease.beginRound_confirmed begun confirmed).resolve_left fun hbefore => ?_
      exact Bool.false_ne_true ((LeaderLease.grant_confirmed granted).symm.trans hbefore)
  | @round l lease role begun =>
      have hold := before l role
      have hcounts : (n.inRound l lease now).Counts
          { l with heartbeatAt := now + n.config.heartbeat, lease } :=
        .of_acks_nil hold.rows (LeaderLease.beginRound_ok begun).2.2.2.2
      exact hcounts.tallies opened.of_advanceCommit fun confirmed =>
        (LeaderLease.beginRound_confirmed begun confirmed).imp_left hold.committed
  | @note l sender r lease renewed role heard success current recorded =>
      have hold := before l role
      obtain ⟨hpeer, hreached⟩ := replies l sender r role heard success current
      exact (hold.note recorded hpeer hreached).tallies opened.of_advanceCommit fun confirmed =>
        (LeaderLease.recordAck_confirmed recorded confirmed).imp_left hold.committed
  | lower sender role => exact (before _ role).lower sender
  | vote candidate role => exact (before _ role).vote candidate
  | stay role => exact before _ role

/-- So has one that appends what a client asks for. -/
theorem submit_tallies (role : n.role = .leader l) (before : n.Tallies l)
    (opened : (n.submit operation).1.Opened) : (n.submit operation).1.Tallies l := by
  have hsubmit : (n.submit operation).1 =
      (n.append ⟨n.record.currentTerm, operation⟩).advanceCommit l := by
    rw [submit, role]
  rw [hsubmit] at opened ⊢
  have hopening := n.opening_append operation
  have hcounts : (n.append ⟨n.record.currentTerm, operation⟩).Counts l :=
    ⟨before.rows, before.nodup, by rw [hopening]; exact before.acked⟩
  refine hcounts.tallies opened.of_advanceCommit fun confirmed => .inl ?_
  rw [hopening]
  exact before.committed confirmed

end Node

end Quorum
