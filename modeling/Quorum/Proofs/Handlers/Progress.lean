import Quorum.Proofs.Handlers.Rounds
import Quorum.Proofs.Handlers.Tallies

/-!
# What a round comes to for each peer

A leader has a row for each of its peers: how much of its log it believes the
peer to hold, and how much of it the peer has confirmed. This module says what
the three steps of an exchange in a round do, with the rows and with what is
committed on both sides: the leader begins the round (`Node.beat_cases`), a peer
in any role and of any earlier term answers (`Node.request_cases`), and the
leader takes note of the answer (`Node.Noted`). A leader commits what a quorum
has confirmed as soon as it knows (`Node.Prompt`).
-/

namespace Quorum

/-! ## Rows -/

namespace Leader

variable {l : Leader} {p peer : NodeId} {row : PeerProgress} {change : PeerProgress → PeerProgress}

/-- The row of a peer. -/
def row? (l : Leader) (p : NodeId) : Option PeerProgress := l.progress.find? (·.peer == p)

theorem sentTo?_of_row? (h : l.row? p = some row) : l.sentTo? p = some row.sent := by
  show (l.row? p).map (·.sent) = some row.sent
  rw [h]
  rfl

theorem peer_of_row? (h : l.row? p = some row) : row.peer = p := by
  simpa using List.find?_some h

theorem exists_row? (h : p ∈ l.progress.map (·.peer)) : ∃ row, l.row? p = some row := by
  obtain ⟨row, hrow, hp⟩ := List.mem_map.mp h
  have hfound : (l.row? p).isSome := List.find?_isSome.mpr ⟨row, hrow, by simpa using hp⟩
  exact Option.isSome_iff_exists.mp hfound

/-- Where no peer has two rows, the one that is found is the one there is. -/
theorem row?_of_mem (nodup : (l.progress.map (·.peer)).Nodup) (h : row ∈ l.progress) :
    l.row? row.peer = some row := by
  obtain ⟨row', hrow'⟩ := exists_row? (List.mem_map_of_mem h)
  have hmem : row' ∈ l.progress := List.mem_of_find?_eq_some hrow'
  have hsame : row' = row := List.inj_on_of_nodup_map nodup hmem h (peer_of_row? hrow')
  rw [hrow', hsame]

theorem row?_updatePeer (same : ∀ row, (change row).peer = row.peer) :
    (l.updatePeer peer change).row? p =
      (l.row? p).map fun row => if row.peer = peer then change row else row := by
  have hpeer : ((fun row : PeerProgress => row.peer == p) ∘
      fun row => if row.peer = peer then change row else row) = (·.peer == p) := by
    funext row
    show ((if row.peer = peer then change row else row).peer == p) = (row.peer == p)
    split
    · rw [same]
    · rfl
  rw [row?, updatePeer, List.find?_map, hpeer]
  rfl

theorem row?_updatePeer_self (same : ∀ row, (change row).peer = row.peer)
    (h : l.row? p = some row) : (l.updatePeer p change).row? p = some (change row) := by
  rw [row?_updatePeer same, h, Option.map_some, if_pos (peer_of_row? h)]

theorem row?_updatePeer_of_ne (same : ∀ row, (change row).peer = row.peer) (hne : p ≠ peer) :
    (l.updatePeer peer change).row? p = l.row? p := by
  rw [row?_updatePeer same]
  cases hrow : l.row? p with
  | none => rfl
  | some row => rw [Option.map_some, if_neg (peer_of_row? hrow ▸ hne)]

/-- How much of the leader's log a peer has confirmed. -/
def ackedBy (l : Leader) (p : NodeId) : LogIndex := ((l.row? p).map (·.acked)).getD 0

theorem ackedLengths_eq (nodup : (l.progress.map (·.peer)).Nodup) :
    l.ackedLengths = (l.progress.map (·.peer)).map l.ackedBy := by
  rw [ackedLengths, List.map_map]
  refine List.map_congr_left fun row hrow => ?_
  rw [Function.comp_apply, ackedBy, row?_of_mem nodup hrow]
  rfl

theorem ackedLengths_recordFailure (l : Leader) (peer : NodeId) :
    (l.recordFailure peer).ackedLengths = l.ackedLengths := by
  rw [ackedLengths, recordFailure, updatePeer, List.map_map]
  refine List.map_congr_left fun row _ => ?_
  simp only [Function.comp_apply]
  split <;> rfl

end Leader

namespace Node

variable {now start : Instant} {draw : Nat} {n n' : Node} {sender p : NodeId}
  {commands : List Command} {l l' : Leader} {length : LogIndex}

/-! ## What a quorum has confirmed -/

theorem distinct_perm {peers : List NodeId} (nodup : peers.Nodup) : (distinct peers).Perm peers :=
  (List.perm_ext_iff_of_nodup (nodup_distinct peers) nodup).mpr fun _ => mem_distinct

/-- As soon as a quorum has confirmed so much of the log, it is committed. -/
def Prompt (n : Node) (l : Leader) (length : LogIndex) : Prop :=
  n.quorum ≤ l.ackedLengths.countP (length ≤ ·) + 1 → length ≤ n.record.commitLength

/-- Committing makes a leader prompt, up to an entry of its own term. -/
theorem advanceCommit_prompt (own : n.record.log.termAt length = n.record.currentTerm)
    (hle : length ≤ n.lastIndex) (l : Leader) : (n.advanceCommit l).Prompt l length := by
  intro hquorum
  have hpeers : (n.advanceCommit l).quorum = n.quorum := by
    rw [quorum, clusterSize, (n.advanceCommit_frame l).peers]
    rfl
  rw [hpeers] at hquorum
  have hheld : length ≤ l.replicatedOn n.lastIndex n.quorum := by
    refine le_quorumLength (Nat.succ_pos _) ?_
    rw [List.countP_cons, if_pos (decide_eq_true hle)]
    exact hquorum
  rw [advanceCommit_commit]
  exact Nat.le_trans (Log.le_commitPoint own hheld hle) (Nat.le_max_right _ _)

theorem commit_le_advanceCommit (n : Node) (l : Leader) :
    n.record.commitLength ≤ (n.advanceCommit l).record.commitLength := by
  rw [advanceCommit_commit]
  exact Nat.le_max_left _ _

/-- What all peers have confirmed is committed. -/
theorem Prompt.commits (h : n.Prompt l length)
    (rows : l.progress.map (·.peer) = distinct n.peers) (nodup : n.peers.Nodup)
    (all : ∀ p ∈ n.peers, ∃ row, l.row? p = some row ∧ length ≤ row.acked) :
    length ≤ n.record.commitLength := by
  have hnodup : (l.progress.map (·.peer)).Nodup := rows ▸ nodup_distinct n.peers
  have hall : ∀ row ∈ l.progress, length ≤ row.acked := by
    intro row hrow
    have hpeer : row.peer ∈ n.peers :=
      mem_distinct.mp (rows ▸ List.mem_map_of_mem (f := (·.peer)) hrow)
    obtain ⟨row', hrow', hle⟩ := all row.peer hpeer
    rw [Leader.row?_of_mem hnodup hrow] at hrow'
    obtain rfl := Option.some.inj hrow'
    exact hle
  have hcount : l.ackedLengths.countP (length ≤ ·) = n.peers.length := by
    have hlength : l.progress.length = n.peers.length := by
      rw [← (distinct_perm nodup).length_eq, ← rows, List.length_map]
    rw [Leader.ackedLengths, List.countP_map, ← hlength, List.countP_eq_length]
    intro row hrow
    exact decide_eq_true (hall row hrow)
  refine h ?_
  rw [hcount, quorum, clusterSize]
  omega

/-! ## The round begins -/

/-- A leader that begins a round keeps its rows and its log, and asks each peer. -/
theorem beat_cases (role : n.role = .leader l) (duration : l.lease.duration = n.config.lease)
    (rows : l.progress.map (·.peer) = distinct n.peers)
    (h : n.handle .heartbeatTimeout now draw = .ok (n', commands)) :
    ∃ l', n'.InOffice l' now ∧ l'.progress = l.progress ∧ l'.lease.barrier = l.lease.barrier ∧
      n'.record.currentTerm = n.record.currentTerm ∧ n'.record.log = n.record.log ∧
      n.record.commitLength ≤ n'.record.commitLength ∧
      (∀ length, n.record.log.termAt length = n.record.currentTerm → length ≤ n.lastIndex →
        n'.Prompt l' length) ∧
      commands = n.roundRequests l' := by
  have hsend : n.sendHeartbeats l now = .ok (n', commands) := by
    rw [handle, heartbeatTimeout, role] at h
    exact h
  have hframe := (handle_deeds h).frame
  obtain ⟨lease, hbegun, rfl, rfl⟩ := sendHeartbeats_eq hsend
  obtain ⟨hbarrier, hduration, _, hstart, _⟩ := LeaderLease.beginRound_ok hbegun
  let l' : Leader := { l with heartbeatAt := now + n.config.heartbeat, lease }
  obtain ⟨hrole, _, hterm, hlog⟩ := (n.inRound l lease now).advanceCommit_same l'
  have hoffice : ((n.inRound l lease now).advanceCommit l').InOffice l' now := by
    refine ⟨hrole, ?_, hstart, ?_, fun p hp => ?_⟩
    · rw [hframe.config]
    · rw [hframe.config]
      exact hduration.trans duration
    · have hpeer : p ∈ l.progress.map (·.peer) := rows ▸ mem_distinct.mpr (hframe.peers ▸ hp)
      obtain ⟨row, hrow⟩ := Leader.exists_row? hpeer
      exact ⟨row.sent, Leader.sentTo?_of_row? hrow⟩
  refine ⟨l', hoffice, rfl, hbarrier, hterm, hlog, ?_, fun length own hle => ?_, rfl⟩
  · exact (n.inRound l lease now).commit_le_advanceCommit l'
  · exact advanceCommit_prompt (n := n.inRound l lease now) own hle l'

/-! ## A peer answers -/

/-- A node that has not got beyond the term of a request follows its sender, and
tells whether the entries fit. If they do, it commits as much of them as the
leader has. -/
theorem request_cases {q : AppendRequest} (older : n.record.currentTerm ≤ q.term)
    (h : n.handleMessage sender (.appendRequest q) now draw = .ok (n', commands)) :
    ∃ r : AppendReply, sends n.id commands = [⟨n.id, sender, .appendReply r⟩] ∧
      r.term = q.term ∧ n'.record.currentTerm = q.term ∧ n'.isLeader = false ∧
      q.Answered n.record.log n'.record.log r ∧
      (r.success = true → min q.commit r.acked ≤ n'.record.commitLength) := by
  obtain ⟨n₁, lost, said, hadopt, hresponse, rfl⟩ := handleMessage_responds h
  obtain ⟨hterm, hlog, hlost⟩ : n₁.record.currentTerm = q.term ∧
      n₁.record.log = n.record.log ∧ sends n.id lost = [] := by
    obtain ⟨_, rfl, rfl⟩ | ⟨hle, rfl, rfl⟩ := adoptTerm_cases hadopt
    · refine ⟨inTerm_term n _ now draw, ?_, sends_farewell n.id n none⟩
      rw [inTerm, asFollower_record]
      rfl
    · exact ⟨Nat.le_antisymm older hle, rfl, rfl⟩
  have hrecord := n₁.following_record q now draw
  have haccepts : (n₁.following q now draw).accepts q =
      n.record.log.holds q.prevIndex q.prevTerm := by
    rw [accepts_following hterm.symm, hlog]
  rw [sends_append, hlost, List.nil_append]
  cases hresponse with
  | reject stale => exact absurd hterm (Nat.ne_of_gt stale)
  | refuse current refused =>
      rw [sends_append, sends_farewell, List.nil_append]
      refine ⟨_, rfl, hterm, hrecord ▸ hterm, rfl, ?_, fun success => ?_⟩
      · rw [hrecord, hlog]
        exact .refused (haccepts ▸ refused) rfl
      · exact absurd success Bool.false_ne_true
  | accept current accepted =>
      rw [sends_append, sends_farewell, List.nil_append]
      obtain ⟨hrole, _, hsame⟩ := (n₁.following q now draw).accepting_same q
      refine ⟨_, rfl, hterm, ?_, isLeader_of_follower hrole, ?_, fun _ => ?_⟩
      · rw [hsame, hrecord]
        exact hterm
      · rw [accepting_record, hrecord, hlog]
        exact .confirmed (haccepts ▸ accepted) rfl rfl rfl
      · rw [accepting_record]
        exact Nat.le_max_right _ _

/-! ## The leader takes note -/

/-- What an answer makes of the sender's row. -/
def noted (r : AppendReply) (row : PeerProgress) : PeerProgress :=
  if r.success then { row with sent := r.acked, acked := max row.acked r.acked }
  else { row with sent := row.sent - 1 }

/-- A leader after it has taken note of an answer: it goes on with the row of the
sender changed, and is as prompt as before. -/
structure Noted (n : Node) (l : Leader) (sender : NodeId) (r : AppendReply) (n' : Node)
    (l' : Leader) : Prop where
  role : n'.role = .leader l'
  kept : l.Kept n.quorum l'
  barrier : l'.lease.barrier = l.lease.barrier
  peers : l'.progress.map (·.peer) = l.progress.map (·.peer)
  own : ∀ row, l.row? sender = some row → l'.row? sender = some (noted r row)
  others : ∀ p, p ≠ sender → l'.row? p = l.row? p
  log : n'.record.log = n.record.log
  commit : n.record.commitLength ≤ n'.record.commitLength
  prompt : ∀ length, n.record.log.termAt length = n.record.currentTerm → length ≤ n.lastIndex →
    n.Prompt l length → n'.Prompt l' length

/-- Taking note of an answer loses no row. -/
theorem Noted.rows {r : AppendReply} (h : n.Noted l sender r n' l') (p : NodeId)
    (sent : LogIndex) (hsent : l.sentTo? p = some sent) : ∃ sent', l'.sentTo? p = some sent' := by
  obtain ⟨row, hrow, _⟩ := Option.map_eq_some_iff.mp hsent
  by_cases hp : p = sender
  · subst hp
    exact ⟨_, Leader.sentTo?_of_row? (h.own row hrow)⟩
  · exact ⟨_, Leader.sentTo?_of_row? ((h.others p hp).trans hrow)⟩

theorem reply_cases {r : AppendReply} (role : n.role = .leader l)
    (current : r.term = n.record.currentTerm)
    (h : n.handleMessage sender (.appendReply r) now draw = .ok (n', commands)) :
    commands = [] ∧ ∃ l', n.Noted l sender r n' l' := by
  cases handleMessage_response h (Nat.le_of_eq current) with
  | ignore idle =>
      have hleads : n.isLeader = true := isLeader_iff.mpr ⟨l, role⟩
      rw [idle current] at hleads
      exact absurd hleads Bool.false_ne_true
  | @note l₀ _ lease renewed role' _ success recorded =>
      obtain rfl := Role.leader.inj (role.symm.trans role')
      let l' : Leader := { l.recordSuccess sender r.acked with lease }
      let n₁ : Node := { n with role := .leader l' }
      obtain ⟨hrole, _, _, hlog⟩ := n₁.advanceCommit_same l'
      refine ⟨rfl, l', hrole, kept_of_recordAck recorded, (LeaderLease.recordAck_ok recorded).1,
        l.peers_recordSuccess sender r.acked, fun row hrow => ?_, fun p hp => ?_, hlog,
        n₁.commit_le_advanceCommit l', fun length own hle _ => ?_⟩
      · rw [noted, if_pos success]
        exact Leader.row?_updatePeer_self (fun _ => rfl) hrow
      · exact Leader.row?_updatePeer_of_ne (fun _ => rfl) hp
      · exact advanceCommit_prompt (n := n₁) own hle l'
  | @lower l₀ _ role' _ failure =>
      obtain rfl := Role.leader.inj (role.symm.trans role')
      refine ⟨rfl, l.recordFailure sender, rfl, .of_recordFailure _ l sender, rfl,
        l.peers_recordFailure sender, fun row hrow => ?_, fun p hp => ?_, rfl, Nat.le_refl _,
        fun length _ _ prompt => ?_⟩
      · rw [noted, failure, if_neg Bool.false_ne_true]
        exact Leader.row?_updatePeer_self (fun _ => rfl) hrow
      · exact Leader.row?_updatePeer_of_ne (fun _ => rfl) hp
      · unfold Prompt
        rw [Leader.ackedLengths_recordFailure]
        exact prompt

end Node

end Quorum
