import Quorum.Proofs.Handlers.Merging
import Quorum.Proofs.Handlers.Progress

/-!
# Requests as merges

What a node makes of any request to append entries, in terms of its log before
and after (`append_request_merges`): when the request succeeds, which part of
the old log and which of the new entries are in the new log, how much of it is
committed, and whether anything has to be saved.
-/

namespace Quorum

/-- What a node makes of a request to append entries, and what it replies. -/
structure AppendRequest.Merges (q : AppendRequest) (n n' : Node) (r : AppendReply) : Prop where
  term : n'.record.currentTerm = max n.record.currentTerm q.term
  vote : n'.record.votedFor =
    if n.record.currentTerm < q.term then none else n.record.votedFor
  reply : r.term = n'.record.currentTerm ∧ r.round = q.round
  /-- The request succeeds in its own term, if the log has the entry that it
  builds on. -/
  success : r.success = true ↔
    q.term = n'.record.currentTerm ∧ q.prevIndex ≤ n.record.log.length ∧
      (q.prevIndex = 0 ∨ ∃ e, n.record.log.entry? q.prevIndex = some e ∧ e.term = q.prevTerm)
  /-- The old log stays if the entries end before they part from it. -/
  log : r.success = true → ∃ k, Log.PartAt (n.record.log.drop q.prevIndex) q.entries k ∧
    n'.record.log = if k = q.entries.length then n.record.log
      else n.record.log.take (q.prevIndex + k) ++ q.entries.drop k
  acked : r.success = true →
    r.acked = q.prevIndex + q.entries.length ∧ r.acked ≤ n'.record.log.length
  commit : r.success = true →
    n'.record.commitLength = max n.record.commitLength (min q.commit r.acked)
  refusal : r.success = false →
    n'.record.log = n.record.log ∧ n'.record.commitLength = n.record.commitLength ∧ r.acked = 0
  /-- The record is marked for saving if and only if it has changed, or was
  marked before. -/
  marked : n'.unsaved = true ↔ n.unsaved = true ∨ n'.record ≠ n.record

namespace Node

variable {now : Instant} {draw : Nat} {n n' n₁ : Node} {sender : NodeId} {q : AppendRequest}
  {lost said : List Command} {r : AppendReply}

/-- A newer term leaves the log and what is committed of it. -/
theorem adoptTerm_merges (h : n.adoptTerm q.term now draw = .ok (n₁, lost))
    (merges : q.Merges n₁ n' r) : q.Merges n n' r := by
  obtain ⟨newer, rfl, _⟩ | ⟨older, rfl, _⟩ := adoptTerm_cases h
  · have hrecord := inTerm_record n q.term now draw
    have hterm : n'.record.currentTerm = q.term := by
      rw [merges.term, inTerm_term, Nat.max_self]
    obtain ⟨_, hvote, hreply, hsuccess, hlog, hacked, hcommit, hrefusal, hmarked⟩ := merges
    rw [hrecord] at hvote hsuccess hlog hcommit hrefusal
    refine ⟨?_, ?_, hreply, hsuccess, hlog, hacked, hcommit, hrefusal, ?_⟩
    · rw [hterm, Nat.max_eq_right (Nat.le_of_lt newer)]
    · rw [hvote, if_neg (Nat.lt_irrefl _), if_pos newer]
    · refine (inTerm_marked newer).trans hmarked fun hsame => ?_
      exact absurd (hterm.symm.trans (congrArg Record.currentTerm hsame)) (Nat.ne_of_gt newer)
  · exact merges

/-- A request that is refused changes nothing. -/
theorem merges_of_refused (older : q.term ≤ n.record.currentTerm)
    (misfit : ¬ (q.term = n.record.currentTerm ∧
      n.record.log.holds q.prevIndex q.prevTerm = true))
    (hrecord : n'.record = n.record) (hunsaved : n'.unsaved = n.unsaved) :
    q.Merges n n' ⟨n.record.currentTerm, false, 0, q.round⟩ where
  term := by rw [hrecord, Nat.max_eq_left older]
  vote := by rw [hrecord, if_neg (Nat.not_lt.mpr older)]
  reply := ⟨hrecord ▸ rfl, rfl⟩
  success := by
    rw [hrecord, ← Log.holds_iff]
    exact iff_of_false Bool.false_ne_true misfit
  log success := absurd success Bool.false_ne_true
  acked success := absurd success Bool.false_ne_true
  commit success := absurd success Bool.false_ne_true
  refusal _ := by
    rw [hrecord]
    exact ⟨rfl, rfl, rfl⟩
  marked := Marked.of_same hunsaved hrecord

theorem merges_of_accepted (current : q.term = n.record.currentTerm)
    (fits : n.record.log.holds q.prevIndex q.prevTerm = true) :
    q.Merges n (n.accepting q)
      ⟨n.record.currentTerm, true, q.prevIndex + q.entries.length, q.round⟩ := by
  obtain ⟨k, hpart, _⟩ := Log.exists_partAt (n.record.log.drop q.prevIndex) q.entries
  have hrecord := n.accepting_record q
  have hlength : q.prevIndex ≤ n.record.log.length := (Log.holds_iff.mp fits).1
  constructor
  case term => rw [hrecord, current, Nat.max_self]
  case vote => rw [hrecord, current, if_neg (Nat.lt_irrefl _)]
  case reply => exact ⟨hrecord ▸ rfl, rfl⟩
  case success =>
    rw [hrecord, ← Log.holds_iff]
    exact iff_of_true rfl ⟨current, fits⟩
  case log =>
    intro _
    rw [hrecord]
    exact ⟨k, hpart, Log.splice_of_partAt hpart⟩
  case acked =>
    intro _
    rw [hrecord]
    exact ⟨rfl, Log.le_length_splice hlength⟩
  case commit =>
    intro _
    rw [hrecord]
  case refusal => exact fun failure => nomatch failure
  case marked => exact n.accepting_marked q

/-- Following a leader is of no matter for the record. -/
theorem following_merges (merges : q.Merges (n.following q now draw) n' r) : q.Merges n n' r := by
  have hrecord := n.following_record q now draw
  have hunsaved : (n.following q now draw).unsaved = n.unsaved := asFollower_unsaved n _ now draw
  obtain ⟨hterm, hvote, hreply, hsuccess, hlog, hacked, hcommit, hrefusal, hmarked⟩ := merges
  rw [hrecord] at hterm hvote hsuccess hlog hcommit hrefusal hmarked
  rw [hunsaved] at hmarked
  exact ⟨hterm, hvote, hreply, hsuccess, hlog, hacked, hcommit, hrefusal, hmarked⟩

theorem farewell_lost (n : Node) (leader? : Option NodeId) :
    ∀ c ∈ n.farewell leader?, c = .leadershipLost leader? := by
  intro c hc
  unfold farewell at hc
  split at hc
  · exact List.mem_singleton.mp hc
  · exact nomatch hc

/-- A request of no newer term is answered by a merge. -/
theorem Response.merges (h : Response now draw n sender (.appendRequest q) n' said)
    (older : q.term ≤ n.record.currentTerm) :
    ∃ lost r, said = lost ++ [.send sender (.appendReply r)] ∧
      (∀ c ∈ lost, ∃ leader?, c = .leadershipLost leader?) ∧ q.Merges n n' r := by
  have hlost := n.farewell_lost (some q.leader)
  cases h with
  | reject stale =>
      refine ⟨[], _, rfl, List.forall_mem_nil _, merges_of_refused older ?_ rfl rfl⟩
      exact fun current => Nat.ne_of_lt stale current.1
  | refuse current refused =>
      refine ⟨_, _, rfl, fun c hc => ⟨_, hlost c hc⟩, merges_of_refused older ?_ ?_ ?_⟩
      · rintro ⟨_, fits⟩
        rw [accepts_following current, fits] at refused
        exact Bool.false_ne_true refused.symm
      · exact n.following_record q now draw
      · exact asFollower_unsaved n _ now draw
  | accept current accepted =>
      rw [accepts_following current] at accepted
      have hmerges := merges_of_accepted (n := n.following q now draw) (q := q)
      rw [following_record] at hmerges
      exact ⟨_, _, rfl, fun c hc => ⟨_, hlost c hc⟩,
        following_merges (hmerges current accepted)⟩

end Node

/-- Every request to append entries is merged into the log of the node that gets
it, whatever the node is and whatever the request asks, as long as the clock
reaches the deadlines that it sets: the node replies, and gives up at most its
leadership along the way. -/
theorem append_request_merges (n : Node) (sender : NodeId) (q : AppendRequest) (now : Instant)
    (draw : Nat)
    (inTime : n.record.currentTerm ≤ q.term →
      now + n.config.electionTimeout draw < Instant.limit ∧ now + q.lease < Instant.limit) :
    ∃ n' lost r, n.handleAppendRequest sender q now draw =
        .ok (n', lost ++ [.send sender (.appendReply r)]) ∧
      (∀ c ∈ lost, ∃ leader?, c = .leadershipLost leader?) ∧ q.Merges n n' r := by
  obtain ⟨⟨n', commands⟩, h⟩ : ∃ result, n.handleAppendRequest sender q now draw = .ok result :=
    Node.handleAppendRequest_returns inTime
  obtain ⟨n₁, lost, said, hadopt, hresponse, rfl⟩ := Node.handleAppendRequest_responds h
  obtain ⟨ousted, r, rfl, housted, hmerges⟩ := hresponse.merges (Node.le_adopted_term hadopt)
  refine ⟨n', lost ++ ousted, r, ?_, ?_, Node.adoptTerm_merges hadopt hmerges⟩
  · rw [h, List.append_assoc]
  · -- a newer term ends the leadership, and so does a leader in the same term
    intro c hc
    rcases List.mem_append.mp hc with hc | hc
    · obtain ⟨_, _, rfl⟩ | ⟨_, _, rfl⟩ := Node.adoptTerm_cases hadopt
      · exact ⟨_, n.farewell_lost none c hc⟩
      · exact nomatch hc
    · exact housted c hc

/-! ## A leader of the past -/

/-- A leader of term 2, of three nodes, that has two entries committed. -/
def Node.outdated : Node where
  id := 1
  peers := [2, 3]
  config := {}
  record := {
    commitLength := 2
    currentTerm := 2
    votedFor := some 1
    log := [.noOp 1, .set 1 "a" "1", .noOp 2] }
  lastApplied := 2
  role := .leader {
    progress := [⟨2, 2, 2⟩, ⟨3, 3, 0⟩]
    heartbeatAt := Duration.second
    lease := {
      duration := Duration.ofMilliseconds 2500
      barrier := 0
      expiresAt := Duration.ofMilliseconds 2500
      confirmed := true
      round := 2
      roundStartedAt := 0
      acks := [2] } }
  priorLease := {}
  unsaved := false

/-- The leader of term 3 has the first two entries too, and another third one. -/
def AppendRequest.correcting : AppendRequest where
  term := 3
  leader := 2
  prevIndex := 1
  prevTerm := 1
  entries := [.set 1 "a" "1", .noOp 3, .set 3 "b" "2"]
  commit := 4
  lease := Duration.ofMilliseconds 2500
  round := 1

/-- The first of its entries stays, and the other two replace the last one. -/
theorem append_request_merges_of_outdated :
    ∃ n' lost r, Node.outdated.handleAppendRequest 2 .correcting 0 0 =
        .ok (n', lost ++ [.send 2 (.appendReply r)]) ∧
      (∀ c ∈ lost, ∃ leader?, c = .leadershipLost leader?) ∧
      AppendRequest.correcting.Merges .outdated n' r ∧ r.success = true ∧
      n'.record.log = [.noOp 1, .set 1 "a" "1", .noOp 3, .set 3 "b" "2"] ∧
      n'.record.commitLength = 4 ∧ n'.unsaved = true := by
  have inTime : Node.outdated.record.currentTerm ≤ AppendRequest.correcting.term →
      0 + Node.outdated.config.electionTimeout 0 < Instant.limit ∧
        0 + AppendRequest.correcting.lease < Instant.limit := by decide
  obtain ⟨n', lost, r, h, hlost, hmerges⟩ :=
    append_request_merges .outdated 2 .correcting 0 0 inTime
  have hrun : ∃ result, Node.outdated.handleAppendRequest 2 .correcting 0 0 = .ok result ∧
      result.1.record.log = [.noOp 1, .set 1 "a" "1", .noOp 3, .set 3 "b" "2"] ∧
      result.1.record.commitLength = 4 ∧ result.1.unsaved = true ∧
      result.1.record.currentTerm = 3 := by decide
  obtain ⟨result, hresult, hlog, hcommit, hunsaved, hterm⟩ := hrun
  obtain rfl := Except.ok.inj (h.symm.trans hresult)
  have hsuccess : r.success = true :=
    hmerges.success.mpr ⟨hterm.symm, by decide, .inr ⟨.noOp 1, by decide, by decide⟩⟩
  exact ⟨n', lost, r, h, hlost, hmerges, hsuccess, hlog, hcommit, hunsaved⟩

end Quorum
