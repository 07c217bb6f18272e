import Quorum.Proofs.Cluster.Enactment

/-!
# Recovery from a crash

A member that crashes and starts over is where it was, but for its role: it
follows, and knows of no leader (`recovery_exact`). The record was saved when
the last event ended, so none of it is lost. The store was built up entry by
entry while the log changed; it is built anew from the log as it is, and the
same comes out since what is applied is committed, and stays.
-/

namespace Quorum

namespace Replica

/-- What a replica that has started over has in common with what it was. -/
structure Recovers (r r' : Replica MemoryStorage) : Prop where
  /-- It follows, and knows of no leader. -/
  follows : ∃ electionAt, r'.node.role = .follower ⟨none, electionAt⟩
  id : r'.node.id = r.node.id
  peers : r'.node.peers = r.node.peers
  record : r'.node.record = r.node.record
  lastApplied : r'.node.lastApplied = r.node.lastApplied
  store : r'.store = r.store
  storage : r'.storage = r.storage
  /-- No entry is left to apply, and none counts as applied since. -/
  rests : r'.node.unapplied = [] ∧ r'.takeApplied.1 = []

variable {M : Roster} {i : NodeId} {r : Replica MemoryStorage} {n : Node} {config : TimerConfig}
  {now : Instant} {draw : Nat}

theorem Current.unapplied (h : r.Current) : r.node.unapplied = [] := by
  rw [Node.unapplied, h.applied, Nat.sub_self, List.take_zero]

/-- Who wakes up over what a replica had saved between events is where that
replica was. -/
theorem Current.recovers (h : r.Current) (kept : r.Kept M i)
    (hcommit : r.node.record.commitLength ≤ r.node.record.log.length)
    (restored : Node.restore i (M.peers i) config r.storage.record now draw = .ok n) :
    r.Recovers (Replica.wake n r.storage) := by
  obtain ⟨hid, hpeers, happlied, _, hcore⟩ := restore_ok restored
  have hsaved : n.record = r.node.record := by
    rw [h.stored] at hcore
    have hrecord : n.record = _ := congrArg Core.record hcore
    rw [hrecord, Nat.min_eq_left hcommit]
  have hwoken : (Replica.wake n r.storage).Current :=
    .wake (hsaved.trans h.stored.symm) (hsaved ▸ hcommit) happlied
  have hlast : (Replica.wake n r.storage).node.lastApplied = r.node.lastApplied := by
    rw [hwoken.applied, h.applied]
    exact congrArg Record.commitLength hsaved
  constructor
  case follows =>
    obtain ⟨electionAt, _, hn⟩ := exists_of_bind_ok restored
    obtain rfl := Except.ok.inj hn
    exact ⟨electionAt, rfl⟩
  case id => exact hid.trans kept.id.symm
  case peers =>
    rw [kept.seated.peers, kept.id]
    exact hpeers
  case record => exact hsaved
  case lastApplied => exact hlast
  case store =>
    -- both stores are replays of what is committed
    rw [hwoken.replayed, h.replayed, hlast]
    exact congrArg (fun record => Store.replay (record.log.take r.node.lastApplied)) hsaved
  case storage => rfl
  case rests => exact ⟨hwoken.unapplied, rfl⟩

end Replica

namespace Cluster

variable {c : Cluster} {i : Nat} {r : Replica MemoryStorage}

theorem crash_up (h : c.replica? i = some r) :
    c.crash i = .ok (c.modify i fun _ => { slot := .down r.storage }) := by
  unfold replica? at h
  split at h
  · next hm =>
      obtain rfl := Option.some.inj h
      rw [crash, hm]
  · exact nomatch h

theorem member_modify_self {change : Member → Member} {m : Member}
    (h : c.members[i]? = some m) : (c.modify i change).members[i]? = some (change m) := by
  rw [modify, List.getElem?_modify_eq, h]
  rfl

/-- A member that wakes up is the replica that its storage makes. -/
theorem restart_down {storage : MemoryStorage}
    (h : c.members[i]? = some { slot := .down storage }) :
    Ensures (c.now + c.config.electionTimeout (c.draws c.drawn) < Instant.limit) (c.restart i)
      fun c' => ∃ n, Node.restore i (peersOf c.size i) c.config storage.record c.now
          (c.draws c.drawn) = .ok n ∧ c'.replica? i = some (Replica.wake n storage) := by
  have hcall : c.restart i = (do
      let replica ← boot c.config c.size i storage c.now (c.draws c.drawn)
      return { c.setReplica i replica with drawn := c.drawn + 1 }) := by rw [restart, h]
  rw [hcall]
  constructor
  · intro c' call
    obtain ⟨r', hboot, call⟩ := exists_of_bind_ok call
    obtain rfl := Except.ok.inj call
    obtain ⟨result, hresult, rfl⟩ := boot_ok hboot
    obtain ⟨n, hn, hwake⟩ := Replica.boot_ok hresult
    refine ⟨n, hn, ?_⟩
    show (c.setReplica i _).replica? i = _
    rw [replica?, setReplica, member_modify_self h, hwake]
  · intro inTime
    obtain ⟨electionAt, harmed⟩ := (Instant.after_ensures _ _).returns inTime
    have hn : ∃ n, Node.restore i (peersOf c.size i) c.config storage.record c.now
        (c.draws c.drawn) = .ok n := by
      rw [Node.restore, harmed]
      exact ⟨_, rfl⟩
    obtain ⟨n, hn⟩ := hn
    have hboot : Replica.boot i (peersOf c.size i) c.config storage c.now (c.draws c.drawn) =
        .ok (.ok (Replica.wake n storage)) := by
      rw [Replica.boot, MemoryStorage.load_eq]
      simp only [hn]
      rfl
    rw [boot, hboot]
    exact ⟨_, rfl⟩

/-- Recovery from a crash is exact. Whatever has happened in a cluster, in any
order and with whatever losses, a member that crashes and starts over has the
record, the last index applied and the store that it had; it follows and knows
of no leader, and it reports nothing as applied. It does start over unless the
clock ends before its election timeout. -/
theorem recovery_exact (attained : c.Attainable) (range : c.InRange)
    (up : c.replica? i = some r) :
    ∃ c₁, c.crash i = .ok c₁ ∧ c₁.replica? i = none ∧
      (c.now + c.config.electionTimeout (c.draws c.drawn) < Instant.limit →
        ∃ c₂, c₁.restart i = .ok c₂) ∧
      ∀ c₂, c₁.restart i = .ok c₂ → ∃ r', c₂.replica? i = some r' ∧ r.Recovers r' := by
  obtain ⟨w, s, hshadow, hscene⟩ := attained.exists_scene range
  have hslot : w.slot i = .up r := hshadow.slots i _ (slot?_of_replica? up)
  have hcommit := hscene.commit_le_length i
  rw [World.record_of_up hslot] at hcommit
  obtain ⟨m, hm, _⟩ := Option.map_eq_some_iff.mp (slot?_of_replica? up)
  have hdown : (c.modify i fun _ => { slot := .down r.storage }).members[i]? =
      some { slot := .down r.storage } := member_modify_self hm
  refine ⟨_, crash_up up, ?_, (restart_down hdown).returns, fun c₂ call => ?_⟩
  · rw [replica?, hdown]
  · obtain ⟨n, restored, hup⟩ := (restart_down hdown).holds c₂ call
    rw [size_modify] at restored
    exact ⟨_, hup,
      (hscene.current i r hslot).recovers (hscene.kept i r hslot) hcommit restored⟩

/-- The member `1` follows. It holds two entries as committed, and a third one
that the leader has committed already. -/
theorem recovery_exact_of_follower :
    ∃ (c c₁ c₂ : Cluster) (r r' : Replica MemoryStorage), c.Attainable ∧ c.InRange ∧
      c.replica? 1 = some r ∧ r.node.record.commitLength = 2 ∧ r.node.record.log.length = 3 ∧
      r.store.get "a" = "1" ∧ c.crash 1 = .ok c₁ ∧ c₁.restart 1 = .ok c₂ ∧
      c₂.replica? 1 = some r' ∧ r.Recovers r' := by
  have h : ∃ c₀, start 3 {} (fun _ => 0) = .ok c₀ ∧
      ∃ c, c₀.obeyAll [.elect 0, .step (Duration.ofSeconds 2), .serve 0 "SET a 1",
        .step Duration.second, .serve 0 "SET b 2", .step Duration.second] = .ok c ∧
      c.InRange ∧ (∃ r, c.replica? 1 = some r ∧ r.node.record.commitLength = 2 ∧
        r.node.record.log.length = 3 ∧ r.store.get "a" = "1") ∧
      c.now + c.config.electionTimeout (c.draws c.drawn) < Instant.limit := by decide +kernel
  obtain ⟨c₀, hstart, c, hobeyed, range, ⟨r, up, hcommit, hlength, hstore⟩, inTime⟩ := h
  have attained : c.Attainable := ((Reachable.start hstart).obeyAll hobeyed).attainable
  obtain ⟨c₁, hcrash, _, hreturns, hrecovers⟩ := recovery_exact attained range up
  obtain ⟨c₂, hrestart⟩ := hreturns inTime
  obtain ⟨r', hup, hr⟩ := hrecovers c₂ hrestart
  exact ⟨c, c₁, c₂, r, r', attained, range, up, hcommit, hlength, hstore, hcrash, hrestart,
    hup, hr⟩

end Cluster

end Quorum
