import Quorum.Proofs.Cluster.Exchange

/-!
# A connected leader stays leader

A leader that reaches a majority starts its rounds early enough to renew its
lease and to keep everybody else from standing for election. But only entries
that fit renew the lease, and a follower that lags costs a round for each entry
that it is behind. So the lease has to last until a majority has caught up
(`leader_stays`). Two lost entries are too many for the default times
(`deposed_by_own_lease`).
-/

namespace Quorum

/-! ## What is computed -/

instance decidableExistsLeader (r : Role) (P : Leader → Prop) [∀ l, Decidable (P l)] :
    Decidable (∃ l, r = .leader l ∧ P l) :=
  match r with
  | .leader l =>
      decidable_of_iff (P l) ⟨fun h => ⟨l, rfl, h⟩, fun ⟨_, heq, h⟩ => Role.leader.inj heq ▸ h⟩
  | .follower _ | .candidate _ => isFalse fun ⟨_, heq, _⟩ => nomatch heq

instance (source log : Log) (sent : LogIndex) (k : Nat) : Decidable (Log.Lags source log sent k) :=
  inferInstanceAs (Decidable (∃ j, j ≤ sent ∧ _))

instance (config : TimerConfig) (tick : Duration) : Decidable (config.InTime tick) :=
  decidable_of_iff (config.validate = .ok () ∧ 0 < tick ∧ config.heartbeat + tick ≤ config.lease ∧
    config.heartbeat + tick ≤ config.electionMin)
    ⟨fun ⟨valid, ticks, lease, election⟩ => ⟨valid, ticks, lease, election⟩,
      fun h => ⟨h.valid, h.ticks, h.lease, h.election⟩⟩

namespace Cluster

/-! ## Leaders and those who back them -/

/-- The member leads the term. -/
def Leads (c : Cluster) (l : NodeId) (term : Term) : Prop :=
  ∃ n, c.node? l = some n ∧ n.isLeader = true ∧ n.record.currentTerm = term

instance (c : Cluster) (l : NodeId) (term : Term) : Decidable (c.Leads l term) :=
  inferInstanceAs (Decidable (∃ n, c.node? l = some n ∧ _))

/-- The member has been elected, in a term that is new to it. -/
structure Elected (c : Cluster) (l : NodeId) (c' : Cluster) (term : Term) : Prop where
  call : c.elect l = .ok (c', true)
  newer : ∃ n, c.node? l = some n ∧ n.record.currentTerm < term
  leads : c'.Leads l term

/-- The member and its backers are a majority, all of them up and none of them
cut off. -/
structure Connected (c : Cluster) (l : NodeId) (backers : List NodeId) : Prop where
  nodup : (l :: backers).Nodup
  majority : c.size < 2 * (backers.length + 1)
  heard : ∀ p ∈ l :: backers, p ∉ c.isolated ∧ (c.node? p).isSome

instance (c : Cluster) (l : NodeId) (backers : List NodeId) : Decidable (c.Connected l backers) :=
  decidable_of_iff ((l :: backers).Nodup ∧ c.size < 2 * (backers.length + 1) ∧
    ∀ p ∈ l :: backers, p ∉ c.isolated ∧ (c.node? p).isSome)
    ⟨fun ⟨nodup, majority, heard⟩ => ⟨nodup, majority, heard⟩,
      fun h => ⟨h.nodup, h.majority, h.heard⟩⟩

/-- No backer of the leader lags by more than `lag` entries, and if some do,
then the lease lasts until all of them have caught up and confirm it. -/
def Followed (c : Cluster) (l : NodeId) (tick : Duration) (backers : List NodeId) (lag : Nat) :
    Prop :=
  ∃ n, c.node? l = some n ∧ ∃ lead, n.role = .leader lead ∧
    (lag = 0 ∨ c.now + (lag + 1) * c.config.period tick < lead.lease.expiresAt) ∧
    ∀ p ∈ backers, ∃ m, c.node? p = some m ∧ ∃ sent, lead.sentTo? p = some sent ∧
      Log.Lags n.record.log m.record.log sent lag

instance (c : Cluster) (l : NodeId) (tick : Duration) (backers : List NodeId) (lag : Nat) :
    Decidable (c.Followed l tick backers lag) :=
  inferInstanceAs (Decidable (∃ n, c.node? l = some n ∧ ∃ lead, n.role = .leader lead ∧ _))

/-- Time passes in ticks, or a client asks something. -/
def Order.Gentle (tick : Duration) : Order → Prop
  | .step elapsed => elapsed = tick
  | .serve _ _ => True
  | _ => False

variable {c c' : Cluster} {l : NodeId} {term : Term} {tick : Duration} {backers : List NodeId}
  {lag : Nat}

theorem handle_keeps (c : Cluster) (i : Nat) (event : Event) :
    Ensures False (c.handle i event) fun c' => c'.isolated = c.isolated ∧ c'.config = c.config :=
  handle_ensures (fun _ => ⟨rfl, rfl⟩) fun _ _ _ => .of_ok fun _ _ _ _ hstruck htended =>
    ⟨htended.isolated.trans hstruck.isolated, htended.config.trans hstruck.config⟩

theorem elect_keeps (c : Cluster) (i : Nat) :
    Ensures False (c.elect i) fun r => r.1.isolated = c.isolated ∧ r.1.config = c.config := by
  refine (handle_keeps c i .electionTimeout).bind fun c₁ h₁ => ?_
  have hdelivered : Ensures False c₁.deliverAll fun c₂ =>
      (c₂.isolated = c.isolated ∧ c₂.config = c.config) ∧ c₂.inFlight = [] := by
    refine deliverAll_ensures h₁ fun c₂ m rest _ h₂ => ?_
    refine deliver_ensures ?_ (fun _ => h₂) fun n draw _ _ _ => ?_
    · exact fun c₃ c₄ h₃ htended =>
        ⟨htended.isolated.trans h₃.1, htended.config.trans h₃.2⟩
    · exact .of_ok fun _ _ c₃ hstruck =>
        ⟨hstruck.isolated.trans h₂.1, hstruck.config.trans h₂.2⟩
  exact hdelivered.bind fun c₂ h₂ => .pure h₂.1

end Cluster

namespace Mandate

open Cluster

variable {M : Mandate} {c : Cluster}

theorem Steady.leads (h : M.Steady c) : c.Leads M.leader M.term := by
  obtain ⟨_, _, _, _, _, h⟩ := h
  obtain ⟨n, lead, hn, hterm, hoffice, _⟩ := h.leads
  exact ⟨n, hn, Node.isLeader_iff.mpr ⟨lead, hoffice.role⟩, hterm⟩

/-- Whatever clients ask while time passes, the leader stays as it is. -/
theorem Steady.obeyAll : ∀ (orders : List Order) (c : Cluster), M.Steady c →
    (∀ order ∈ orders, order.Gentle M.tick) →
    Ensures (c.now + orders.count (.step M.tick) * M.tick + M.config.longest < Instant.limit)
      (c.obeyAll orders) M.Steady := by
  intro orders
  induction orders with
  | nil => exact fun c h _ => .pure h
  | cons order rest ih =>
      intro c h gentle
      have hrest : ∀ order ∈ rest, order.Gentle M.tick := fun o ho =>
        gentle o (List.mem_cons_of_mem _ ho)
      have hfirst : Ensures (c.now + (order :: rest).count (.step M.tick) * M.tick +
          M.config.longest < Instant.limit) (c.obey order) fun c₁ => M.Steady c₁ ∧
            c₁.now + rest.count (.step M.tick) * M.tick =
              c.now + (order :: rest).count (.step M.tick) * M.tick := by
        have horder : order.Gentle M.tick := gentle order List.mem_cons_self
        cases order with
        | step elapsed =>
            obtain rfl : elapsed = M.tick := horder
            rw [List.count_cons_self, Nat.succ_mul, Nat.add_comm _ M.tick, ← Nat.add_assoc]
            refine (h.step.weaken fun reach => Nat.lt_of_le_of_lt ?_ reach).mono
              fun c₁ h₁ => ⟨h₁.1, by rw [h₁.2]⟩
            exact Nat.add_le_add_right (Nat.le_add_right _ _) _
        | serve index text =>
            have htended := serve_tended c index text
            rw [List.count_cons_of_ne (by simp)]
            exact .pure ⟨h.tended htended, by rw [htended.now]⟩
        | advance | fire | deliverAll | elect | isolate | heal | crash | restart =>
            exact horder.elim
      refine hfirst.bind fun c₁ ⟨h₁, hnow⟩ => ?_
      rw [← hnow]
      exact ih c₁ h₁ hrest

end Mandate

namespace Cluster

variable {c c' : Cluster} {l : NodeId} {term : Term} {tick : Duration} {backers : List NodeId}
  {lag : Nat}

/-- A leader that has just been elected by a majority it stays connected to
leads its term for as long as time passes in ticks, whatever clients ask of
anybody, provided that its lease outlasts the lag of its backers; and time can
pass until no deadline can be set any more. -/
theorem leader_stays (reached : c.Reachable) (inTime : c.config.InTime tick)
    (elected : c.Elected l c' term) (connected : c'.Connected l backers)
    (followed : c'.Followed l tick backers lag) (orders : List Order)
    (gentle : ∀ order ∈ orders, order.Gentle tick) :
    (∀ c'', c'.obeyAll orders = .ok c'' → c''.Leads l term) ∧
    (c'.now + orders.count (.step tick) * tick + c.config.longest < Instant.limit →
      ∃ c'', c'.obeyAll orders = .ok c'') := by
  obtain ⟨hisolated, hconfig⟩ := (elect_keeps c l).holds _ elected.call
  obtain ⟨n, hn, newer⟩ := elected.newer
  obtain ⟨n', hn', _, rfl⟩ := elected.leads
  obtain ⟨hothers, hnodup⟩ := List.nodup_cons.mp connected.nodup
  have hreachable : l ∉ c'.isolated := (connected.heard l List.mem_cons_self).1
  have hinaugurated := elect_inaugurated reached.seated (hisolated ▸ hreachable) elected.call hn hn'
    newer
  let M : Mandate :=
    { config := c'.config, tick, leader := l, term := n'.record.currentTerm, backers
      inTime := hconfig ▸ inTime
      nodup := hnodup
      others := hothers }
  have hresting : M.Resting c'.now lag c' := by
    obtain ⟨k, lead, hk, _, hoffice, hexpires⟩ := hinaugurated.leads
    obtain ⟨k', hk', lead', hrole, hlasts, hbackers⟩ := followed
    obtain rfl := Option.some.inj (hk.symm.trans hk')
    obtain rfl := Role.leader.inj (hoffice.role.symm.trans hrole)
    obtain rfl := Option.some.inj (hk.symm.trans hn')
    refine ⟨⟨hinaugurated.seated, rfl, ?_, hreachable, fun p hp =>
      (connected.heard p (List.mem_cons_of_mem _ hp)).1⟩, ⟨k, lead, hk, rfl, hoffice, ?_, ?_⟩,
      hinaugurated.calm, fun m hm => ?_⟩
    · have hmajority := connected.majority
      show c'.size / 2 ≤ backers.length
      omega
    · rcases hlasts with rfl | hlasts
      · refine Nat.lt_of_lt_of_le (Nat.add_lt_add_left ?_ c'.now) hexpires
        rw [Nat.zero_add, Nat.one_mul]
        exact M.inTime.period_lt_lease
      · exact hlasts
    · intro p hp
      obtain ⟨m, hm, sent, hrow, hlags⟩ := hbackers p hp
      exact ⟨m, sent, hm, hrow, hlags⟩
    · rw [hinaugurated.quiet] at hm
      exact nomatch hm
  have hsteady : M.Steady c' :=
    ⟨c'.now, lag, 0, by rw [Nat.zero_mul]; rfl, by rw [Nat.zero_mul]; exact M.inTime.beats,
      hresting⟩
  have hstays := Mandate.Steady.obeyAll orders c' hsteady gentle
  rw [← hconfig]
  exact ⟨fun c'' hc'' => (hstays.holds c'' hc'').leads, hstays.returns⟩

/-! ## A follower that has to catch up -/

/-- The member `0` leads, and what it is asked to write reaches nobody any
more; it starts anew when only the member `2` can hear it, which has missed
everything. -/
def relapse (writes : List String) : Except Halt Cluster := do
  let c ← start 3 { electionMax := Duration.ofSeconds 5 } fun _ => 0
  c.obeyAll ([.isolate 2, .elect 0] ++ writes.map (.serve 0) ++
    [.crash 0, .restart 0, .isolate 1, .heal 2])

theorem relapse_reachable {writes : List String} {c : Cluster} (h : relapse writes = .ok c) :
    c.Reachable := by
  obtain ⟨c₀, hstart, hobeyed⟩ := exists_of_bind_ok h
  exact (Reachable.start hstart).obeyAll hobeyed

theorem leader_stays_one_write_ahead :
    ∃ c c' c'' : Cluster, (c.Reachable ∧ c.config.InTime Duration.second ∧ c.Elected 0 c' 2 ∧
      c'.Connected 0 [2] ∧ c'.Followed 0 Duration.second [2] 1 ∧
      ¬ c'.Followed 0 Duration.second [2] 0) ∧
      c'.obeyAll (List.replicate 9 (.step Duration.second)) = .ok c'' ∧ c''.Leads 0 2 := by
  have h : ∃ c, relapse ["SET a 1"] = .ok c ∧ c.config.InTime Duration.second ∧
      (∃ n, c.node? 0 = some n ∧ n.record.currentTerm < 2) ∧
      ∃ r, c.elect 0 = .ok r ∧ r.2 = true ∧ r.1.Leads 0 2 ∧ r.1.Connected 0 [2] ∧
        r.1.Followed 0 Duration.second [2] 1 ∧ ¬ r.1.Followed 0 Duration.second [2] 0 ∧
        r.1.now + 9 * Duration.second + c.config.longest < Instant.limit := by decide +kernel
  obtain ⟨c, hc, inTime, newer, ⟨c', _⟩, call, rfl, leads, connected, followed, lags, reach⟩ := h
  have elected : c.Elected 0 c' 2 := ⟨call, newer, leads⟩
  have gentle : ∀ order ∈ List.replicate 9 (Order.step Duration.second),
      order.Gentle Duration.second := fun order h => by rw [List.eq_of_mem_replicate h]; rfl
  obtain ⟨hstays, hreturns⟩ :=
    leader_stays (relapse_reachable hc) inTime elected connected followed _ gentle
  obtain ⟨c'', hc''⟩ := hreturns (by rw [List.count_replicate_self]; exact reach)
  exact ⟨c, c', c'', ⟨relapse_reachable hc, inTime, elected, connected, followed, lags⟩, hc'',
    hstays c'' hc''⟩

/-- That its messages arrive does not keep a leader in office. -/
theorem deposed_by_own_lease :
    ¬ ∀ (c c' c'' : Cluster) (l : NodeId) (tick : Duration) (term : Term) (backers : List NodeId)
      (count : Nat), c.Reachable → c.config.InTime tick → c.Elected l c' term →
      c'.Connected l backers → c'.obeyAll (List.replicate count (.step tick)) = .ok c'' →
      c''.Leads l term := by
  intro h
  have hrun : ∃ c, relapse ["SET a 1", "SET b 2"] = .ok c ∧ c.config.InTime Duration.second ∧
      (∃ n, c.node? 0 = some n ∧ n.record.currentTerm < 2) ∧
      ∃ r, c.elect 0 = .ok r ∧ r.2 = true ∧ r.1.Leads 0 2 ∧ r.1.Connected 0 [2] ∧
        ∃ c'', r.1.obeyAll (List.replicate 3 (.step Duration.second)) = .ok c'' ∧
          ¬ c''.Leads 0 2 := by decide +kernel
  obtain ⟨c, hc, inTime, newer, ⟨c', _⟩, call, rfl, leads, connected, c'', steps, lost⟩ := hrun
  exact lost (h c c' c'' 0 Duration.second 2 [2] 3 (relapse_reachable hc) inTime
    ⟨call, newer, leads⟩ connected steps)

end Cluster

end Quorum
