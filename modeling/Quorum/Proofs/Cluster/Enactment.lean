import Quorum.Proofs.Cluster.Reachable
import Quorum.Proofs.Run.Scene

/-!
# Simulated clusters as runs

Whatever is done to a simulated cluster, a run of a cluster does the same to
its nodes (`Attainable.enacted`). So all that is known of runs holds of the
nodes of a simulated cluster. The run has every message under way among those
that were sent, which is why nothing depends on what gets lost on the way, and
in which order the rest arrives.
-/

namespace Quorum.Cluster

/-- The nodes of a simulated cluster. -/
def roster (size : Nat) (config : TimerConfig) : Roster where
  ids := List.range size
  nodup := List.nodup_range
  peers := peersOf size
  peers_perm i _ := by
    rw [List.nodup_range.erase_eq_filter]
    exact .refl _
  config _ := config

/-- The clusters that can come about: those to which orders lead, and those in
between, while messages are delivered one by one, in any order, or get lost. -/
inductive Attainable : Cluster → Prop
  | start {size : Nat} {config : TimerConfig} {draws : Nat → Nat} {c : Cluster}
      (call : Cluster.start size config draws = .ok c) : Attainable c
  | obey {c c' : Cluster} {order : Order} (attained : Attainable c) (call : c.obey order = .ok c') :
      Attainable c'
  | shuffle {c : Cluster} {queue : List InFlight} (attained : Attainable c)
      (sent : queue ⊆ c.inFlight) : Attainable { c with inFlight := queue }
  | deliver {c c' : Cluster} {m : InFlight} {rest : List InFlight} (attained : Attainable c)
      (queue : c.inFlight = m :: rest)
      (call : ({ c with inFlight := rest } : Cluster).deliver m = .ok c') : Attainable c'

theorem Reachable.attainable {c : Cluster} (h : c.Reachable) : c.Attainable := by
  induction h with
  | start call => exact .start call
  | obey _ call ih => exact .obey ih call

/-- A world with the same members, in which every message under way was sent. -/
structure Shadow (size : Nat) (config : TimerConfig) (c : Cluster) (w : World) : Prop where
  size : c.size = size
  config : c.config = config
  slots : ∀ j slot, c.slot? j = some slot → w.slot j = slot
  inFlight : c.inFlight ⊆ w.sent

/-- Some run of a cluster leads to the same members. -/
def Enacted (size : Nat) (config : TimerConfig) (c : Cluster) : Prop :=
  ∃ actions, Shadow size config c (World.after (roster size config) actions)

variable {size i : Nat} {config : TimerConfig} {c c' : Cluster} {w : World}
  {r : Replica MemoryStorage} {m : InFlight} {event : Event}

theorem slot?_of_member {m : Member} (h : c.members[i]? = some m) : c.slot? i = some m.slot := by
  rw [slot?, h]
  rfl

theorem slot?_of_replica? (h : c.replica? i = some r) : c.slot? i = some (.up r) := by
  unfold replica? at h
  split at h
  · next hm =>
      obtain rfl := Option.some.inj h
      exact slot?_of_member hm
  · cases h

theorem lt_size_of_slot? {slot : Slot} (h : c.slot? i = some slot) : i < c.size := by
  obtain ⟨m, hm, _⟩ := Option.map_eq_some_iff.mp h
  exact (List.getElem?_eq_some_iff.mp hm).1

/-- A member that starts is a replica that wakes up. -/
theorem boot_ok {storage : MemoryStorage} {now : Instant} {draw : Nat}
    (h : boot config size i storage now draw = .ok r) :
    ∃ result, Replica.boot i (peersOf size i) config storage now draw = .ok result ∧
      always result = r := by
  unfold boot at h
  cases hboot : Replica.boot i (peersOf size i) config storage now draw with
  | error overflow =>
      rw [hboot] at h
      exact nomatch h
  | ok result =>
      rw [hboot] at h
      exact ⟨result, rfl, Except.ok.inj h⟩

/-! ## What the world of a cluster keeps up with -/

namespace Shadow

theorem alike (h : Shadow size config c w) (alike : c.Alike c') : Shadow size config c' w where
  size := alike.size.trans h.size
  config := alike.config.trans h.config
  slots j slot hslot := h.slots j slot ((alike.slots j).symm.trans hslot)
  inFlight := by
    rw [alike.inFlight]
    exact h.inFlight

/-- A member runs on in another way, and something is sent. -/
theorem put (h : Shadow size config c w) (i : Nat) (slot : Slot) (change : Member → Member)
    (out : List InFlight) (hchange : ∀ m, (change m).slot = slot) :
    Shadow size config { c.modify i change with inFlight := c.inFlight ++ out }
      { w.put i slot with sent := w.sent ++ out } where
  size := (size_modify c i change).trans h.size
  config := h.config
  slots j s hs := by
    show (w.put i slot).slot j = s
    rw [slot?, modify, List.getElem?_modify] at hs
    by_cases hj : j = i
    · subst hj
      rw [World.put_slot_self]
      obtain ⟨m, hm, rfl⟩ := Option.map_eq_some_iff.mp hs
      obtain ⟨m', _, rfl⟩ := Option.map_eq_some_iff.mp hm
      simp only [if_true]
      exact (hchange m').symm
    · rw [World.put_slot_of_ne w slot hj]
      refine h.slots j s ?_
      rw [slot?, ← hs]
      cases c.members[j]? with
      | none => rfl
      | some m => simp [Ne.symm hj]
  inFlight := by
    intro m hm
    rcases List.mem_append.mp hm with hm | hm
    · exact List.mem_append_left _ (h.inFlight hm)
    · exact List.mem_append_right _ hm

/-- A member runs on in another way and sends nothing. -/
theorem put_silent (h : Shadow size config c w) (i : Nat) (slot : Slot)
    (change : Member → Member) (hchange : ∀ m, (change m).slot = slot) :
    Shadow size config (c.modify i change) (w.put i slot) := by
  have hput := h.put i slot change [] hchange
  rw [List.append_nil, List.append_nil] at hput
  exact hput

theorem up (h : Shadow size config c w) (hr : c.replica? i = some r) : w.slot i = .up r :=
  h.slots i _ (slot?_of_replica? hr)

end Shadow

namespace Enacted

/-- One more action. -/
theorem act (actions : List Action) (action : Action)
    (h : Shadow size config c
      ((World.after (roster size config) actions).step (roster size config) action)) :
    c.Enacted size config := by
  refine ⟨actions ++ [action], ?_⟩
  rw [World.after_concat]
  exact h

theorem alike (h : c.Enacted size config) (alike : c.Alike c') : c'.Enacted size config := by
  obtain ⟨actions, h⟩ := h
  exact ⟨actions, h.alike alike⟩

theorem offer (h : c.Enacted size config) (i : Nat) (request : RequestId) (command : Request) :
    (c.offer i request command).Enacted size config := by
  unfold Cluster.offer
  split
  · exact h
  · next r hr =>
      obtain ⟨actions, h⟩ := h
      refine alike (act actions (.request i command c.now) ?_) (carryOut_alike _ _ _ _)
      rw [World.step]
      simp only [h.up hr]
      exact h.put_silent i _ _ fun _ => rfl

theorem answerApplied (h : c.Enacted size config) (i : Nat) :
    (c.answerApplied i).Enacted size config := by
  unfold Cluster.answerApplied
  split
  · next r pending deferred hm =>
      obtain ⟨actions, h⟩ := h
      have hr : c.replica? i = some r := by
        rw [replica?, hm]
      refine alike (act actions (.report i) ?_)
        (Alike.foldl (fun c _ => answer_alike c _ _) _ _)
      rw [World.step]
      simp only [h.up hr]
      exact h.put_silent i _ _ fun _ => rfl
  · exact h

theorem settle (h : c.Enacted size config) (i : Nat) : (c.settle i).Enacted size config := by
  unfold Cluster.settle
  refine answerApplied ?_ i
  have hoffers : ∀ (serve : Cluster → RequestId × Request → Cluster),
      (∀ c next, serve c next = c.offer i next.1 next.2) →
      ∀ (waiting : List (RequestId × Request)) (c : Cluster), c.Enacted size config →
        (waiting.foldl serve c).Enacted size config := by
    intro serve hserve waiting
    induction waiting with
    | nil => exact fun c h => h
    | cons next rest ih =>
        intro c h
        rw [List.foldl_cons, hserve]
        exact ih _ (h.offer i next.1 next.2)
  exact hoffers _ (fun _ _ => rfl) _ _ (h.alike (takeDeferred_alike c i))

/-! ## Events -/

/-- An event that a run brings too has the same consequences there. -/
theorem handle {actions : List Action} (action : Action)
    (h : Shadow size config c (World.after (roster size config) actions))
    (acts : (World.after (roster size config) actions).step (roster size config) action =
      (World.after (roster size config) actions).handle i event c.now (c.draws c.drawn)) :
    Ensures False (c.handle i event) (Enacted size config) := by
  unfold Cluster.handle
  cases hr : c.replica? i with
  | none => exact .pure ⟨actions, h⟩
  | some r =>
      refine .of_ok fun c' call => ?_
      obtain ⟨⟨r', result⟩, hhandle, call⟩ := exists_of_bind_ok call
      obtain rfl := Except.ok.inj call
      -- the clock has not run out, so the run goes on with the same replica
      have hhandled : r.handle event c.now (c.draws c.drawn) = .ok (r', result) := by
        cases hresult : r.handle event c.now (c.draws c.drawn) with
        | error overflow =>
            rw [hresult] at hhandle
            exact nomatch hhandle
        | ok outcome =>
            rw [hresult] at hhandle
            exact congrArg _ (Except.ok.inj hhandle)
      have hstep : (World.after (roster size config) actions).step (roster size config) action =
          { (World.after (roster size config) actions).put i (.up r') with
            sent :=
              (World.after (roster size config) actions).sent ++ sends i (always result) } := by
        rw [acts, World.handle]
        simp only [h.up hr, hhandled]
      have hid : r'.node.id = i := by
        have hkept := (World.kept_start (roster size config)).after actions
        exact (((World.step_turn hkept action).kept hkept) i r' (by
          show ((World.after _ actions).step _ action).slot i = .up r'
          rw [hstep]
          exact World.put_slot_self _ i _)).id
      refine Enacted.settle (Enacted.alike (act actions action ?_)
        (foldl_execute_alike i r'.node.id (always result)
          { c.setReplica i r' with drawn := c.drawn + 1 })) i
      rw [hstep, hid]
      obtain ⟨hsize, hconfig, hslots, hqueue⟩ :=
        h.put i (.up r') (fun m => { m with slot := .up r' }) (sends i (always result))
          fun _ => rfl
      exact ⟨hsize, hconfig, hslots, hqueue⟩

theorem fire (h : c.Enacted size config) (i : Nat) (timer : Timer) :
    Ensures False (c.handle i timer.event) (Enacted size config) := by
  obtain ⟨actions, h⟩ := h
  exact handle (.timer i timer c.now (c.draws c.drawn)) h rfl

theorem deliver {rest : List InFlight} (h : c.Enacted size config)
    (queue : c.inFlight = m :: rest) :
    Ensures False (({ c with inFlight := rest } : Cluster).deliver m) (Enacted size config) := by
  obtain ⟨actions, hsize, hconfig, hslots, hsent⟩ := h
  have hpopped : Shadow size config { c with inFlight := rest }
      (World.after (roster size config) actions) :=
    ⟨hsize, hconfig, hslots, fun m' hm' => hsent (queue ▸ List.mem_cons_of_mem m hm')⟩
  unfold Cluster.deliver
  split
  · exact .pure ⟨actions, hpopped⟩
  · have hm : m ∈ (World.after (roster size config) actions).sent :=
      hsent (queue ▸ List.mem_cons_self)
    obtain ⟨position, hposition⟩ := List.mem_iff_getElem?.mp hm
    refine handle (.deliver position c.now (c.draws c.drawn)) hpopped ?_
    rw [World.step]
    simp only [hposition]

theorem deliverAll (h : c.Enacted size config) :
    Ensures False c.deliverAll (Enacted size config) := by
  refine (deliverAll_ensures h fun c m rest queue hc => ?_).mono fun _ h => h.1
  exact hc.deliver queue

theorem fireUpTo (index : Nat) : ∀ count {c : Cluster}, c.Enacted size config →
    Ensures False (fireUpTo index count c) (Enacted size config) := by
  intro count
  induction count with
  | zero => exact fun h => .pure h
  | succ count ih =>
      intro c h
      unfold Cluster.fireUpTo
      split
      · exact .pure h
      · next event hdue =>
          -- only timers are due
          obtain ⟨r, _, hdue⟩ := Option.bind_eq_some_iff.mp hdue
          obtain ⟨timer, _, rfl⟩ := Option.map_eq_some_iff.mp hdue
          exact (h.fire index timer).bind fun _ h => ih h

theorem elsewhen (h : c.Enacted size config) (now : Instant) :
    Enacted size config { c with now } := by
  obtain ⟨actions, hsize, hconfig, hslots, hsent⟩ := h
  exact ⟨actions, hsize, hconfig, hslots, hsent⟩

theorem step (h : c.Enacted size config) (elapsed : Duration) :
    Ensures False (c.step elapsed) (Enacted size config) := by
  have hfire : ∀ index (_ : List Nat) (c : Cluster), c.Enacted size config → Ensures False
      (do return (← Cluster.fireUpTo index firings c).settle index) (Enacted size config) := by
    intro index _ c hc
    exact (hc.fireUpTo index firings).bind fun c h => .pure (h.settle index)
  refine ((advance_ensures c elapsed).weaken False.elim).bind fun c₁ hc₁ => ?_
  have h₁ : c₁.Enacted size config := by
    rw [hc₁]
    exact h.elsewhen _
  exact (Ensures.foldlM (fun _ => Enacted size config) hfire _ c₁ h₁).bind fun c h => h.deliverAll

theorem elect (h : c.Enacted size config) (index : Nat) :
    Ensures False (c.elect index) fun result => result.1.Enacted size config :=
  (h.fire index .election).bind fun _ h => h.deliverAll.bind fun _ h => .pure h

theorem serve (h : c.Enacted size config) (i : Nat) (text : String) :
    (c.serve i text).1.Enacted size config := by
  have hasked : ({ c with replies := c.replies ++ [none] } : Cluster).Enacted size config :=
    h.alike ⟨fun _ => rfl, rfl, rfl, rfl, rfl, rfl⟩
  unfold Cluster.serve
  simp only []
  split
  · exact hasked
  · refine settle ?_ i
    split
    · exact hasked.offer i _ _
    · exact hasked.alike (answer_alike _ _ _)

/-! ## Crashes -/

theorem crash (h : c.Enacted size config) (call : c.crash i = .ok c') :
    c'.Enacted size config := by
  obtain ⟨actions, h⟩ := h
  unfold Cluster.crash at call
  split at call
  · exact nomatch call
  · next m hm =>
      obtain rfl := Except.ok.inj call
      obtain ⟨slot, pending, deferred⟩ := m
      have hslot : c.slot? i = some slot := slot?_of_member hm
      cases slot with
      | up r =>
          refine act actions (.crash i) ?_
          rw [World.step]
          simp only [h.slots i _ hslot]
          exact h.put_silent i _ _ fun _ => rfl
      | down storage =>
          refine act actions (.crash i) ?_
          rw [World.step]
          simp only [h.slots i _ hslot]
          have hput := h.put_silent i (.down storage) (fun _ => { slot := .down storage })
            fun _ => rfl
          rw [← h.slots i _ hslot, World.put_slot] at hput
          rw [← h.slots i _ hslot]
          exact hput

theorem restart (h : c.Enacted size config) (call : c.restart i = .ok c') :
    c'.Enacted size config := by
  obtain ⟨actions, h⟩ := h
  unfold Cluster.restart at call
  split at call
  · exact nomatch call
  · obtain rfl := Except.ok.inj call
    exact ⟨actions, h⟩
  · next storage pending deferred hm =>
      obtain ⟨r, hboot, call⟩ := exists_of_bind_ok call
      obtain rfl := Except.ok.inj call
      have hslot : c.slot? i = some (.down storage) := slot?_of_member hm
      obtain ⟨result, hresult, rfl⟩ := boot_ok hboot
      refine act actions (.restart i c.now (c.draws c.drawn)) ?_
      have hmember : i ∈ (roster size config).ids :=
        List.mem_range.mpr (h.size ▸ lt_size_of_slot? hslot)
      have hsame : Replica.boot i ((roster size config).peers i) ((roster size config).config i)
          storage c.now (c.draws c.drawn) = .ok result := by
        rw [← hresult, h.config, h.size]
        rfl
      rw [World.step]
      simp only [h.slots i _ hslot, if_pos hmember, hsame]
      obtain ⟨hsize, hconfig, hslots, hqueue⟩ :=
        h.put_silent i (.up (always result)) (fun m => { m with slot := .up (always result) })
          fun _ => rfl
      exact ⟨hsize, hconfig, hslots, hqueue⟩

theorem obey (h : c.Enacted size config) {order : Order} (call : c.obey order = .ok c') :
    c'.Enacted size config := by
  cases order with
  | advance elapsed =>
      rw [(advance_ensures c elapsed).holds _ call]
      exact h.elsewhen _
  | step elapsed => exact (h.step elapsed).holds _ call
  | fire index timer => exact (h.fire index timer).holds _ call
  | deliverAll => exact h.deliverAll.holds _ call
  | elect index => exact ((h.elect index).map fun _ hc => hc).holds _ call
  | serve index text =>
      obtain rfl := Except.ok.inj call
      exact h.serve index text
  | isolate index =>
      obtain rfl := Except.ok.inj call
      obtain ⟨actions, hsize, hconfig, hslots, hsent⟩ := h
      exact ⟨actions, hsize, hconfig, hslots, hsent⟩
  | heal index =>
      obtain rfl := Except.ok.inj call
      obtain ⟨actions, hsize, hconfig, hslots, hsent⟩ := h
      exact ⟨actions, hsize, hconfig, hslots, hsent⟩
  | crash index => exact h.crash call
  | restart index => exact h.restart call

end Enacted

/-! ## Starting -/

/-- The members of a new cluster wake up one after the other. -/
theorem exists_started {draws : Nat → Nat} {members : List Member}
    (made : ∀ i (h : i < members.length), ∃ r,
      boot config members.length i {} 0 (draws i) = .ok r ∧ members[i].slot = .up r) :
    ∀ k ≤ members.length, ∃ actions,
      (∀ i (h : i < members.length), i < k →
        (World.after (roster members.length config) actions).slot i = members[i].slot) ∧
      ∀ i, k ≤ i → (World.after (roster members.length config) actions).slot i = .down {} := by
  intro k
  induction k with
  | zero => exact fun _ => ⟨[], fun i _ hi => absurd hi (Nat.not_lt_zero i), fun i _ => rfl⟩
  | succ k ih =>
      intro hk
      obtain ⟨actions, hup, hdown⟩ := ih (Nat.le_of_lt hk)
      obtain ⟨r, hboot, hslot⟩ := made k hk
      obtain ⟨result, hresult, rfl⟩ := boot_ok hboot
      refine ⟨actions ++ [.restart k 0 (draws k)], ?_⟩
      have hmember : k ∈ (roster members.length config).ids := List.mem_range.mpr hk
      have hsame : Replica.boot k ((roster members.length config).peers k)
          ((roster members.length config).config k) {} 0 (draws k) = .ok result := hresult
      have hstep : World.after (roster members.length config)
            (actions ++ [.restart k 0 (draws k)]) =
          (World.after (roster members.length config) actions).put k members[k].slot := by
        rw [World.after_concat, World.step]
        simp only [hdown k (Nat.le_refl k), if_pos hmember, hsame, hslot]
      rw [hstep]
      constructor
      · intro i hi hik
        by_cases hne : i = k
        · subst hne
          exact World.put_slot_self _ _ _
        · rw [World.put_slot_of_ne _ _ hne]
          exact hup i hi (by omega)
      · intro i hki
        have hne : i ≠ k := by omega
        rw [World.put_slot_of_ne _ _ hne]
        exact hdown i (by omega)

theorem start_enacted {draws : Nat → Nat} (call : Cluster.start size config draws = .ok c) :
    c.Enacted c.size c.config := by
  obtain ⟨members, hmembers, call⟩ := exists_of_bind_ok call
  obtain rfl := Except.ok.inj call
  obtain ⟨hlength, hall⟩ := mapM_ok hmembers
  rw [List.length_range] at hlength
  have hmade : ∀ i (h : i < members.length), ∃ r,
      boot config members.length i {} 0 (draws i) = .ok r ∧ members[i].slot = .up r := by
    intro i hi
    obtain ⟨j, hj, hmade⟩ := hall i members[i] (List.getElem?_eq_getElem hi)
    obtain ⟨hlt, rfl⟩ := List.getElem?_eq_some_iff.mp hj
    rw [List.getElem_range, ← hlength] at hmade
    obtain ⟨r, hboot, hmade⟩ := exists_of_bind_ok hmade
    exact ⟨r, hboot, congrArg Member.slot (Except.ok.inj hmade).symm⟩
  obtain ⟨actions, hup, _⟩ := exists_started hmade members.length (Nat.le_refl _)
  refine ⟨actions, rfl, rfl, ?_, fun m hm => nomatch hm⟩
  intro j slot hslot
  obtain ⟨m, hm, rfl⟩ := Option.map_eq_some_iff.mp hslot
  obtain ⟨hj, rfl⟩ := List.getElem?_eq_some_iff.mp hm
  exact hup j hj hj

/-- Whatever has been done to a simulated cluster, a run does it too. -/
theorem Attainable.enacted (h : c.Attainable) : c.Enacted c.size c.config := by
  suffices hfixed : ∃ size config, c.Enacted size config by
    obtain ⟨size, config, actions, h⟩ := hfixed
    rw [h.size, h.config]
    exact ⟨actions, h⟩
  induction h with
  | start call => exact ⟨_, _, start_enacted call⟩
  | obey _ call ih =>
      obtain ⟨size, config, h⟩ := ih
      exact ⟨size, config, h.obey call⟩
  | shuffle _ sent ih =>
      obtain ⟨size, config, actions, h⟩ := ih
      exact ⟨size, config, actions, h.size, h.config, h.slots, fun m hm => h.inFlight (sent hm)⟩
  | deliver _ queue call ih =>
      obtain ⟨size, config, h⟩ := ih
      exact ⟨size, config, (h.deliver queue).holds _ call⟩

/-- No member is in the last term that a word can hold. -/
def InRange (c : Cluster) : Prop :=
  ∀ m ∈ c.members, m.slot.record.currentTerm < Word.max

instance (c : Cluster) : Decidable c.InRange :=
  inferInstanceAs (Decidable (∀ m ∈ c.members, m.slot.record.currentTerm < Word.max))

/-- The nodes of a simulated cluster are those of some state of a run. -/
theorem Attainable.exists_run (h : c.Attainable) (range : c.InRange) :
    ∃ (r : Run (roster c.size c.config)) (k : Nat), Shadow c.size c.config c (r.state k) := by
  obtain ⟨actions, h⟩ := h.enacted
  have hrange : (World.after (roster c.size c.config) actions).InRange
      (roster c.size c.config) := by
    intro i hi
    have hlt : i < c.members.length := List.mem_range.mp hi
    have hslot : c.slot? i = some c.members[i].slot :=
      slot?_of_member (List.getElem?_eq_getElem hlt)
    rw [World.record, h.slots i _ hslot]
    exact range _ (List.getElem_mem hlt)
  refine ⟨⟨actions, hrange⟩, actions.length, ?_⟩
  rw [Run.state, List.take_length]
  exact h

/-- The nodes of a simulated cluster are those of a lawful scene. -/
theorem Attainable.exists_scene (h : c.Attainable) (range : c.InRange) :
    ∃ w s, Shadow c.size c.config c w ∧ Scene (roster c.size c.config) w s := by
  obtain ⟨r, k, h⟩ := h.exists_run range
  obtain ⟨s, hs⟩ := r.exists_scene k
  exact ⟨_, s, h, hs⟩

end Quorum.Cluster
