import Quorum.Proofs.Cluster.Reachable
import Quorum.Proofs.Server.Pending

/-!
# Where requests are

Every request of a client is somewhere: it is answered, it waits at a member,
or whoever it waited for has crashed. While a member deals with its clients it
has some requests in hand as well. `Cluster.Books` says that each request is in
one of these places and there once; whatever a cluster does moves requests from
one place to another, and takes back no answer.
-/

namespace Quorum

/-! ## Members -/

namespace Member

/-- The requests that wait at a member. -/
def waiting (m : Member) : List RequestId := m.deferred.map (·.1) ++ m.pending.waiters

/-- A member has one write at most for each index, and when it is down nobody
waits for it. -/
structure Orderly (m : Member) : Prop where
  distinct : m.pending.Distinct
  down : m.slot.node? = none → m.waiting = []

/-- Only a leader has requests that it has deferred. -/
def Led (m : Member) : Prop := ∀ n, m.slot.node? = some n → n.isLeader = false → m.deferred = []

end Member

/-! ## Requests -/

theorem count_flatMap_modify {α β : Type} [BEq β] {l : List α} {i : Nat} {a : α} (f : α → α)
    (g : α → List β) (h : l[i]? = some a) (b : β) :
    ((l.modify i f).flatMap g).count b + (g a).count b =
      (l.flatMap g).count b + (g (f a)).count b := by
  induction l generalizing i with
  | nil => exact nomatch h
  | cons x rest ih =>
      cases i with
      | zero =>
          obtain rfl : x = a := Option.some.inj h
          simp only [List.modify_zero_cons, List.flatMap_cons, List.count_append]
          omega
      | succ i =>
          have hrest := ih h
          simp only [List.modify_succ_cons, List.flatMap_cons, List.count_append]
          omega

namespace Cluster

/-- The requests that have been answered. -/
def answered (c : Cluster) : List RequestId :=
  (List.range c.replies.length).filter fun r => (c.replies[r]?.join).isSome

/-- The requests that wait at some member. -/
def waiting (c : Cluster) : List RequestId := c.members.flatMap Member.waiting

/-- Each request that was ever made is in one place: answered, waiting, in hand
or lost. What had been `told` before is still so. Only leaders have deferred
requests, except perhaps the one that is `busy`. -/
structure Books (told : List (Option Reply)) (busy : Option Nat) (hand lost : List RequestId)
    (c : Cluster) : Prop where
  once : (c.answered ++ c.waiting ++ hand ++ lost).Perm (List.range c.replies.length)
  told : ∀ (r : RequestId) (reply : Reply), told[r]? = some (some reply) →
    c.replies[r]? = some (some reply)
  orderly : ∀ (j : Nat) (m : Member), c.members[j]? = some m → m.Orderly
  led : ∀ (j : Nat) (m : Member), c.members[j]? = some m → busy ≠ some j → m.Led

variable {told : List (Option Reply)} {busy busy' : Option Nat} {c c' : Cluster} {i : Nat}
  {hand hand' lost lost' : List RequestId} {m : Member} {r : RequestId} {reply : Reply}

theorem mem_answered : r ∈ c.answered ↔ ∃ reply, c.replies[r]? = some (some reply) := by
  unfold answered
  rw [List.mem_filter, List.mem_range]
  constructor
  · rintro ⟨_, hsome⟩
    obtain ⟨reply, hreply⟩ := Option.isSome_iff_exists.mp hsome
    exact ⟨reply, Option.join_eq_some_iff.mp hreply⟩
  · rintro ⟨reply, hreply⟩
    refine ⟨(List.getElem?_eq_some_iff.mp hreply).1, ?_⟩
    rw [hreply]
    rfl

theorem nodup_answered (c : Cluster) : c.answered.Nodup := List.nodup_range.filter _

namespace Books

theorem nodup (h : Books told busy hand lost c) :
    (c.answered ++ c.waiting ++ hand ++ lost).Nodup :=
  h.once.nodup_iff.mpr List.nodup_range

theorem weaken (h : Books told none hand lost c) (i : Nat) : Books told (some i) hand lost c :=
  ⟨h.once, h.told, h.orderly, fun j m hm _ => h.led j m hm fun hbusy => nomatch hbusy⟩

/-- What clients do not see changes nothing. -/
theorem congr (h : Books told busy hand lost c) (replies : c'.replies = c.replies)
    (members : c'.members = c.members) : Books told busy hand lost c' := by
  obtain ⟨honce, htold, horderly, hled⟩ := h
  constructor
  · rw [answered, waiting, replies, members]
    exact honce
  · rw [replies]
    exact htold
  · rw [members]
    exact horderly
  · rw [members]
    exact hled

/-- A change of one member, to which or from which requests may move. -/
theorem modify {change : Member → Member} (h : Books told busy hand lost c)
    (hm : c.members[i]? = some m)
    (moves : ((change m).waiting ++ hand' ++ lost').Perm (m.waiting ++ hand ++ lost))
    (orderly : (change m).Orderly) (led : busy' ≠ some i → (change m).Led)
    (others : ∀ j, j ≠ i → busy' ≠ some j → busy ≠ some j) :
    Books told busy' hand' lost' (c.modify i change) := by
  have hmembers : ∀ j m', (c.modify i change).members[j]? = some m' →
      j = i ∧ m' = change m ∨ j ≠ i ∧ c.members[j]? = some m' := by
    intro j m' hm'
    rw [Cluster.modify, List.getElem?_modify] at hm'
    by_cases hj : j = i
    · subst hj
      rw [hm] at hm'
      exact .inl ⟨rfl, by simpa using hm'.symm⟩
    · refine .inr ⟨hj, ?_⟩
      rw [← hm']
      cases c.members[j]? with
      | none => rfl
      | some m => simp [Ne.symm hj]
  constructor
  case once =>
    refine List.perm_iff_count.mpr fun a => ?_
    have honce := List.perm_iff_count.mp h.once a
    have hmoves := List.perm_iff_count.mp moves a
    have hwaiting := count_flatMap_modify change Member.waiting hm a
    have hanswered : (c.modify i change).answered = c.answered := rfl
    show _ = (List.range c.replies.length).count a
    rw [hanswered, waiting]
    rw [waiting] at honce
    simp only [Cluster.modify, List.count_append] at honce hmoves hwaiting ⊢
    omega
  case told => exact h.told
  case orderly =>
    intro j m' hm'
    obtain ⟨_, rfl⟩ | ⟨_, hold⟩ := hmembers j m' hm'
    · exact orderly
    · exact h.orderly j m' hold
  case led =>
    intro j m' hm' hbusy
    obtain ⟨rfl, rfl⟩ | ⟨hj, hold⟩ := hmembers j m' hm'
    · exact led hbusy
    · exact h.led j m' hold (others j hj hbusy)

/-- A request in hand is answered. -/
theorem answer (h : Books told busy (r :: hand) lost c) (reply : Reply) :
    Books told busy hand lost (c.answer r reply) := by
  have hlt : r < c.replies.length := by
    have hmem : r ∈ c.answered ++ c.waiting ++ (r :: hand) ++ lost := by simp
    exact List.mem_range.mp (h.once.mem_iff.mp hmem)
  -- a request in hand is in no other place
  have hopen : r ∉ c.answered := by
    intro hmem
    have hnodup := List.nodup_iff_count_le_one.mp h.nodup r
    have hpos := List.count_pos_iff.mpr hmem
    simp only [List.count_append, List.count_cons_self] at hnodup
    omega
  have hreplies : ∀ j, (c.answer r reply).replies[j]? =
      if r = j then some (some reply) else c.replies[j]? := by
    intro j
    show (c.replies.set r (some reply))[j]? = _
    rw [List.getElem?_set]
    by_cases hj : r = j
    · rw [if_pos hj, if_pos hj, if_pos hlt]
    · rw [if_neg hj, if_neg hj]
  have hanswered : (c.answer r reply).answered.Perm (r :: c.answered) := by
    refine (List.perm_ext_iff_of_nodup (nodup_answered _)
      (List.nodup_cons.mpr ⟨hopen, nodup_answered c⟩)).mpr fun a => ?_
    rw [mem_answered, hreplies, List.mem_cons, mem_answered]
    by_cases ha : r = a
    · simp [ha]
    · simp [ha, Ne.symm ha]
  constructor
  case once =>
    refine List.perm_iff_count.mpr fun a => ?_
    have honce := List.perm_iff_count.mp h.once a
    have hcount := List.perm_iff_count.mp hanswered a
    have hlength : (c.answer r reply).replies.length = c.replies.length := List.length_set
    have hwaiting : (c.answer r reply).waiting = c.waiting := rfl
    rw [hlength, hwaiting]
    simp only [List.count_append, List.count_cons] at honce hcount ⊢
    omega
  case told =>
    intro j reply' hj
    rw [hreplies]
    split
    · next hrj =>
        subst hrj
        exact absurd (mem_answered.mpr ⟨reply', h.told r reply' hj⟩) hopen
    · exact h.told j reply' hj
  case orderly => exact h.orderly
  case led => exact h.led

/-- All the requests in hand are answered. -/
theorem answers {α : Type} {request : α → RequestId} {serve : Cluster → α → Cluster}
    (serves : ∀ c a, ∃ reply, serve c a = c.answer (request a) reply) :
    ∀ {l : List α} {c : Cluster}, Books told busy (l.map request ++ hand) lost c →
      Books told busy hand lost (l.foldl serve c) := by
  intro l
  induction l with
  | nil => exact fun h => h
  | cons a rest ih =>
      intro c h
      obtain ⟨reply, hserve⟩ := serves c a
      rw [List.foldl_cons, hserve]
      exact ih (h.answer reply)

/-! ## Clients of one member -/

/-- A member runs on in another way, and owes its clients what it did. -/
theorem setReplica {replica : Replica MemoryStorage} (h : Books told busy hand lost c)
    (hm : c.members[i]? = some m)
    (led : busy' ≠ some i → Member.Led { m with slot := .up replica })
    (others : ∀ j, j ≠ i → busy' ≠ some j → busy ≠ some j) :
    Books told busy' hand lost (c.setReplica i replica) :=
  h.modify hm (.refl _) ⟨(h.orderly i m hm).distinct, fun hdown => nomatch hdown⟩ led others

/-- The requests that a member has deferred are taken into hand. -/
theorem takeDeferred (h : Books told busy hand lost c) (i : Nat)
    (only : ∀ j, j ≠ i → busy ≠ some j) :
    Books told none ((c.takeDeferred i).1.map (·.1) ++ hand) lost (c.takeDeferred i).2 := by
  unfold Cluster.takeDeferred
  cases hm : c.members[i]? with
  | none =>
      have hsame : (c.modify i ({ · with deferred := [] })).members = c.members :=
        List.modify_eq_self (List.getElem?_eq_none_iff.mp hm)
      have hbooks : Books told busy hand lost (c.modify i ({ · with deferred := [] })) :=
        h.congr rfl hsame
      obtain ⟨honce, htold, horderly, hled⟩ := hbooks
      refine ⟨honce, htold, horderly, fun j m' hm' _ => hled j m' hm' (only j ?_)⟩
      rintro rfl
      rw [hsame] at hm'
      exact nomatch hm.symm.trans hm'
  | some m =>
      refine h.modify hm ?_ ⟨(h.orderly i m hm).distinct, fun hdown => ?_⟩
        (fun _ n _ _ => rfl) fun j hj _ => only j hj
      · refine List.perm_iff_count.mpr fun a => ?_
        simp only [Member.waiting, Option.map_some, Option.getD_some, List.map_nil, List.nil_append,
          List.count_append]
        omega
      · have hnone := (h.orderly i m hm).down hdown
        exact (List.append_eq_nil_iff.mp hnone).2

theorem exists_member {replica : Replica MemoryStorage} (h : c.replica? i = some replica) :
    ∃ m, c.members[i]? = some m ∧ m.slot = .up replica := by
  unfold replica? at h
  split at h
  · next hm =>
      obtain rfl := Option.some.inj h
      exact ⟨_, hm, rfl⟩
  · cases h

/-- What a member decides on a request in hand is carried out. Only a leader
defers. -/
theorem carryOut {n : Node} {admission : Admission} (h : Books told busy (r :: hand) lost c)
    (hm : c.members[i]? = some m) (hn : m.slot.node? = some n)
    (leads : ∀ command, admission = .deferred command → n.isLeader = true) :
    Books told busy hand lost (c.carryOut i r admission) := by
  obtain ⟨hdistinct, _⟩ := h.orderly i m hm
  have hup : m.slot.node? ≠ none := fun hdown => nomatch hn.symm.trans hdown
  cases admission with
  | reply reply => exact h.answer reply
  | deferred command =>
      refine h.modify hm ?_ ⟨hdistinct, fun hdown => absurd hdown hup⟩ (fun _ n' hn' hno => ?_)
        fun _ _ hbusy => hbusy
      · refine List.perm_iff_count.mpr fun a => ?_
        simp only [Member.waiting, List.map_append, List.map_cons, List.map_nil, List.count_append,
          List.count_cons, List.count_nil]
        omega
      · obtain rfl := Option.some.inj (hn.symm.trans hn')
        exact nomatch hno.symm.trans (leads command rfl)
  | write place entry =>
      have hperm := hdistinct.insert_perm place entry r
      have hinserted : Books told busy ((m.pending.insert place entry r).2.toList ++ hand) lost
          (c.modify i ({ · with pending := (m.pending.insert place entry r).1 })) := by
        refine h.modify hm ?_ ⟨hdistinct.insert place entry r, fun hdown => absurd hdown hup⟩
          (h.led i m hm) fun _ _ hbusy => hbusy
        refine List.perm_iff_count.mpr fun a => ?_
        have hcount := List.perm_iff_count.mp hperm a
        simp only [Member.waiting, List.count_append, List.count_cons] at hcount ⊢
        omega
      unfold Cluster.carryOut
      simp only [hm]
      split
      · next hnone =>
          rw [hnone] at hinserted
          exact hinserted
      · next other hother =>
          rw [hother] at hinserted
          exact hinserted.answer _

end Books

end Cluster

namespace Replica

/-- Who does not lead does not let clients wait. -/
theorem leads_of_deferred {replica : Replica MemoryStorage} {request command : Request}
    {now : Instant} (h : always (replica.serve request now).2 = .deferred command) :
    replica.node.isLeader = true := by
  by_contra hno
  unfold serve at h
  rw [if_pos (by simpa using hno)] at h
  cases h

end Replica

namespace Cluster.Books

variable {told : List (Option Reply)} {busy busy' : Option Nat} {c c' : Cluster} {i : Nat}
  {hand hand' lost lost' : List RequestId} {m : Member} {r : RequestId} {reply : Reply}

/-- A request in hand is handed to a member that is up. -/
theorem offer {replica : Replica MemoryStorage} (h : Books told busy (r :: hand) lost c)
    (hr : c.replica? i = some replica) (command : Request) :
    Books told busy hand lost (c.offer i r command) := by
  obtain ⟨m, hm, hslot⟩ := exists_member hr
  have hleads := (replica.serve_tended command c.now).isLeader
  unfold Cluster.offer
  simp only [hr]
  have hled : busy ≠ some i →
      Member.Led { m with slot := .up (replica.serve command c.now).1 } := by
    intro hbusy n hn hno
    obtain rfl := Option.some.inj hn
    exact h.led i m hm hbusy replica.node (by rw [hslot]; rfl) (hleads.symm.trans hno)
  have hset := h.setReplica hm hled fun _ _ hbusy => hbusy
  have hm' : (c.setReplica i (replica.serve command c.now).1).members[i]? =
      some { m with slot := .up (replica.serve command c.now).1 } := by
    rw [Cluster.setReplica, Cluster.modify, List.getElem?_modify, hm]
    simp
  refine hset.carryOut hm' rfl fun command' hdeferred => ?_
  exact hleads.trans (Replica.leads_of_deferred hdeferred)

/-- All requests in hand are handed to a member that is up. -/
theorem offers {serve : Cluster → RequestId × Request → Cluster}
    (serves : ∀ c a, serve c a = c.offer i a.1 a.2) :
    ∀ {l : List (RequestId × Request)} {c : Cluster},
      Books told busy (l.map (·.1) ++ hand) lost c → (c.node? i).isSome →
      Books told busy hand lost (l.foldl serve c) := by
  intro l
  induction l with
  | nil => exact fun h _ => h
  | cons a rest ih =>
      intro c h hup
      obtain ⟨n, hn⟩ := Option.isSome_iff_exists.mp hup
      obtain ⟨replica, hr, _⟩ := Option.map_eq_some_iff.mp hn
      obtain ⟨n', hn', _⟩ := (offer_tended c i a.1 a.2).up i n hn
      rw [List.foldl_cons, serves]
      exact ih (h.offer hr a.2) (Option.isSome_iff_exists.mpr ⟨n', hn'⟩)

/-- The writes whose indices have been applied are answered. -/
theorem answerApplied (h : Books told none hand lost c) (i : Nat) :
    Books told none hand lost (c.answerApplied i) := by
  unfold Cluster.answerApplied
  split
  · next replica pending deferred hm =>
      obtain ⟨hdistinct, _⟩ := h.orderly i _ hm
      have hresolved : Books told none ((pending.resolve replica.applied).2.map (·.1) ++ hand) lost
          (c.modify i fun _ => ⟨.up replica.takeApplied.2, (pending.resolve replica.applied).1,
            deferred⟩) := by
        refine h.modify hm ?_ ⟨hdistinct.resolve _, fun hdown => nomatch hdown⟩
          (fun _ n hn hno => ?_) fun _ _ hbusy => hbusy
        · refine List.perm_iff_count.mpr fun a => ?_
          have hcount := List.perm_iff_count.mp (hdistinct.resolve_perm replica.applied) a
          simp only [Member.waiting, List.count_append] at hcount ⊢
          omega
        · exact h.led i ⟨.up replica, pending, deferred⟩ hm (fun hbusy => nomatch hbusy) n hn hno
      exact answers (fun c a => ⟨_, rfl⟩) hresolved
  · exact h

/-- A member deals with all its clients. -/
theorem settle (h : Books told busy [] lost c) (only : ∀ j, j ≠ i → busy ≠ some j) :
    Books told none [] lost (c.settle i) := by
  have htaken := h.takeDeferred i only
  have hsettle : c.settle i = ((c.takeDeferred i).1.foldl (fun c a => c.offer i a.1 a.2)
      (c.takeDeferred i).2).answerApplied i := rfl
  rw [hsettle]
  refine answerApplied ?_ i
  cases hn : c.node? i with
  | some n =>
      have hup : ((c.takeDeferred i).2.node? i).isSome := by
        obtain ⟨n', hn', _⟩ := (takeDeferred_alike c i).tended.up i n hn
        exact Option.isSome_iff_exists.mpr ⟨n', hn'⟩
      exact offers (fun _ _ => rfl) htaken hup
  | none =>
      -- nobody waits for a member that is down
      have hnobody : (c.takeDeferred i).1 = [] := by
        unfold Cluster.takeDeferred
        cases hm : c.members[i]? with
        | none => rfl
        | some m =>
            rw [node?_eq, hm] at hn
            have hwaiting := (h.orderly i m hm).down hn
            exact List.map_eq_nil_iff.mp (List.append_eq_nil_iff.mp hwaiting).1
      rw [hnobody] at htaken ⊢
      exact htaken

/-! ## Events -/

/-- What a member asks for is carried out; if it leads no longer, whoever it
has deferred is sent on. -/
theorem execute (h : Books told (some i) [] lost c) (sender : NodeId) (command : Command) :
    Books told (some i) [] lost (c.execute i sender command) := by
  cases command with
  | send receiver message => exact h.congr rfl rfl
  | leadershipLost leader? =>
      refine (answers (fun c a => ⟨_, rfl⟩) (h.takeDeferred i fun j hj hbusy => ?_)).weaken i
      exact hj (Option.some.inj hbusy).symm

theorem executes (sender : NodeId) (commands : List Command) {c : Cluster}
    (h : Books told (some i) [] lost c) :
    Books told (some i) [] lost
      (commands.foldl (fun c command => c.execute i sender command) c) := by
  induction commands generalizing c with
  | nil => exact h
  | cons command rest ih => exact ih (h.execute sender command)

theorem handle (h : Books told none [] lost c) (i : Nat) (event : Event) :
    Ensures False (c.handle i event) (Books told none [] lost) := by
  unfold Cluster.handle
  cases hr : c.replica? i with
  | none => exact .pure h
  | some replica =>
      obtain ⟨m, hm, _⟩ := exists_member hr
      refine .of_ok fun c' call => ?_
      obtain ⟨⟨replica', result⟩, _, call⟩ := exists_of_bind_ok call
      obtain rfl := Except.ok.inj call
      have hset : Books told (some i) [] lost
          { c.setReplica i replica' with drawn := c.drawn + 1 } :=
        (h.setReplica hm (fun hbusy => absurd rfl hbusy) fun _ _ _ hbusy => nomatch hbusy).congr
          rfl rfl
      refine (hset.executes replica'.node.id (always result)).settle fun j hj hbusy => ?_
      exact hj (Option.some.inj hbusy).symm

theorem deliver (h : Books told none [] lost c) (m : InFlight) :
    Ensures False (c.deliver m) (Books told none [] lost) := by
  unfold Cluster.deliver
  split
  · exact .pure h
  · exact h.handle _ _

theorem deliverAll (h : Books told none [] lost c) :
    Ensures False c.deliverAll (Books told none [] lost) := by
  refine (deliverAll_ensures h fun c m rest _ hc => ?_).mono fun _ h => h.1
  have hpopped : Books told none [] lost { c with inFlight := rest } := hc.congr rfl rfl
  exact hpopped.deliver m

theorem fireUpTo (index : Nat) : ∀ count {c : Cluster}, Books told none [] lost c →
    Ensures False (fireUpTo index count c) (Books told none [] lost) := by
  intro count
  induction count with
  | zero => exact fun h => .pure h
  | succ count ih =>
      intro c h
      unfold Cluster.fireUpTo
      split
      · exact .pure h
      · next event _ => exact (h.handle index event).bind fun _ h => ih h

theorem step (h : Books told none [] lost c) (elapsed : Duration) :
    Ensures False (c.step elapsed) (Books told none [] lost) := by
  have hfire : ∀ index (_ : List Nat) (c : Cluster), Books told none [] lost c → Ensures False
      (do return (← Cluster.fireUpTo index firings c).settle index)
      (Books told none [] lost) := by
    intro index _ c hc
    refine (hc.fireUpTo index firings).bind fun c h => .pure (h.settle fun j _ hbusy => ?_)
    cases hbusy
  refine ((advance_ensures c elapsed).weaken False.elim).bind fun c₁ hc₁ => ?_
  have h₁ : Books told none [] lost c₁ := by
    rw [hc₁]
    exact h.congr rfl rfl
  exact (Ensures.foldlM (fun _ => Books told none [] lost) hfire _ c₁ h₁).bind
    fun c h => h.deliverAll

theorem elect (h : Books told none [] lost c) (index : Nat) :
    Ensures False (c.elect index) fun result => Books told none [] lost result.1 :=
  (h.handle index .electionTimeout).bind fun _ h => h.deliverAll.bind fun _ h => .pure h

/-! ## Clients, crashes and restarts -/

/-- A new request is in hand. -/
theorem ask (h : Books told none [] lost c) :
    Books told none [c.replies.length] lost { c with replies := c.replies ++ [none] } := by
  have hold : ∀ j, j < c.replies.length → (c.replies ++ [none])[j]? = c.replies[j]? :=
    fun j hj => List.getElem?_append_left hj
  have hanswered : ({ c with replies := c.replies ++ [none] } : Cluster).answered = c.answered := by
    unfold answered
    simp only [List.length_append, List.length_singleton, List.range_succ, List.filter_append]
    have hnew : ((c.replies ++ [none])[c.replies.length]?.join).isSome = false := by
      rw [List.getElem?_concat_length]
      rfl
    rw [List.filter_cons_of_neg (by rw [hnew]; exact Bool.false_ne_true), List.filter_nil,
      List.append_nil]
    refine List.filter_congr fun j hj => ?_
    rw [hold j (List.mem_range.mp hj)]
  constructor
  case once =>
    refine List.perm_iff_count.mpr fun a => ?_
    have honce := List.perm_iff_count.mp h.once a
    have hwaiting : ({ c with replies := c.replies ++ [none] } : Cluster).waiting = c.waiting := rfl
    rw [hanswered, hwaiting]
    simp only [List.length_append, List.length_singleton, List.range_succ, List.count_append,
      List.count_nil] at honce ⊢
    omega
  case told =>
    intro j reply hj
    have hreply := h.told j reply hj
    show (c.replies ++ [none])[j]? = _
    rw [hold j (List.getElem?_eq_some_iff.mp hreply).1]
    exact hreply
  case orderly => exact h.orderly
  case led => exact h.led

/-- What a client asks of a member that is down is lost. -/
theorem serve (h : Books told none [] lost c) (i : Nat) (text : String) :
    Books told none []
      (lost ++ if (c.node? i).isNone then [c.replies.length] else []) (c.serve i text).1 := by
  have hask := h.ask
  have hnode : (c.node? i).isNone = (c.replica? i).isNone := Option.isNone_map
  rw [hnode]
  unfold Cluster.serve
  simp only []
  cases hr : c.replica? i with
  | none =>
      have hdown : ({ c with replies := c.replies ++ [none] } : Cluster).replica? i = none := hr
      simp only [hdown]
      obtain ⟨honce, htold, horderly, hled⟩ := hask
      refine ⟨List.perm_iff_count.mpr fun a => ?_, htold, horderly, hled⟩
      have hcount := List.perm_iff_count.mp honce a
      simp only [Option.isNone_none, if_true, List.count_append, List.count_nil] at hcount ⊢
      omega
  | some replica =>
      have hup : ({ c with replies := c.replies ++ [none] } : Cluster).replica? i = some replica :=
        hr
      simp only [hup, Option.isNone_some, Bool.false_eq_true, if_false, List.append_nil]
      have hsettle : ∀ {c' : Cluster}, Books told none [] lost c' →
          Books told none [] lost (c'.settle i) := fun h => h.settle fun j _ hbusy => nomatch hbusy
      split
      · exact hsettle (hask.offer hup _)
      · exact hsettle (hask.answer _)

/-- A crash loses whoever waited. -/
theorem crash (h : Books told none [] lost c) (call : c.crash i = .ok c') :
    Books told none [] (lost ++ ((c.members[i]?).map Member.waiting).getD []) c' := by
  unfold Cluster.crash at call
  split at call
  · cases call
  · next m hm =>
      obtain rfl := Except.ok.inj call
      rw [hm]
      refine h.modify hm ?_ ⟨List.nodup_nil, fun _ => rfl⟩ (fun _ n _ _ => rfl)
        fun _ _ hbusy => hbusy
      refine List.perm_iff_count.mpr fun a => ?_
      simp only [Member.waiting, PendingWrites.waiters, Option.map_some, Option.getD_some,
        List.map_nil, List.append_nil, List.count_append, List.count_nil]
      omega

theorem restart (h : Books told none [] lost c) (call : c.restart i = .ok c') :
    Books told none [] lost c' := by
  unfold Cluster.restart at call
  split at call
  · cases call
  · obtain rfl := Except.ok.inj call
    exact h
  · next storage pending deferred hm =>
      obtain ⟨replica, _, call⟩ := exists_of_bind_ok call
      obtain rfl := Except.ok.inj call
      -- nobody has waited while the member was down
      have hnobody := (h.orderly i _ hm).down rfl
      have hled : Member.Led ⟨.up replica, pending, deferred⟩ := fun n _ _ =>
        List.map_eq_nil_iff.mp (List.append_eq_nil_iff.mp hnobody).1
      exact (h.setReplica hm (fun _ => hled) fun _ _ hbusy => hbusy).congr rfl rfl

end Cluster.Books

end Quorum
