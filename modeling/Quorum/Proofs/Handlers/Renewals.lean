import Mathlib.Data.Finset.Lattice.Fold
import Mathlib.Order.Interval.Finset.Nat
import Mathlib.Order.Lattice.Nat
import Quorum.Proofs.Handlers.Rounds

/-!
# Renewals of a lease

A lease keeps the acknowledgements of its latest round, the end of its window
and nothing else of what it was asked. Here the same is told from the whole
history of its calls: which peers acknowledged a round while it was the latest,
which rounds a quorum has confirmed so far, and until when the lease runs. What
the lease notes of the latest round (`LeaderLease.Notes`) and what it has made of
all rounds (`LeaderLease.Window`) agree with that after every call.
-/

namespace Quorum

/-- What is asked of a lease. -/
inductive LeaseCall where
  | beginRound (now : Instant)
  | recordAck (peer : NodeId) (round : Nat)
  deriving DecidableEq, Repr

/-! ## The history of a lease

Histories are lists with the latest call first. -/

namespace LeaseCall

/-- How many rounds have begun. They are numbered from one, so this is the
number of the latest one. -/
def rounds : List LeaseCall → Nat
  | [] => 0
  | .beginRound _ :: past => rounds past + 1
  | .recordAck _ _ :: past => rounds past

/-- When a round began. -/
def startOf (round : Nat) : List LeaseCall → Instant
  | [] => 0
  | .beginRound now :: past => if round = rounds past + 1 then now else startOf round past
  | .recordAck _ _ :: past => startOf round past

/-- The peers that acknowledged a round by its number while it was the
latest. -/
def ackers (round : Nat) : List LeaseCall → Finset NodeId
  | [] => ∅
  | .beginRound _ :: past => ackers round past
  | .recordAck peer number :: past =>
    if number = round ∧ rounds past = round then insert peer (ackers round past)
    else ackers round past

/-- The rounds that were acknowledged by a quorum, the leader being one of
it. -/
def confirmedRounds (quorum : Nat) (past : List LeaseCall) : Finset Nat :=
  (Finset.Icc 1 (rounds past)).filter fun round => quorum ≤ (ackers round past).card + 1

/-- Until when a lease of the given duration runs that was granted with the given
barrier: it covers one duration behind the barrier and behind the start of each
confirmed round. -/
def expiry (barrier : Instant) (duration : Duration) (quorum : Nat) (past : List LeaseCall) :
    Instant :=
  max (barrier + duration)
    ((confirmedRounds quorum past).sup fun round => startOf round past + duration)

variable {past : List LeaseCall} {call : LeaseCall} {round quorum : Nat} {barrier : Instant}
  {duration : Duration} {peer : NodeId}

theorem mem_confirmedRounds : round ∈ confirmedRounds quorum past ↔
    (1 ≤ round ∧ round ≤ rounds past) ∧ quorum ≤ (ackers round past).card + 1 := by
  rw [confirmedRounds, Finset.mem_filter, Finset.mem_Icc]

theorem rounds_le (call : LeaseCall) (past : List LeaseCall) :
    rounds past ≤ rounds (call :: past) := by
  cases call with
  | beginRound now => exact Nat.le_succ _
  | recordAck peer number => exact Nat.le_refl _

theorem rounds_pos (later : List LeaseCall) (start : Instant) :
    0 < rounds (later ++ [.beginRound start]) := by
  induction later with
  | nil => exact Nat.succ_pos _
  | cons call later ih => exact Nat.lt_of_lt_of_le ih (rounds_le call _)

/-- A call says nothing of rounds before the latest one. -/
theorem ackers_cons (earlier : round ≠ rounds (call :: past)) :
    ackers round (call :: past) = ackers round past := by
  cases call with
  | beginRound now => rfl
  | recordAck peer number =>
      have hno : ¬ (number = round ∧ rounds past = round) := fun h => earlier h.2.symm
      rw [ackers, if_neg hno]

theorem startOf_cons (begun : round ≤ rounds past) :
    startOf round (call :: past) = startOf round past := by
  cases call with
  | beginRound now => exact if_neg (by omega)
  | recordAck peer number => rfl

/-- A round that has not begun has not been acknowledged. -/
theorem ackers_eq_empty (later : rounds past < round) : ackers round past = ∅ := by
  induction past with
  | nil => rfl
  | cons call past ih =>
      rw [ackers_cons (Nat.ne_of_gt later)]
      exact ih (Nat.lt_of_le_of_lt (rounds_le call past) later)

theorem ackers_subset (round : Nat) (call : LeaseCall) (past : List LeaseCall) :
    ackers round past ⊆ ackers round (call :: past) := by
  cases call with
  | beginRound now => exact Finset.Subset.refl _
  | recordAck peer number =>
      show ackers round past ⊆ if number = round ∧ rounds past = round then
        insert peer (ackers round past) else ackers round past
      split
      · exact Finset.subset_insert _ _
      · exact Finset.Subset.refl _

/-- A call confirms the latest round or none. -/
theorem mem_confirmedRounds_cons (begun : 0 < rounds (call :: past)) :
    round ∈ confirmedRounds quorum (call :: past) ↔ round ∈ confirmedRounds quorum past ∨
      round = rounds (call :: past) ∧
        quorum ≤ (ackers (rounds (call :: past)) (call :: past)).card + 1 := by
  rw [mem_confirmedRounds, mem_confirmedRounds]
  have hle := rounds_le call past
  by_cases latest : round = rounds (call :: past)
  -- A latest round that was confirmed before has only gained acknowledgements.
  · subst latest
    constructor
    · exact fun h => .inr ⟨rfl, h.2⟩
    · rintro (⟨_, hquorum⟩ | ⟨_, hquorum⟩)
      · have hcard := Finset.card_le_card (ackers_subset (rounds (call :: past)) call past)
        exact ⟨⟨begun, Nat.le_refl _⟩, by omega⟩
      · exact ⟨⟨begun, Nat.le_refl _⟩, hquorum⟩
  -- Of any other round the call says nothing, and it begins none of them.
  · rw [ackers_cons latest]
    have hbefore : round ≤ rounds (call :: past) ↔ round ≤ rounds past := by
      cases call with
      | beginRound now =>
          rw [rounds] at latest ⊢
          omega
      | recordAck peer number => rfl
    rw [hbefore]
    exact ⟨.inl, fun h => h.resolve_right fun hlatest => latest hlatest.1⟩

theorem sup_startOf_cons (past : List LeaseCall) (call : LeaseCall) :
    ((confirmedRounds quorum past).sup fun round => startOf round (call :: past) + duration) =
      (confirmedRounds quorum past).sup fun round => startOf round past + duration :=
  Finset.sup_congr rfl fun round h => by rw [startOf_cons (mem_confirmedRounds.mp h).1.2]

/-- Where the latest round is confirmed, the lease covers it. -/
theorem expiry_cons_of_confirmed (begun : 0 < rounds (call :: past))
    (reached : quorum ≤ (ackers (rounds (call :: past)) (call :: past)).card + 1) :
    expiry barrier duration quorum (call :: past) =
      max (expiry barrier duration quorum past)
        (startOf (rounds (call :: past)) (call :: past) + duration) := by
  have hconfirmed : confirmedRounds quorum (call :: past) =
      insert (rounds (call :: past)) (confirmedRounds quorum past) := by
    ext round
    rw [mem_confirmedRounds_cons begun, Finset.mem_insert, or_comm]
    exact or_congr_left (and_iff_left reached)
  rw [expiry, hconfirmed, Finset.sup_insert, sup_startOf_cons, expiry]
  exact (congrArg (max (barrier + duration)) (Nat.max_comm _ _)).trans (Nat.max_assoc _ _ _).symm

/-- Where it is not, no round is confirmed by the call. -/
theorem confirmedRounds_cons_of_short (begun : 0 < rounds (call :: past))
    (short : ¬ quorum ≤ (ackers (rounds (call :: past)) (call :: past)).card + 1) :
    confirmedRounds quorum (call :: past) = confirmedRounds quorum past := by
  ext round
  rw [mem_confirmedRounds_cons begun]
  exact or_iff_left fun h => short h.2

/-- Nor by an acknowledgement that adds nobody. -/
theorem confirmedRounds_recordAck_of_same {number : Nat}
    (same : ackers (rounds past) (.recordAck peer number :: past) = ackers (rounds past) past) :
    confirmedRounds quorum (.recordAck peer number :: past) = confirmedRounds quorum past := by
  ext round
  rw [mem_confirmedRounds, mem_confirmedRounds]
  refine and_congr_right fun _ => ?_
  by_cases latest : round = rounds past
  · rw [latest, same]
  · rw [ackers_cons latest]

theorem expiry_cons_of_same
    (same : confirmedRounds quorum (call :: past) = confirmedRounds quorum past) :
    expiry barrier duration quorum (call :: past) = expiry barrier duration quorum past := by
  rw [expiry, same, sup_startOf_cons, expiry]

theorem expiry_le_cons (barrier : Instant) (duration : Duration) (quorum : Nat)
    (begun : 0 < rounds (call :: past)) :
    expiry barrier duration quorum past ≤ expiry barrier duration quorum (call :: past) := by
  by_cases reached : quorum ≤ (ackers (rounds (call :: past)) (call :: past)).card + 1
  · rw [expiry_cons_of_confirmed begun reached]
    exact Nat.le_max_left _ _
  · exact Nat.le_of_eq (expiry_cons_of_same (confirmedRounds_cons_of_short begun reached)).symm

end LeaseCall

/-! ## The lease beside its history -/

namespace LeaderLease

open LeaseCall

/-- The lease after a call. -/
def apply (l : LeaderLease) (quorum : Nat) : LeaseCall → Except ClockOverflow LeaderLease
  | .beginRound now => l.beginRound now quorum
  | .recordAck peer round => do
    let (l, _) ← l.recordAck peer round quorum
    return l

/-- The lease of a leader elected at `now`, after a history of calls. -/
def after (now : Instant) (duration prior : Duration) (quorum : Nat) :
    List LeaseCall → Except ClockOverflow LeaderLease
  | [] => grant now duration prior
  | call :: past => do (← after now duration prior quorum past).apply quorum call

variable {past : List LeaseCall} {call : LeaseCall} {quorum : Nat} {barrier now : Instant}
  {duration prior : Duration} {l l' : LeaderLease} {peer : NodeId} {round : Nat} {renewed : Bool}

/-- What a lease notes of the latest round. -/
structure Notes (past : List LeaseCall) (l : LeaderLease) : Prop where
  round : l.round = rounds past
  started : l.roundStartedAt = startOf (rounds past) past
  nodup : l.acks.Nodup
  acks : l.acks.toFinset = ackers (rounds past) past

/-- What a lease has made of all rounds, if it was granted with the given barrier
and duration. -/
structure Window (opening : Instant) (length : Duration) (quorum : Nat) (past : List LeaseCall)
    (l : LeaderLease) : Prop where
  barrier : l.barrier = opening
  duration : l.duration = length
  expiresAt : l.expiresAt = expiry opening length quorum past
  inClock : l.expiresAt < Instant.limit
  confirmed : l.confirmed = true ↔ (confirmedRounds quorum past).Nonempty

theorem Notes.card (h : Notes past l) : (ackers (rounds past) past).card = l.acks.length := by
  rw [← h.acks, List.toFinset_card_of_nodup h.nodup]

/-- A round that begins is noted with nobody's acknowledgement. -/
theorem Notes.beginRound (round : l.round = rounds past) (now : Instant) :
    Notes (.beginRound now :: past)
      { l with round := l.round + 1, roundStartedAt := now, acks := [] } where
  round := congrArg (· + 1) round
  started := (if_pos rfl).symm
  nodup := List.nodup_nil
  acks := (ackers_eq_empty (Nat.lt_succ_self _)).symm

/-- An acknowledgement that counts is noted. -/
theorem Notes.recordAck (h : Notes past l) (latest : round = l.round) (new : peer ∉ l.acks) :
    Notes (.recordAck peer round :: past) { l with acks := peer :: l.acks } where
  round := h.round
  started := h.started
  nodup := List.nodup_cons.mpr ⟨new, h.nodup⟩
  acks := by
    have hround : round = rounds past := latest.trans h.round
    rw [List.toFinset_cons, h.acks]
    exact (if_pos ⟨hround, rfl⟩).symm

/-- One that does not count leaves the notes as they are. -/
theorem Notes.ignore (h : Notes past l) (idle : ¬ (round = l.round ∧ peer ∉ l.acks)) :
    Notes (.recordAck peer round :: past) l where
  round := h.round
  started := h.started
  nodup := h.nodup
  acks := by
    rw [h.acks]
    show ackers (rounds past) past = if round = rounds past ∧ rounds past = rounds past then
      insert peer (ackers (rounds past) past) else ackers (rounds past) past
    split
    -- The history adds the peer once more, which a set does not notice.
    · next latest =>
        refine (Finset.insert_eq_of_mem ?_).symm
        rw [← h.acks, List.mem_toFinset]
        exact Decidable.not_not.mp fun new => idle ⟨latest.1.trans h.round.symm, new⟩
    · rfl

/-- What changes no confirmation changes nothing of the window. -/
theorem Window.same (h : Window barrier duration quorum past l)
    (same : confirmedRounds quorum (call :: past) = confirmedRounds quorum past) :
    Window barrier duration quorum (call :: past) l where
  barrier := h.barrier
  duration := h.duration
  expiresAt := h.expiresAt.trans (expiry_cons_of_same same).symm
  inClock := h.inClock
  confirmed := by
    rw [same]
    exact h.confirmed

/-- A lease that has noted a call is brought in line with it by a renewal, and
says whether the latest round is confirmed. The one way to fail is that the lease
would run past the end of the clock. -/
theorem Window.renew (h : Window barrier duration quorum past l) (notes : Notes (call :: past) l)
    (begun : 0 < rounds (call :: past)) :
    Ensures (expiry barrier duration quorum (call :: past) < Instant.limit) (l.renew quorum)
      fun (l', renewed) => Notes (call :: past) l' ∧
        Window barrier duration quorum (call :: past) l' ∧
        (renewed = true ↔ rounds (call :: past) ∈ confirmedRounds quorum (call :: past)) := by
  have hlatest : rounds (call :: past) ∈ confirmedRounds quorum (call :: past) ↔
      quorum ≤ l.acks.length + 1 := by
    rw [mem_confirmedRounds, notes.card]
    exact and_iff_right ⟨begun, Nat.le_refl _⟩
  unfold LeaderLease.renew
  split
  · next short =>
      have hshort : ¬ quorum ≤ l.acks.length + 1 := Nat.not_le.mpr short
      rw [← notes.card] at hshort
      exact .pure ⟨notes, h.same (confirmedRounds_cons_of_short begun hshort),
        iff_of_false Bool.false_ne_true (mt hlatest.mp (Nat.not_le.mpr short))⟩
  · next hquorum =>
      have hreached : quorum ≤ l.acks.length + 1 := Nat.not_lt.mp hquorum
      have hexpiry : expiry barrier duration quorum (call :: past) =
          max l.expiresAt (l.roundStartedAt + l.duration) := by
        rw [expiry_cons_of_confirmed begun (notes.card.symm ▸ hreached), h.expiresAt, h.duration,
          notes.started]
      -- The sum is on the clock because the new end, which is no earlier, is.
      have hbound : expiry barrier duration quorum (call :: past) < Instant.limit →
          l.roundStartedAt + l.duration < Instant.limit := by
        rw [hexpiry]
        exact Nat.lt_of_le_of_lt (Nat.le_max_right _ _)
      refine ((Instant.after_ensures _ _).self.weaken hbound).bind fun stop ⟨hstop, _⟩ => ?_
      obtain ⟨rfl, hlimit⟩ := Instant.after_ok hstop
      refine .pure ⟨⟨notes.round, notes.started, notes.nodup, notes.acks⟩, ?_,
        iff_of_true rfl (hlatest.mpr hreached)⟩
      exact {
        barrier := h.barrier
        duration := h.duration
        expiresAt := hexpiry.symm
        inClock := Nat.max_lt.mpr ⟨h.inClock, hlimit⟩
        confirmed := iff_of_true rfl ⟨_, hlatest.mpr hreached⟩ }

/-! ## One call after another -/

theorem grant_ensures (now : Instant) (duration prior : Duration) (quorum : Nat) :
    Ensures (expiry (now + prior) duration quorum [] < Instant.limit) (grant now duration prior)
      fun l => l.round = rounds [] ∧ Window (now + prior) duration quorum [] l := by
  have hexpiry : expiry (now + prior) duration quorum [] = now + prior + duration := by
    exact Nat.max_zero _
  rw [hexpiry]
  have hbarrier : now + prior + duration < Instant.limit → now + prior < Instant.limit :=
    Nat.lt_of_le_of_lt (Nat.le_add_right _ _)
  refine ((Instant.after_ensures now prior).weaken hbarrier).bind fun barrier heq => ?_
  subst heq
  refine (Instant.after_ensures _ duration).self.bind fun stop ⟨hstop, _⟩ => ?_
  obtain ⟨rfl, hlimit⟩ := Instant.after_ok hstop
  exact .pure ⟨rfl, {
    barrier := rfl
    duration := rfl
    expiresAt := hexpiry.symm
    inClock := hlimit
    confirmed := iff_of_false Bool.false_ne_true Finset.not_nonempty_empty }⟩

theorem beginRound_ensures (round : l.round = rounds past)
    (h : Window barrier duration quorum past l) (now : Instant) :
    Ensures (expiry barrier duration quorum (.beginRound now :: past) < Instant.limit)
      (l.beginRound now quorum) fun l' => Notes (.beginRound now :: past) l' ∧
        Window barrier duration quorum (.beginRound now :: past) l' := by
  have hopened : Window barrier duration quorum past
      { l with round := l.round + 1, roundStartedAt := now, acks := [] } :=
    ⟨h.barrier, h.duration, h.expiresAt, h.inClock, h.confirmed⟩
  exact (hopened.renew (.beginRound round now) (Nat.succ_pos _)).bind
    fun (l', renewed) ⟨hnotes, hwindow, _⟩ => .pure ⟨hnotes, hwindow⟩

/-- An acknowledgement is said to renew the lease where it is the peer's first of
the latest round and leaves that round confirmed. -/
theorem recordAck_ensures (notes : Notes past l) (h : Window barrier duration quorum past l)
    (begun : 0 < rounds past) (peer : NodeId) (round : Nat) :
    Ensures (expiry barrier duration quorum (.recordAck peer round :: past) < Instant.limit)
      (l.recordAck peer round quorum) fun (l', renewed) =>
        Notes (.recordAck peer round :: past) l' ∧
        Window barrier duration quorum (.recordAck peer round :: past) l' ∧
        (renewed = true ↔ (round = rounds past ∧ peer ∉ ackers round past) ∧
          round ∈ confirmedRounds quorum (.recordAck peer round :: past)) := by
  have hcounts : (round = l.round ∧ peer ∉ l.acks) ↔
      round = rounds past ∧ peer ∉ ackers round past := by
    rw [notes.round]
    refine and_congr_right fun latest => ?_
    rw [latest, ← notes.acks, List.mem_toFinset]
  unfold recordAck
  split
  · next counts =>
      obtain ⟨latest, _⟩ := hcounts.mp counts
      have hnoted := notes.recordAck counts.1 counts.2
      have hsame : Window barrier duration quorum past { l with acks := peer :: l.acks } :=
        ⟨h.barrier, h.duration, h.expiresAt, h.inClock, h.confirmed⟩
      refine (hsame.renew hnoted begun).mono fun (l', renewed) ⟨hnotes, hwindow, hrenewed⟩ =>
        ⟨hnotes, hwindow, hrenewed.trans ?_⟩
      rw [and_iff_right (hcounts.mp counts), latest]
      rfl
  · next idle =>
      have hignored := notes.ignore idle
      have hackers : ackers (rounds past) (.recordAck peer round :: past) =
          ackers (rounds past) past := hignored.acks.symm.trans notes.acks
      exact .pure ⟨hignored, h.same (confirmedRounds_recordAck_of_same hackers),
        iff_of_false Bool.false_ne_true fun h => idle (hcounts.mpr h.1)⟩

theorem apply_ensures (notes : Notes past l) (h : Window barrier duration quorum past l)
    (begun : 0 < rounds past) (call : LeaseCall) :
    Ensures (expiry barrier duration quorum (call :: past) < Instant.limit) (l.apply quorum call)
      fun l' => Notes (call :: past) l' ∧ Window barrier duration quorum (call :: past) l' := by
  cases call with
  | beginRound now => exact beginRound_ensures notes.round h now
  | recordAck peer round =>
      exact (recordAck_ensures notes h begun peer round).bind
        fun (l', renewed) ⟨hnotes, hwindow, _⟩ => .pure ⟨hnotes, hwindow⟩

/-- After any history that starts with a round the lease agrees with it. -/
theorem after_ensures (now : Instant) (duration prior : Duration) (quorum : Nat)
    (later : List LeaseCall) (start : Instant) :
    Ensures (expiry (now + prior) duration quorum (later ++ [.beginRound start]) < Instant.limit)
      (after now duration prior quorum (later ++ [.beginRound start])) fun l =>
        Notes (later ++ [.beginRound start]) l ∧
          Window (now + prior) duration quorum (later ++ [.beginRound start]) l := by
  -- The end never moves back, so a lease that stays on the clock was there before.
  induction later with
  | nil =>
      have hbegun : 0 < rounds [.beginRound start] := Nat.succ_pos _
      have hearlier := expiry_le_cons (now + prior) duration quorum hbegun
      refine ((grant_ensures now duration prior quorum).weaken
        (Nat.lt_of_le_of_lt hearlier)).bind fun l ⟨hround, hwindow⟩ => ?_
      exact beginRound_ensures hround hwindow start
  | cons call later ih =>
      have hbegun := rounds_pos later start
      have hearlier := expiry_le_cons (now + prior) duration quorum
        (Nat.lt_of_lt_of_le hbegun (rounds_le call _))
      exact (ih.weaken (Nat.lt_of_le_of_lt hearlier)).bind fun l ⟨hnotes, hwindow⟩ =>
        apply_ensures hnotes hwindow hbegun call

end LeaderLease

end Quorum
