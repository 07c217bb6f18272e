import Quorum.Proofs.Handlers.Frame

/-!
# Outcomes of computations that may fail

A handler fails only where a deadline would lie past the end of the clock.
`Ensures safe x P` says both halves at once: whatever `x` gives has `P`, and
`x` gives something as long as it is `safe`.
-/

namespace Quorum

structure Ensures {ε α : Type} (safe : Prop) (x : Except ε α) (P : α → Prop) : Prop where
  holds : ∀ a, x = .ok a → P a
  returns : safe → ∃ a, x = .ok a

/-! ## What is computed -/

instance decidableExistsOk {ε α : Type} (x : Except ε α) (P : α → Prop) [∀ a, Decidable (P a)] :
    Decidable (∃ a, x = .ok a ∧ P a) :=
  match x with
  | .ok a => decidable_of_iff (P a) ⟨fun h => ⟨a, rfl, h⟩, fun ⟨_, heq, h⟩ => Except.ok.inj heq ▸ h⟩
  | .error _ => isFalse fun ⟨_, heq, _⟩ => nomatch heq

instance decidableExistsSome {α : Type} (x : Option α) (P : α → Prop) [∀ a, Decidable (P a)] :
    Decidable (∃ a, x = some a ∧ P a) :=
  match x with
  | some a =>
      decidable_of_iff (P a) ⟨fun h => ⟨a, rfl, h⟩, fun ⟨_, heq, h⟩ => Option.some.inj heq ▸ h⟩
  | none => isFalse fun ⟨_, heq, _⟩ => nomatch heq

/-! ## Both halves at once -/

namespace Ensures

variable {ε ε' α β : Type} {safe safe' : Prop} {x : Except ε α} {f : α → Except ε β}
  {P Q : α → Prop} {R : β → Prop} {a : α}

theorem pure (h : P a) : Ensures safe (pure a : Except ε α) P :=
  ⟨fun _ ha => Except.ok.inj ha ▸ h, fun _ => ⟨a, rfl⟩⟩

/-- Where nothing is safe only the results count. -/
theorem of_ok (h : ∀ a, x = .ok a → P a) : Ensures False x P :=
  ⟨h, False.elim⟩

theorem mono (h : Ensures safe x P) (hPQ : ∀ a, P a → Q a) : Ensures safe x Q :=
  ⟨fun a ha => hPQ a (h.holds a ha), h.returns⟩

theorem weaken (h : Ensures safe x P) (hsafe : safe' → safe) : Ensures safe' x P :=
  ⟨h.holds, fun h' => h.returns (hsafe h')⟩

theorem bind (h : Ensures safe x P) (hf : ∀ a, P a → Ensures safe (f a) R) :
    Ensures safe (x >>= f) R := by
  constructor
  · intro b hb
    obtain ⟨a, ha, hb⟩ := exists_of_bind_ok hb
    exact (hf a (h.holds a ha)).holds b hb
  · intro hsafe
    obtain ⟨a, ha⟩ := h.returns hsafe
    obtain ⟨b, hb⟩ := (hf a (h.holds a ha)).returns hsafe
    refine ⟨b, ?_⟩
    rw [ha]
    exact hb

/-- What a computation gives is also known to be what it gives. -/
theorem self (h : Ensures safe x P) : Ensures safe x fun a => x = .ok a ∧ P a :=
  ⟨fun a ha => ⟨ha, h.holds a ha⟩, h.returns⟩

theorem map (h : Ensures safe x P) {g : α → β} (hg : ∀ a, P a → R (g a)) :
    Ensures safe (x.map g) R := by
  cases x with
  | ok a => exact .pure (hg a (h.holds a rfl))
  | error e =>
      refine ⟨fun b hb => (nomatch hb), fun hsafe => ?_⟩
      obtain ⟨a, ha⟩ := h.returns hsafe
      exact nomatch ha

theorem mapError (h : Ensures safe x P) (g : ε → ε') : Ensures safe (x.mapError g) P := by
  cases x with
  | ok a =>
      refine ⟨fun b hb => ?_, fun _ => ⟨a, rfl⟩⟩
      obtain rfl : a = b := Except.ok.inj hb
      exact h.holds a rfl
  | error e =>
      refine ⟨fun b hb => (nomatch hb), fun hsafe => ?_⟩
      obtain ⟨a, ha⟩ := h.returns hsafe
      exact nomatch ha

/-- A fold over a list, by an invariant that knows what is left of it. -/
theorem foldlM {f : β → α → Except ε β} (inv : List α → β → Prop)
    (step : ∀ a rest b, inv (a :: rest) b → Ensures safe (f b a) (inv rest)) :
    ∀ (l : List α) (b : β), inv l b → Ensures safe (l.foldlM f b) (inv []) := by
  intro l
  induction l with
  | nil => exact fun b h => .pure h
  | cons a rest ih =>
      intro b h
      rw [List.foldlM_cons]
      exact (step a rest b h).bind ih

end Ensures

/-- Where a computation is done for each member of a list, it succeeded for
each of them. -/
theorem mapM_ok {ε α β : Type} {f : α → Except ε β} :
    ∀ {l : List α} {bs : List β}, l.mapM f = .ok bs →
      bs.length = l.length ∧
        ∀ (i : Nat) b, bs[i]? = some b → ∃ a, l[i]? = some a ∧ f a = .ok b := by
  intro l
  induction l with
  | nil =>
      intro bs h
      obtain rfl := Except.ok.inj h
      exact ⟨rfl, fun i b hb => by simp at hb⟩
  | cons a rest ih =>
      intro bs h
      rw [List.mapM_cons] at h
      obtain ⟨b, hb, h⟩ := exists_of_bind_ok h
      obtain ⟨bs', hbs, h⟩ := exists_of_bind_ok h
      obtain rfl := Except.ok.inj h
      obtain ⟨hlength, hall⟩ := ih hbs
      refine ⟨by simp [hlength], fun i b' hb' => ?_⟩
      cases i with
      | zero =>
          obtain rfl : b = b' := by simpa using hb'
          exact ⟨a, rfl, hb⟩
      | succ i => exact hall i b' (by simpa using hb')

theorem Instant.after_ensures (start : Instant) (d : Duration) :
    Ensures (start + d < limit) (after start d) (· = start + d) := by
  unfold after
  constructor
  · intro stop h
    split at h
    · exact (Except.ok.inj h).symm
    · exact nomatch h
  · intro hsafe
    exact ⟨start + d, if_pos hsafe⟩

end Quorum
