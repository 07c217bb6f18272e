import Quorum.Storage.Basic

/-!
# Storage that can be made to fail

A medium with one switch for loading and one for saving. While a switch is
set, its operation fails and does not reach the medium.
-/

namespace Quorum

/-- A medium with switches that make it fail. -/
structure SwitchedStorage (σ : Type) where
  medium : σ
  loadFails : Bool := false
  saveFails : Bool := false
  /-- How many saves have reached the medium. -/
  saves : Nat := 0

/-- The failures of a switched medium: its own, and those that a switch
causes. -/
inductive SwitchedError (ε : Type) where
  | switchedOff
  | medium (error : ε)
  deriving DecidableEq, Repr

instance {σ ε : Type} [Storage σ ε] : Storage (SwitchedStorage σ) (SwitchedError ε) where
  load s :=
    if s.loadFails then .error .switchedOff else (Storage.load s.medium).mapError .medium
  save s record :=
    if s.saveFails then (s, .error .switchedOff)
    else
      let (medium, result) := Storage.save s.medium record
      ({ s with medium, saves := s.saves + 1 }, result.mapError .medium)

namespace SwitchedStorage

variable {σ ε : Type} [Storage σ ε]

@[simp] theorem load_eq (s : SwitchedStorage σ) : Storage.load s =
    if s.loadFails then .error .switchedOff else (Storage.load s.medium).mapError .medium := rfl

/-- A save reaches the medium unless the switch for saving is set. -/
@[simp] theorem save_eq (s : SwitchedStorage σ) (record : Record) : Storage.save s record =
    if s.saveFails then (s, .error .switchedOff)
    else ({ s with medium := (Storage.save s.medium record).1, saves := s.saves + 1 },
      (Storage.save s.medium record).2.mapError .medium) := rfl

end SwitchedStorage

end Quorum
