import Quorum.Storage.Basic

/-!
# Storage in memory

A medium that never fails and lasts as long as its value is kept.
-/

namespace Quorum

/-- A record in memory, and how often it was replaced. -/
structure MemoryStorage where
  record : Record := {}
  saves : Nat := 0
  deriving DecidableEq, Repr

instance : Storage MemoryStorage Empty where
  load s := .ok s.record
  save s record := ({ record, saves := s.saves + 1 }, .ok ())

namespace MemoryStorage

@[simp] theorem load_eq (s : MemoryStorage) : Storage.load s = .ok s.record := rfl

@[simp] theorem save_eq (s : MemoryStorage) (record : Record) :
    Storage.save s record = ({ record, saves := s.saves + 1 }, .ok ()) := rfl

end MemoryStorage

/-- The result of an operation that has no way to fail. -/
def always {α : Type} : Except Empty α → α
  | .ok a => a

end Quorum
