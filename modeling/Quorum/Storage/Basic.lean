import Quorum.Record

/-!
# Stable storage

What a node needs of the medium that outlives a crash: loading the record
that was saved last, and saving a new one. Both may fail, and a failed save
may have changed the medium.
-/

namespace Quorum

/-- A medium `σ` on which a record is kept, with errors `ε`. -/
class Storage (σ : Type) (ε : outParam Type) where
  /-- The record that was saved last, or an empty one on first use. -/
  load : σ → Except ε Record
  /-- Replaces the record. -/
  save : σ → Record → σ × Except ε Unit

end Quorum
