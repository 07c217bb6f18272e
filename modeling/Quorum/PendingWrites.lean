import Quorum.Log.Basic

/-!
# Pending writes

Clients whose write has a place in the log but is not applied yet. A write
has succeeded when the entry applied at its index is the very one that was
appended for it; if another entry is applied there, another leader has
overwritten it.
-/

namespace Quorum

/-- A write that waits for the entry at its index to be applied. -/
structure PendingWrite (ω : Type) where
  index : LogIndex
  entry : LogEntry
  waiter : ω
  deriving Repr

/-- The writes that wait, at most one for each index. -/
structure PendingWrites (ω : Type) where
  writes : List (PendingWrite ω) := []
  deriving Repr

namespace PendingWrites

variable {ω : Type}

/-- The write that waits at an index. -/
def at? (p : PendingWrites ω) (index : LogIndex) : Option (PendingWrite ω) :=
  p.writes.find? (·.index == index)

/-- Without the write that waits at an index. -/
def erase (p : PendingWrites ω) (index : LogIndex) : PendingWrites ω :=
  ⟨p.writes.filter (·.index != index)⟩

/-- Adds a write. A waiter already at its index gives way and is handed back,
whichever of the two entries will be applied there. -/
def insert (p : PendingWrites ω) (index : LogIndex) (entry : LogEntry) (waiter : ω) :
    PendingWrites ω × Option ω :=
  (⟨⟨index, entry, waiter⟩ :: (p.erase index).writes⟩, (p.at? index).map (·.waiter))

/-- Settles the writes at the indices that were applied: each waiter, in the
order of application, with whether its own entry was the one applied. -/
def resolve (p : PendingWrites ω) :
    List (LogIndex × LogEntry) → PendingWrites ω × List (ω × Bool)
  | [] => (p, [])
  | (index, entry) :: applied =>
    match p.at? index with
    | none => p.resolve applied
    | some write =>
      let (rest, settled) := (p.erase index).resolve applied
      (rest, (write.waiter, write.entry == entry) :: settled)

/-- Without the writes whose waiter is to be dropped. -/
def retain (p : PendingWrites ω) (keep : ω → Bool) : PendingWrites ω :=
  ⟨p.writes.filter (keep ·.waiter)⟩

/-- How many writes wait. -/
def size (p : PendingWrites ω) : Nat := p.writes.length

def isEmpty (p : PendingWrites ω) : Bool := p.writes.isEmpty

end PendingWrites

end Quorum
