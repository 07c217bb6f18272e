import Quorum.Log.Entry

/-!
# The key-value store

The state machine that committed entries feed: a map from keys to values in
which a key that was never set reads as the empty text. `Store.replay` is
the store that a list of entries makes; in it each key has the value that it
was given last (`Store.get_replay`).
-/

namespace Quorum

/-- A map from keys to values: one pair for each key that was ever set, in
the order of the first setting. -/
structure Store where
  pairs : List (String × String) := []
  deriving DecidableEq, Repr

namespace Store

/-- The store in which nothing was ever set. -/
def empty : Store := {}

/-- The pairs after a key is given a value: in its place if the key is known,
behind the others if not. -/
def put (key value : String) : List (String × String) → List (String × String)
  | [] => [(key, value)]
  | (k, v) :: rest => if k = key then (key, value) :: rest else (k, v) :: put key value rest

def apply (s : Store) : Operation → Store
  | .noOp => s
  | .set key value => ⟨put key value s.pairs⟩

/-- The value of a key; empty if it was never set. -/
def get (s : Store) (key : String) : String :=
  (s.pairs.lookup key).getD ""

@[simp] theorem get_empty (key : String) : empty.get key = "" := rfl

theorem lookup_pair (key value other : String) (rest : List (String × String)) :
    ((key, value) :: rest).lookup other = if other = key then some value else rest.lookup other := by
  rw [List.lookup_cons]
  by_cases same : other = key
  · rw [if_pos same, beq_iff_eq.mpr same]
  · rw [if_neg same, beq_eq_false_iff_ne.mpr same]

theorem lookup_put (key value other : String) (pairs : List (String × String)) :
    (put key value pairs).lookup other =
      if other = key then some value else pairs.lookup other := by
  induction pairs with
  | nil => exact lookup_pair key value other []
  | cons pair rest ih =>
      obtain ⟨k, v⟩ := pair
      rw [put, lookup_pair]
      split
      · next known =>
          rw [known, lookup_pair]
          split <;> rfl
      · next unknown =>
          rw [lookup_pair, ih]
          by_cases found : other = k
          · rw [if_pos found, if_neg fun same => unknown (found.symm.trans same), if_pos found]
          · rw [if_neg found, if_neg found]

/-- A key that is set has its new value, and the others keep theirs. -/
@[simp] theorem get_apply_set (s : Store) (key value other : String) :
    (s.apply (.set key value)).get other = if other = key then value else s.get other := by
  rw [get, apply, lookup_put, get]
  split <;> rfl

/-- The number of keys that were ever set. -/
def size (s : Store) : Nat := s.pairs.length

/-- Nothing was ever set. -/
def isEmpty (s : Store) : Bool := s.pairs.isEmpty

/-- The store after the operations of some entries, in their order. -/
def applyAll (s : Store) (entries : List LogEntry) : Store :=
  entries.foldl (fun s entry => s.apply entry.operation) s

def replay (entries : List LogEntry) : Store :=
  empty.applyAll entries

/-- The value that an operation gives to a key, if it gives it one. -/
def valueFor? (key : String) : Operation → Option String
  | .noOp => none
  | .set k value => if key = k then some value else none

theorem get_apply (s : Store) (operation : Operation) (key : String) :
    (s.apply operation).get key = (valueFor? key operation).getD (s.get key) := by
  cases operation with
  | noOp => rfl
  | set k value =>
      rw [get_apply_set, valueFor?]
      split <;> rfl

theorem get_applyAll (s : Store) (entries : List LogEntry) (key : String) :
    (s.applyAll entries).get key =
      (entries.filterMap (valueFor? key ·.operation)).getLast?.getD (s.get key) := by
  induction entries generalizing s with
  | nil => rfl
  | cons entry rest ih =>
      have hrest : (s.applyAll (entry :: rest)).get key =
          ((s.apply entry.operation).applyAll rest).get key := rfl
      rw [hrest, ih, get_apply, List.filterMap_cons]
      cases valueFor? key entry.operation with
      | none => rfl
      | some value => rw [List.getLast?_cons, Option.getD_some, Option.getD_some]

/-- In a store that entries make, a key has the value that was given to it
last. -/
theorem get_replay (entries : List LogEntry) (key : String) :
    (replay entries).get key =
      (entries.filterMap (valueFor? key ·.operation)).getLast?.getD "" := by
  rw [replay, get_applyAll, get_empty]

end Store

end Quorum
