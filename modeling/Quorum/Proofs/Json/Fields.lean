import Quorum.Json.Fields

/-!
# Records through JSON and back

A record is written as an object that has each of its fields once, so each of
them is found again (`fields?_record`). The values in the fields are read as
they were, numbers and durations as long as they fit into their words.
-/

namespace Quorum.Json

/-- What is read of each item as it was written is read of all of them. -/
theorem mapM_map_eq_some {α β γ : Type} {write : α → β} {read : β → Option γ} {g : α → γ}
    {l : List α} (h : ∀ a ∈ l, read (write a) = some (g a)) :
    (l.map write).mapM read = some (l.map g) := by
  induction l with
  | nil => rfl
  | cons a rest ih =>
      have hrest := ih fun b hb => h b (List.mem_cons_of_mem a hb)
      rw [List.map_cons, List.mapM_cons, h a List.mem_cons_self, hrest]
      rfl

section Records

variable {members : List (String × Json)}

/-- Where no name stands twice, each name stands for one member. -/
theorem filter_name {name : String} {value : Json} (nodup : (members.map (·.1)).Nodup)
    (h : (name, value) ∈ members) :
    (members.map fun m => (some m.1, m.2)).filter (fun m => m.1 == some name) =
      [(some name, value)] := by
  induction members with
  | nil => exact absurd h List.not_mem_nil
  | cons m rest ih =>
      rw [List.map_cons, List.nodup_cons] at nodup
      rcases List.mem_cons.mp h with rfl | h
      · -- the first member has the name, so none of the others has it
        have hnone : (rest.map fun m => (some m.1, m.2)).filter (fun m => m.1 == some name) =
            [] := by
          rw [List.filter_eq_nil_iff, List.forall_mem_map]
          intro m hm heq
          obtain rfl := Option.some.inj (beq_iff_eq.mp heq)
          exact nodup.1 (List.mem_map.mpr ⟨m, hm, rfl⟩)
        rw [List.map_cons, List.filter_cons_of_pos (by simp), hnone]
      · have hne : m.1 ≠ name := by
          rintro rfl
          exact nodup.1 (List.mem_map.mpr ⟨_, h, rfl⟩)
        rw [List.map_cons, List.filter_cons_of_neg (by simpa using hne)]
        exact ih nodup.2 h

theorem member?_of_mem {name : String} {value : Json} (nodup : (members.map (·.1)).Nodup)
    (h : (name, value) ∈ members) :
    member? name (members.map fun m => (some m.1, m.2)) = some (some value) := by
  rw [member?, filter_name nodup h]

/-- A record that names no field twice is read as its fields in their order,
whether or not other members are tolerated. -/
theorem fields?_record {names : List String} (hnames : members.map (·.1) = names)
    (nodup : names.Nodup) (unknown : Unknown) :
    (record members).fields? names unknown = some (members.map fun m => some m.2) := by
  subst hnames
  have htexts : (members.map fun m => ((some m.1 : Literal), m.2)).mapM Prod.fst =
      some (members.map Prod.fst) := mapM_map_eq_some fun _ _ => rfl
  have hknown : (members.map (·.1)).all (members.map (·.1)).contains = true := by
    rw [List.all_eq_true]
    intro name hname
    exact List.contains_iff_mem.mpr hname
  have hvalues : (members.map (·.1)).mapM
      (member? · (members.map fun m => (some m.1, m.2))) = some (members.map fun m => some m.2) :=
    mapM_map_eq_some fun _ hm => member?_of_mem nodup hm
  show ((members.map fun m => ((some m.1 : Literal), m.2)).mapM Prod.fst).bind _ = _
  rw [htexts, Option.bind_some, hknown, Bool.not_true, Bool.and_false]
  exact hvalues

end Records

/-- The case of a choice with content. -/
@[simp] theorem case?_record (name : String) (content : Json) :
    (record [(name, content)]).case? = some (name, some content) := rfl

/-! ## The values of fields -/

theorem word?_nat {n : Nat} (h : Word.fits n = true) : word? (.nat n) = some n := if_pos h

@[simp] theorem bool?_bool (b : Bool) : bool? (.bool b) = some b := rfl

@[simp] theorem text?_text (s : String) : text? (text s) = some s := rfl

/-- A list is read as it was if its items are. -/
theorem list?_array {α : Type} {toJson : α → Json} {item? : Json → Option α} {l : List α}
    (h : ∀ a ∈ l, item? (toJson a) = some a) : list? item? (.array (l.map toJson)) = some l := by
  rw [list?, mapM_map_eq_some (g := id) h, List.map_id]

/-- Every duration is read as it was, down to the nanosecond. -/
theorem duration?_ofDuration {d : Duration} (h : d ≤ Duration.max) :
    duration? (ofDuration d) = some d := by
  have hseconds : Word.fits d.seconds = true :=
    decide_eq_true (Nat.div_lt_of_lt_mul (Nat.lt_of_le_of_lt h (by decide)))
  have hbelow : d.subsecond < 1000000000 := Nat.mod_lt d (by decide)
  have hnanos : Word.fits d.subsecond = true :=
    decide_eq_true (Nat.lt_trans hbelow (by decide))
  have hword : d.subsecond < 4294967296 := Nat.lt_trans hbelow (by decide)
  -- less than a second carries nothing into the seconds
  have hwhole : Duration.seconds d.subsecond = 0 := Nat.div_eq_of_lt hbelow
  have hsum : Duration.ofSeconds d.seconds + d.subsecond = d := Nat.div_add_mod' d Duration.second
  have hfields : (ofDuration d).fields? ["secs", "nanos"] .refused =
      some [some (.nat d.seconds), some (.nat d.subsecond)] := fields?_record rfl (by simp) _
  simp [duration?, hfields, word?_nat, hseconds, hnanos, hword, hwhole, hsum]

end Quorum.Json
