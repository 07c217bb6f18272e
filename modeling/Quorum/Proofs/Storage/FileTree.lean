import Quorum.Storage.FileTree

/-!
# Files in a directory

What the operations on files do to one directory, as long as the path to it
stays the same. A file comes and goes under a name that stands for no
directory, so no path leads through it, and wherever a path led before it
leads to afterwards (`Swaps.walk`).
-/

namespace Quorum.FileTree

variable {t t' t₁ t₂ : FileTree} {k j : Nat} {name other : String} {node : FileNode}
  {dir : Path}

/-! ## Tables of directories -/

theorem directory_modify (t : FileTree) (k j : Nat) (change : Directory → Directory) :
    directory ⟨t.directories.modify k change⟩ j =
      if j = k ∧ k < t.directories.size then change (t.directory j) else t.directory j := by
  unfold directory
  simp only [Array.getD_eq_getD_getElem?, Array.getElem?_modify]
  by_cases hj : k = j
  · subst hj
    by_cases hk : k < t.directories.size
    · simp [hk]
    · simp [hk]
  · simp [hj, Ne.symm hj]

theorem find?_of_size_le (h : t.directories.size ≤ k) (name : String) : t.find? k name = none := by
  have hnone : t.directories[k]? = none := Array.getElem?_eq_none h
  rw [find?, directory, Array.getD_eq_getD_getElem?, hnone]
  rfl

theorem lookup_filter_self (entries : List (String × FileNode)) (name : String) :
    (entries.filter (·.1 != name)).lookup name = none := by
  rw [List.lookup_eq_none_iff]
  intro entry hentry
  have hne : entry.1 ≠ name := by simpa using (List.mem_filter.mp hentry).2
  exact bne_iff_ne.mpr hne.symm

theorem lookup_filter_of_ne (entries : List (String × FileNode)) (hne : other ≠ name) :
    (entries.filter (·.1 != name)).lookup other = entries.lookup other := by
  induction entries with
  | nil => rfl
  | cons entry entries ih =>
      obtain ⟨n, node⟩ := entry
      by_cases hn : n = name
      · subst hn
        have hother : (other == n) = false := by simpa using hne
        simp [List.lookup_cons, hother, ih]
      · simp [hn, List.lookup_cons, ih]

/-! ## Changes under one name -/

/-- The trees differ in nothing but what one name stands for in one
directory. -/
structure Swaps (k : Nat) (name : String) (t t' : FileTree) : Prop where
  size : t'.directories.size = t.directories.size
  parent : ∀ j, (t'.directory j).parent = (t.directory j).parent
  others : ∀ j other, (j, other) ≠ (k, name) → t'.find? j other = t.find? j other

theorem erase_swaps (t : FileTree) (k : Nat) (name : String) : Swaps k name t (t.erase k name) where
  size := Array.size_modify
  parent j := by
    rw [erase, directory_modify]
    split <;> rfl
  others j other hne := by
    rw [find?, erase, directory_modify, find?]
    split
    · next h =>
        have hother : other ≠ name := fun heq => hne (by rw [heq, h.1])
        exact lookup_filter_of_ne _ hother
    · rfl

theorem set_swaps (t : FileTree) (k : Nat) (name : String) (node : FileNode) :
    Swaps k name t (t.set k name node) where
  size := Array.size_modify.trans (t.erase_swaps k name).size
  parent j := by
    rw [set, directory_modify, ← (t.erase_swaps k name).parent j]
    split <;> rfl
  others j other hne := by
    rw [← (t.erase_swaps k name).others j other hne, find?, set, directory_modify, find?]
    split
    · next h =>
        have hother : (other == name) = false :=
          beq_eq_false_iff_ne.mpr fun heq => hne (by rw [heq, h.1])
        simp [List.lookup_cons, hother]
    · rfl

theorem find?_erase_self (t : FileTree) (k : Nat) (name : String) :
    (t.erase k name).find? k name = none := by
  rw [find?, erase, directory_modify]
  split
  · exact lookup_filter_self _ name
  · next h =>
      exact find?_of_size_le (Nat.le_of_not_lt fun hk => h ⟨rfl, hk⟩) name

theorem find?_set_self (name : String) (node : FileNode) (h : k < t.directories.size) :
    (t.set k name node).find? k name = some node := by
  have hsize : k < (t.erase k name).directories.size := (t.erase_swaps k name).size ▸ h
  rw [find?, set, directory_modify, if_pos ⟨rfl, hsize⟩]
  exact List.lookup_cons_self

/-- A name outside of the table stands for nothing, whatever it is set to. -/
theorem find?_set_of_size_le (name : String) (node : FileNode) (h : t.directories.size ≤ k) :
    (t.set k name node).find? k name = none :=
  find?_of_size_le ((t.set_swaps k name node).size ▸ h) name

namespace Swaps

theorem trans (h₁ : Swaps k name t t₁) (h₂ : Swaps k name t₁ t₂) : Swaps k name t t₂ where
  size := h₂.size.trans h₁.size
  parent j := (h₂.parent j).trans (h₁.parent j)
  others j other hne := (h₂.others j other hne).trans (h₁.others j other hne)

/-- Another name in the directory stands for what it did. -/
theorem find? (h : Swaps k name t t') (hne : other ≠ name) : t'.find? k other = t.find? k other :=
  h.others k other fun heq => hne (Prod.mk.inj heq).2

theorem enter (h : Swaps k name t t') (file : ∀ d, t.find? k name ≠ some (.directory d))
    {next : Nat} (found : t.enter j other = .ok (.directory next)) :
    t'.enter j other = .ok (.directory next) := by
  unfold FileTree.enter at found ⊢
  rw [h.parent j]
  split
  · next hstays => rwa [if_pos hstays] at found
  · next hstays =>
      rw [if_neg hstays] at found
      split
      · next hup => rwa [if_pos hup] at found
      · next hup =>
          rw [if_neg hup] at found
          split
          · next hlong =>
              rw [if_pos hlong] at found
              exact nomatch found
          · next hlong =>
              rw [if_neg hlong] at found
              have hsame : t'.find? j other = t.find? j other := by
                refine h.others j other ?_
                rintro ⟨⟩
                -- the name itself leads to no directory
                split at found
                · next node hnode => exact file next (hnode.trans (by rw [Except.ok.inj found]))
                · exact nomatch found
              rwa [hsame]

/-- A path that led to a directory still leads there. -/
theorem walk (h : Swaps k name t t') (file : ∀ d, t.find? k name ≠ some (.directory d)) :
    ∀ {path : Path} {j m : Nat}, t.walk j path = .ok (.directory m) →
      t'.walk j path = .ok (.directory m) := by
  intro path
  induction path with
  | nil => exact fun hwalk => hwalk
  | cons first rest ih =>
      intro j m hwalk
      unfold FileTree.walk at hwalk ⊢
      split at hwalk
      · next next hfirst =>
          rw [h.enter file hfirst]
          exact ih hwalk
      · split at hwalk <;> exact nomatch hwalk
      · exact nomatch hwalk

end Swaps

/-! ## Paths to a name -/

/-- A name under which a directory can hold something. -/
structure Proper (name : String) : Prop where
  leads : Path.stays name = false ∧ name ≠ ".."
  short : ¬ Path.nameLimit < name.utf8ByteSize

theorem Proper.enter (h : Proper name) (t : FileTree) (k : Nat) :
    t.enter k name = match t.find? k name with
      | some node => .ok node
      | none => .error .notFound := by
  have hleads : ¬ Path.stays name = true := by simp [h.leads.1]
  exact (if_neg hleads).trans ((if_neg h.leads.2).trans (if_neg h.short))

theorem Proper.occupant (h : Proper name) (t : FileTree) (k : Nat) :
    t.occupant k name = .ok (t.find? k name) := by
  rw [FileTree.occupant, h.enter]
  cases t.find? k name <;> rfl

theorem Proper.ne_empty (h : Proper name) : name ≠ "" := by
  rintro rfl
  exact absurd h.leads.1 (by decide)

/-- A path can be asked for if no name in it holds the end mark and it is not
too long. -/
theorem check_ok_iff {path : Path} :
    check path = .ok () ↔
      (∀ name ∈ path, '\x00' ∉ name.toList) ∧ Path.size path ≤ Path.limit := by
  have hnul : path.any (·.contains '\x00') = true ↔ ¬ ∀ name ∈ path, '\x00' ∉ name.toList := by
    simp [String.contains_char_eq]
  unfold check
  split
  · next hsome => exact iff_of_false (fun h => nomatch h) fun h => hnul.mp hsome h.1
  · next hnone =>
      have hclean := Classical.not_not.mp (mt hnul.mpr hnone)
      split
      · next hlong =>
          exact iff_of_false (fun h => nomatch h) fun h => Nat.not_lt_of_le h.2 hlong
      · next hshort => exact iff_of_true rfl ⟨hclean, Nat.le_of_not_lt hshort⟩

theorem Proper.locate (h : Proper name) (t : FileTree) (dir : Path) :
    t.locate (dir ++ [name]) = (do
      check (dir ++ [name])
      match ← t.walk 0 dir with
      | .file _ => .error .notADirectory
      | .directory k => return (k, name)) := by
  have hwritten : ((dir ++ [name]).reverse.dropWhile (· == "")).reverse = dir ++ [name] := by
    simp [h.ne_empty]
  show (do
    check (dir ++ [name])
    match ← t.walk 0 ((dir ++ [name]).reverse.dropWhile (· == "")).reverse.dropLast with
    | .file _ => .error .notADirectory
    | .directory k =>
      return (k, ((dir ++ [name]).reverse.dropWhile (· == "")).reverse.getLastD ".")) = _
  rw [hwritten, List.dropLast_concat, List.getLastD_concat]

theorem walk_concat (h : Proper name) :
    ∀ {dir : Path} {j : Nat}, t.walk j dir = .ok (.directory k) →
      t.walk j (dir ++ [name]) = match t.find? k name with
        | some node => .ok node
        | none => .error .notFound := by
  intro dir
  induction dir with
  | nil =>
      intro j hwalk
      obtain rfl := FileNode.directory.inj (Except.ok.inj hwalk)
      rw [List.nil_append, FileTree.walk, h.enter]
      cases t.find? j name with
      | none => rfl
      | some node => cases node <;> rfl
  | cons first rest ih =>
      intro j hwalk
      unfold FileTree.walk at hwalk
      rw [List.cons_append, FileTree.walk]
      split at hwalk
      · exact ih hwalk
      · split at hwalk <;> exact nomatch hwalk
      · exact nomatch hwalk

/-! ## Operations on the files of a directory -/

/-- Whatever is done where a name stands needs a path that leads there. -/
theorem located_ok_iff {α : Type} {f : Nat × String → Except IoError α} {a : α}
    (h : Proper name) :
    (t.locate (dir ++ [name]) >>= f) = .ok a ↔ check (dir ++ [name]) = .ok () ∧
      ∃ k, t.walk 0 dir = .ok (.directory k) ∧ f (k, name) = .ok a := by
  rw [h.locate]
  cases check (dir ++ [name]) with
  | error e => simp [bind, Except.bind]
  | ok _ =>
      cases t.walk 0 dir with
      | error e => simp [bind, Except.bind]
      | ok node => cases node <;> simp [bind, Except.bind, pure, Except.pure]

theorem create_ok_iff (h : Proper name) :
    t.create (dir ++ [name]) = .ok t' ↔ check (dir ++ [name]) = .ok () ∧
      ∃ k, t.walk 0 dir = .ok (.directory k) ∧ (∀ d, t.find? k name ≠ some (.directory d)) ∧
        t' = t.set k name (.file []) := by
  rw [create, located_ok_iff h]
  refine and_congr_right fun _ => exists_congr fun k => and_congr_right fun _ => ?_
  simp only [h.occupant]
  rcases t.find? k name with _ | ⟨_ | _⟩ <;> simp [bind, Except.bind, pure, Except.pure, eq_comm]

theorem extend_ok_iff (h : Proper name) {content : List UInt8} :
    t.extend (dir ++ [name]) content = .ok t' ↔ check (dir ++ [name]) = .ok () ∧
      ∃ k, t.walk 0 dir = .ok (.directory k) ∧ ∃ written, t.find? k name = some (.file written) ∧
        t' = t.set k name (.file (written ++ content)) := by
  rw [extend, located_ok_iff h]
  refine and_congr_right fun _ => exists_congr fun k => and_congr_right fun _ => ?_
  simp only [h.occupant]
  rcases t.find? k name with _ | ⟨_ | _⟩ <;> simp [bind, Except.bind, pure, Except.pure, eq_comm]

theorem rename_ok_iff (h : Proper name) (h' : Proper other) :
    t.rename (dir ++ [name]) (dir ++ [other]) = .ok t' ↔ check (dir ++ [name]) = .ok () ∧
      ∃ k, t.walk 0 dir = .ok (.directory k) ∧ check (dir ++ [other]) = .ok () ∧
        ∃ content, t.find? k name = some (.file content) ∧
          (∀ d, t.find? k other ≠ some (.directory d)) ∧
            t' = (t.erase k name).set k other (.file content) := by
  rw [rename, located_ok_iff h]
  refine and_congr_right fun _ => exists_congr fun k => and_congr_right fun hwalk => ?_
  rw [located_ok_iff h', hwalk]
  refine and_congr_right fun _ => ?_
  simp only [h.occupant, h'.occupant, Except.ok.injEq, FileNode.directory.injEq, exists_eq_left']
  rcases t.find? k name with _ | ⟨_ | _⟩ <;> rcases t.find? k other with _ | ⟨_ | _⟩ <;>
    simp [bind, Except.bind, pure, Except.pure, eq_comm]

/-- What a path leads to that ends in a name. -/
theorem look_concat (h : Proper name) (path : check (dir ++ [name]) = .ok ())
    (walk : t.walk 0 dir = .ok (.directory k)) :
    t.look (dir ++ [name]) = match t.find? k name with
      | some node => .ok node
      | none => .error .notFound := by
  rw [look, path]
  exact walk_concat h walk

end Quorum.FileTree
