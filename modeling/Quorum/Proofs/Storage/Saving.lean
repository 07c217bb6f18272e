import Quorum.Proofs.Handlers.Frame
import Quorum.Proofs.Storage.FileTree
import Quorum.Proofs.Storage.RecordFiles

/-!
# Saving a record in files

A directory in which a save has succeeded once is one in which every save does
(`DiskStorage.usable_of_save`, `DiskStorage.Usable.save`), and what was saved is
loaded again. Each file is replaced by one operation, so after any number of
the operations of a save either both files are the old ones, or only the log is
new, or both are (`DiskStorage.Usable.run_take`).
-/

namespace Quorum

open FileTree

/-! ## Runs of operations -/

namespace FileTree

variable {t t₁ t₂ t' : FileTree} {a b : List FileOperation} {operation : FileOperation}
  {result : Except IoError Unit}

theorem run_cons (h : t.apply operation = .ok t₁) : t.run (operation :: a) = t₁.run a := by
  rw [run, h]

/-- Operations that succeed do so one after the other. -/
theorem exists_run_cons (h : t.run (operation :: a) = (t', .ok ())) :
    ∃ t₁, t.apply operation = .ok t₁ ∧ t₁.run a = (t', .ok ()) := by
  unfold run at h
  split at h
  · next t₁ happly => exact ⟨t₁, happly, h⟩
  · exact nomatch (Prod.mk.inj h).2

theorem run_append (h : t.run a = (t₁, .ok ())) : t.run (a ++ b) = t₁.run b := by
  induction a generalizing t with
  | nil =>
      obtain ⟨rfl, _⟩ := Prod.mk.inj h
      rfl
  | cons operation rest ih =>
      obtain ⟨t₀, happly, hrest⟩ := exists_run_cons h
      rw [List.cons_append, run_cons happly]
      exact ih hrest

theorem run_append_ok (h : t.run (a ++ b) = (t', .ok ())) :
    ∃ t₁, t.run a = (t₁, .ok ()) ∧ t₁.run b = (t', .ok ()) := by
  induction a generalizing t with
  | nil => exact ⟨t, rfl, h⟩
  | cons operation rest ih =>
      obtain ⟨t₀, happly, hrest⟩ := exists_run_cons h
      obtain ⟨t₁, hfirst, hlast⟩ := ih hrest
      exact ⟨t₁, (run_cons happly).trans hfirst, hlast⟩

theorem flush_ok {path : Path} (h : t.apply (.flush path) = .ok t') : t' = t := by
  rw [apply] at h
  cases hlook : t.look path with
  | error e =>
      rw [hlook] at h
      exact nomatch h
  | ok node =>
      rw [hlook] at h
      exact (Except.ok.inj h).symm

end FileTree

namespace Disk

/-- The names that storage uses in its directory. -/
def names : List String := [temporary logName, logName, temporary metaName, metaName]

theorem proper_of_mem : ∀ name ∈ names, Proper name := by
  have h : ∀ name ∈ names, (Path.stays name = false ∧ name ≠ "..") ∧
      ¬ Path.nameLimit < name.utf8ByteSize := by decide
  exact fun name hname => ⟨(h name hname).1, (h name hname).2⟩

end Disk

namespace DiskStorage

variable {s s' : DiskStorage} {k : Nat} {name other : String} {content : List UInt8}
  {t : FileTree} {record : Record}

/-- The directory of a storage is there, the paths to its files can be asked
for, and no directory is in the place of a file. -/
structure Usable (s : DiskStorage) (k : Nat) : Prop where
  walk : s.files.walk 0 s.directory = .ok (.directory k)
  inTable : k < s.files.directories.size
  path : ∀ name ∈ Disk.names, check (s.directory ++ [name]) = .ok ()
  files : ∀ name ∈ Disk.names, ∀ d, s.files.find? k name ≠ some (.directory d)

/-- A change of one of the files leaves the directory usable. -/
theorem Usable.swaps (h : s.Usable k) (hname : name ∈ Disk.names) (hs : Swaps k name s.files t)
    (file : ∀ d, t.find? k name ≠ some (.directory d)) : Usable { s with files := t } k where
  walk := hs.walk (h.files name hname) h.walk
  inTable := hs.size ▸ h.inTable
  path := h.path
  files other hother d := by
    by_cases hne : other = name
    · exact hne ▸ file d
    · rw [hs.find? hne]
      exact h.files other hother d

/-! ## Single operations -/

theorem Usable.set (h : s.Usable k) (hname : name ∈ Disk.names) (content : List UInt8) :
    Usable { s with files := s.files.set k name (.file content) } k :=
  h.swaps hname (s.files.set_swaps k name _) fun d => by
    rw [find?_set_self name _ h.inTable]
    simp

theorem Usable.create (h : s.Usable k) (hname : name ∈ Disk.names) :
    ∃ t, s.files.apply (.create (s.directory ++ [name])) = .ok t ∧
      Usable { s with files := t } k ∧ Swaps k name s.files t ∧
        t.find? k name = some (.file []) :=
  ⟨s.files.set k name (.file []),
    (create_ok_iff (Disk.proper_of_mem name hname)).mpr
      ⟨h.path name hname, k, h.walk, h.files name hname, rfl⟩,
    h.set hname [], s.files.set_swaps k name _, find?_set_self name _ h.inTable⟩

theorem Usable.extend (h : s.Usable k) (hname : name ∈ Disk.names) {written : List UInt8}
    (file : s.files.find? k name = some (.file written)) (content : List UInt8) :
    ∃ t, s.files.apply (.extend (s.directory ++ [name]) content) = .ok t ∧
      Usable { s with files := t } k ∧ Swaps k name s.files t ∧
        t.find? k name = some (.file (written ++ content)) :=
  ⟨s.files.set k name (.file (written ++ content)),
    (extend_ok_iff (Disk.proper_of_mem name hname)).mpr
      ⟨h.path name hname, k, h.walk, written, file, rfl⟩,
    h.set hname _, s.files.set_swaps k name _, find?_set_self name _ h.inTable⟩

theorem Usable.flush (h : s.Usable k) (hname : name ∈ Disk.names) {written : List UInt8}
    (file : s.files.find? k name = some (.file written)) :
    s.files.apply (.flush (s.directory ++ [name])) = .ok s.files := by
  rw [apply, look_concat (Disk.proper_of_mem name hname) (h.path name hname) h.walk, file]
  rfl

theorem Usable.rename (h : s.Usable k) (hname : name ∈ Disk.names) (hother : other ∈ Disk.names)
    (file : s.files.find? k name = some (.file content)) :
    ∃ t, s.files.apply (.rename (s.directory ++ [name]) (s.directory ++ [other])) = .ok t ∧
      Usable { s with files := t } k ∧ t.find? k other = some (.file content) ∧
        ∀ n, n ≠ name → n ≠ other → t.find? k n = s.files.find? k n := by
  have herased : Usable { s with files := s.files.erase k name } k :=
    h.swaps hname (s.files.erase_swaps k name) fun d => by simp [find?_erase_self]
  refine ⟨(s.files.erase k name).set k other (.file content),
    (rename_ok_iff (Disk.proper_of_mem name hname) (Disk.proper_of_mem other hother)).mpr
      ⟨h.path name hname, k, h.walk, h.path other hother, content, file, h.files other hother, rfl⟩,
    herased.set hother content, find?_set_self other _ herased.inTable, fun n hn hn' => ?_⟩
  rw [((s.files.erase k name).set_swaps k other _).find? hn',
    (s.files.erase_swaps k name).find? hn]

theorem check_of_concat {dir : Path} (h : check (dir ++ [name]) = .ok ()) :
    check dir = .ok () := by
  have hsize : ∀ path : Path, Path.size path ≤ Path.size (path ++ [name]) := by
    intro path
    induction path with
    | nil => exact Nat.zero_le _
    | cons first rest ih => exact Nat.add_le_add_left ih _
  obtain ⟨hnul, hlimit⟩ := check_ok_iff.mp h
  exact check_ok_iff.mpr ⟨fun n hn => hnul n (List.mem_append_left _ hn),
    Nat.le_trans (hsize dir) hlimit⟩

theorem Usable.flushDirectory (h : s.Usable k) :
    s.files.apply (.flushDirectory s.directory) = .ok s.files := by
  have hpath := check_of_concat (h.path Disk.logName (by decide))
  rw [apply, look, hpath]
  show (s.files.walk 0 s.directory).map _ = _
  rw [h.walk]
  rfl

/-! ## Sequences of operations -/

/-- Up to the renaming nothing but the temporary file changes, and from then on
the file has its new content. -/
theorem Usable.replaceFile_take (h : s.Usable k) (hname : name ∈ Disk.names)
    (htemporary : Disk.temporary name ∈ Disk.names) (content : List UInt8) (count : Nat) :
    ∃ t, s.files.run ((Disk.replaceFile s.directory name content).take count) = (t, .ok ()) ∧
      Usable { s with files := t } k ∧
      ∀ other, other ≠ Disk.temporary name → t.find? k other =
        if other = name ∧ 4 ≤ count then some (.file content) else s.files.find? k other := by
  obtain ⟨t₁, hcreate, h₁, hs₁, file₁⟩ := h.create htemporary
  obtain ⟨t₂, hextend, h₂, hs₂, file₂⟩ := h₁.extend htemporary file₁ content
  rw [List.nil_append] at file₂
  have hflush := h₂.flush htemporary file₂
  obtain ⟨t₄, hrename, h₄, file₄, hothers⟩ := h₂.rename htemporary hname file₂
  have htaken : ∀ {other}, other ≠ Disk.temporary name →
      t₂.find? k other = s.files.find? k other := fun hother =>
    (hs₂.find? hother).trans (hs₁.find? hother)
  match count with
  | 0 => exact ⟨s.files, rfl, h, fun other _ => by simp⟩
  | 1 =>
      refine ⟨t₁, run_cons hcreate, h₁, fun other hother => ?_⟩
      rw [if_neg (by omega), hs₁.find? hother]
  | 2 =>
      refine ⟨t₂, (run_cons hcreate).trans (run_cons hextend), h₂, fun other hother => ?_⟩
      rw [if_neg (by omega), htaken hother]
  | 3 =>
      refine ⟨t₂, (run_cons hcreate).trans ((run_cons hextend).trans (run_cons hflush)), h₂,
        fun other hother => ?_⟩
      rw [if_neg (by omega), htaken hother]
  | rest + 4 =>
      have hall : (Disk.replaceFile s.directory name content).take (rest + 4) =
          Disk.replaceFile s.directory name content :=
        List.take_of_length_le (by simp [Disk.replaceFile])
      refine ⟨t₄, ?_, h₄, fun other hother => ?_⟩
      · rw [hall]
        exact (run_cons hcreate).trans ((run_cons hextend).trans
          ((run_cons hflush).trans (run_cons hrename)))
      · by_cases hsame : other = name
        · rw [if_pos ⟨hsame, by omega⟩, hsame, file₄]
        · rw [if_neg fun hand => hsame hand.1, hothers other hother hsame, htaken hother]

/-- What is on file after some operations of a save: the old log up to the
first renaming, and the old metadata up to the second. -/
theorem Usable.run_take (h : s.Usable k) (record : Record) (count : Nat) :
    ∃ t, s.files.run ((Disk.saveOperations s.directory record).take count) = (t, .ok ()) ∧
      Usable { s with files := t } k ∧
      t.find? k Disk.logName = (if 4 ≤ count then
        some (.file (Text.Utf8.encode (Disk.logText record.log)))
        else s.files.find? k Disk.logName) ∧
      t.find? k Disk.metaName = (if 8 ≤ count then
        some (.file (Text.Utf8.encode (Disk.metaJson record).write))
        else s.files.find? k Disk.metaName) := by
  have hlogName : Disk.logName ∈ Disk.names := by decide
  have hmetaName : Disk.metaName ∈ Disk.names := by decide
  obtain ⟨t₁, hlog, h₁, hfound₁⟩ := h.replaceFile_take hlogName (by decide)
    (Text.Utf8.encode (Disk.logText record.log)) count
  obtain ⟨t₂, hmeta, h₂, hfound₂⟩ := h₁.replaceFile_take hmetaName (by decide)
    (Text.Utf8.encode (Disk.metaJson record).write) (count - 4)
  have hlast : t₂.run ([FileOperation.flushDirectory s.directory].take (count - 8)) =
      (t₂, .ok ()) := by
    cases count - 8 with
    | zero => rfl
    | succ n => exact (run_cons h₂.flushDirectory).trans (by rw [List.take_nil]; rfl)
  refine ⟨t₂, ?_, h₂, ?_, ?_⟩
  · have hlength : ∀ name content,
        (Disk.replaceFile s.directory name content).length = 4 := fun _ _ => rfl
    rw [Disk.saveOperations, List.take_append, List.take_append, List.length_append, hlength,
      hlength, List.append_assoc, run_append hlog, run_append hmeta]
    exact hlast
  · rw [hfound₂ _ (by decide), if_neg fun hand => absurd hand.1 (by decide),
      hfound₁ _ (by decide)]
    simp
  · have hcount : 4 ≤ count - 4 ↔ 8 ≤ count := by omega
    rw [hfound₂ _ (by decide), hfound₁ _ (by decide),
      if_neg (fun hand => absurd hand.1 (by decide) : ¬ (Disk.metaName = Disk.logName ∧ 4 ≤ count))]
    simp [hcount]

/-! ## Loading -/

theorem Usable.content? (h : s.Usable k) (hname : name ∈ Disk.names) :
    s.content? name = match s.files.find? k name with
      | some (.file content) => .ok (some content)
      | _ => .ok none := by
  have hlook := look_concat (Disk.proper_of_mem name hname) (h.path name hname) h.walk
  rw [DiskStorage.content?, exists?, FileTree.read, hlook]
  rcases hfind : s.files.find? k name with _ | ⟨content | d⟩
  · rfl
  · rfl
  · exact absurd hfind (h.files name hname d)

/-- What is loaded depends on two names alone. -/
theorem Usable.load_congr {s₁ s₂ : DiskStorage} (h₁ : s₁.Usable k) (h₂ : s₂.Usable k) :
    (s₁.files.find? k Disk.logName = s₂.files.find? k Disk.logName → s₁.loadLog = s₂.loadLog) ∧
    (s₁.files.find? k Disk.metaName = s₂.files.find? k Disk.metaName →
      s₁.loadMeta = s₂.loadMeta) := by
  constructor
  · intro hsame
    rw [loadLog, loadLog, h₁.content? (by decide), h₂.content? (by decide), hsame]
  · intro hsame
    rw [loadMeta, loadMeta, h₁.content? (by decide), h₂.content? (by decide), hsame]

theorem loadLog_of_content {log : Log} (recordable : ∀ entry ∈ log, entry.Recordable)
    (content : s.content? Disk.logName = .ok (some (Text.Utf8.encode (Disk.logText log)))) :
    s.loadLog = .ok log := by
  rw [loadLog, content]
  exact Disk.readLog_logText recordable

theorem loadMeta_of_content (recordable : record.Recordable)
    (content : s.content? Disk.metaName =
      .ok (some (Text.Utf8.encode (Disk.metaJson record).write))) :
    s.loadMeta = .ok { record with log := [] } := by
  have hread : (Json.ofOctets? (Text.Utf8.encode (Disk.metaJson record).write)).bind
      Disk.metaOfJson? = some { record with log := [] } := by
    rw [Json.ofOctets?_write]
    exact Disk.metaOfJson?_metaJson recordable
  rw [loadMeta, content]
  simp only [bind, Except.bind]
  rw [hread]
  rfl

theorem Usable.loadLog_of_file (h : s.Usable k) (recordable : record.Recordable)
    (file : s.files.find? k Disk.logName =
      some (.file (Text.Utf8.encode (Disk.logText record.log)))) :
    s.loadLog = .ok record.log :=
  loadLog_of_content recordable.log (by rw [h.content? (by decide), file])

theorem Usable.loadMeta_of_file (h : s.Usable k) (recordable : record.Recordable)
    (file : s.files.find? k Disk.metaName =
      some (.file (Text.Utf8.encode (Disk.metaJson record).write))) :
    s.loadMeta = .ok { record with log := [] } :=
  loadMeta_of_content recordable (by rw [h.content? (by decide), file])

/-- Metadata that were loaded could have been saved. -/
theorem recordable_of_loadMeta (h : s.loadMeta = .ok record) :
    record.Recordable ∧ record.log = [] := by
  obtain ⟨content?, _, h⟩ := exists_of_bind_ok h
  cases content? with
  | none =>
      obtain rfl := Except.ok.inj h
      exact ⟨Record.recordable_empty, rfl⟩
  | some content =>
      simp only [] at h
      split at h
      · exact nomatch h
      · next hread =>
          obtain rfl := Except.ok.inj h
          obtain ⟨v, _, hmeta⟩ := Option.bind_eq_some_iff.mp hread
          exact Disk.recordable_of_metaOfJson? hmeta

theorem recordable_of_loadLog {log : Log} (h : s.loadLog = .ok log) :
    ∀ entry ∈ log, entry.Recordable := by
  obtain ⟨content?, _, h⟩ := exists_of_bind_ok h
  cases content? with
  | none =>
      obtain rfl := Except.ok.inj h
      exact fun entry he => nomatch he
  | some content => exact Disk.recordable_of_entriesOf h

/-- A record is loaded in its two parts. -/
theorem load_eq_ok_iff : Storage.load s = .ok record ↔
    s.loadLog = .ok record.log ∧ s.loadMeta = .ok { record with log := [] } := by
  constructor
  · intro h
    obtain ⟨log, hlog, h⟩ := exists_of_bind_ok h
    obtain ⟨stored, hmeta, h⟩ := exists_of_bind_ok h
    obtain rfl := Except.ok.inj h
    have hempty := (recordable_of_loadMeta hmeta).2
    refine ⟨hlog, hmeta.trans (congrArg Except.ok ?_)⟩
    rw [← hempty]
  · rintro ⟨hlog, hmeta⟩
    show (do
      let log ← s.loadLog
      let record ← s.loadMeta
      return { record with log }) = _
    rw [hlog, hmeta]
    rfl

/-- Whatever was loaded could have been saved. -/
theorem recordable_of_load (h : Storage.load s = .ok record) : record.Recordable := by
  obtain ⟨hlog, hmeta⟩ := load_eq_ok_iff.mp h
  obtain ⟨⟨hterm, hvote, _⟩, hcommit⟩ := (recordable_of_loadMeta hmeta).1
  exact ⟨⟨hterm, hvote, recordable_of_loadLog hlog⟩, hcommit⟩

/-! ## Whole saves -/

theorem save_eq (s : DiskStorage) (record : Record) {t : FileTree} {result : Except IoError Unit}
    (h : s.files.run (Disk.saveOperations s.directory record) = (t, result)) :
    Storage.save s record = ({ s with files := t }, result.mapError .io) := by
  have hsave : Storage.save s record =
      ({ s with files := (s.files.run (Disk.saveOperations s.directory record)).1 },
        (s.files.run (Disk.saveOperations s.directory record)).2.mapError .io) := rfl
  rw [hsave, h]

theorem save_directory {result : Except DiskError Unit}
    (h : Storage.save s record = (s', result)) : s'.directory = s.directory := by
  rw [save_eq s record rfl] at h
  exact (congrArg (·.1.directory) h).symm

/-- The files hold the text of a record. -/
structure Holds (s : DiskStorage) (record : Record) : Prop where
  log : s.content? Disk.logName = .ok (some (Text.Utf8.encode (Disk.logText record.log)))
  metadata : s.content? Disk.metaName =
    .ok (some (Text.Utf8.encode (Disk.metaJson record).write))

theorem Holds.load (h : s.Holds record) (recordable : record.Recordable) :
    Storage.load s = .ok record :=
  load_eq_ok_iff.mpr ⟨loadLog_of_content recordable.log h.log,
    loadMeta_of_content recordable h.metadata⟩

/-- In a usable directory all the operations of a save succeed. -/
theorem Usable.run_save (h : s.Usable k) (record : Record) :
    ∃ t, s.files.run (Disk.saveOperations s.directory record) = (t, .ok ()) ∧
      Usable { s with files := t } k ∧ Holds { s with files := t } record := by
  obtain ⟨t, hrun, h', hlog, hmeta⟩ := h.run_take record 9
  have hall : (Disk.saveOperations s.directory record).take 9 =
      Disk.saveOperations s.directory record := List.take_of_length_le (Nat.le_refl 9)
  rw [hall] at hrun
  refine ⟨t, hrun, h', ?_, ?_⟩
  · rw [h'.content? (by decide), hlog]
    rfl
  · rw [h'.content? (by decide), hmeta]
    rfl

/-- In a usable directory a save succeeds, and what was saved is loaded. -/
theorem Usable.save (h : s.Usable k) (recordable : record.Recordable) :
    ∃ s', Storage.save s record = (s', .ok ()) ∧ s'.Usable k ∧ Storage.load s' = .ok record := by
  obtain ⟨t, hrun, h', holds⟩ := h.run_save record
  exact ⟨{ s with files := t }, save_eq s record hrun, h', holds.load recordable⟩

/-- Where a file has been replaced there was a directory, with no directory in
the place of the file. -/
theorem exists_of_replaceFile {dir : Path} {t' : FileTree} (hname : Proper name)
    (htemporary : Proper (Disk.temporary name)) (hne : name ≠ Disk.temporary name)
    (h : t.run (Disk.replaceFile dir name content) = (t', .ok ())) :
    ∃ k, t.walk 0 dir = .ok (.directory k) ∧ k < t.directories.size ∧
      (∀ n ∈ [Disk.temporary name, name], check (dir ++ [n]) = .ok () ∧
        ∀ d, t.find? k n ≠ some (.directory d)) ∧
      t'.walk 0 dir = .ok (.directory k) ∧
        ∀ n ∉ [Disk.temporary name, name], t'.find? k n = t.find? k n := by
  obtain ⟨t₁, hcreate, h⟩ := exists_run_cons h
  obtain ⟨t₂, hextend, h⟩ := exists_run_cons h
  obtain ⟨t₃, hflush, h⟩ := exists_run_cons h
  obtain ⟨t₄, hrename, h⟩ := exists_run_cons h
  obtain ⟨rfl, _⟩ := Prod.mk.inj h
  obtain rfl := flush_ok hflush
  obtain ⟨hpath, k, hwalk, hfile, ht₁⟩ := (create_ok_iff htemporary).mp hcreate
  have hs₁ : Swaps k (Disk.temporary name) t t₁ := ht₁ ▸ t.set_swaps k _ _
  obtain ⟨_, k₁, hsame₁, written, hwritten, ht₂⟩ := (extend_ok_iff htemporary).mp hextend
  obtain rfl := FileNode.directory.inj (Except.ok.inj ((hs₁.walk hfile hwalk).symm.trans hsame₁))
  have hsize : k < t.directories.size := by
    refine Nat.lt_of_not_le fun hle => ?_
    -- a file that was created outside of the table could not be extended
    rw [ht₁, find?_set_of_size_le _ _ hle] at hwritten
    exact nomatch hwritten
  have hs₂ : Swaps k (Disk.temporary name) t t₃ := hs₁.trans (ht₂ ▸ t₁.set_swaps k _ _)
  obtain ⟨_, k₂, hsame₂, hpath', moved, hmoved, hfile', ht₄⟩ :=
    (rename_ok_iff htemporary hname).mp hrename
  obtain rfl := FileNode.directory.inj (Except.ok.inj ((hs₂.walk hfile hwalk).symm.trans hsame₂))
  have hs₃ : Swaps k (Disk.temporary name) t (t₃.erase k (Disk.temporary name)) :=
    hs₂.trans (t₃.erase_swaps k _)
  have hs₄ : Swaps k name (t₃.erase k (Disk.temporary name)) t₄ := ht₄ ▸ set_swaps _ k _ _
  have hold : ∀ d, t.find? k name ≠ some (.directory d) := fun d =>
    hs₂.find? hne ▸ hfile' d
  refine ⟨k, hwalk, hsize, ?_, ?_, ?_⟩
  · intro n hn
    simp only [List.mem_cons, List.not_mem_nil, or_false] at hn
    rcases hn with rfl | rfl
    · exact ⟨hpath, hfile⟩
    · exact ⟨hpath', hold⟩
  · exact hs₄.walk (fun d => by rw [hs₃.find? hne]; exact hold d) (hs₃.walk hfile hwalk)
  · intro n hn
    simp only [List.mem_cons, List.not_mem_nil, or_false, not_or] at hn
    rw [hs₄.find? hn.2, hs₃.find? hn.1]

/-- A directory in which a save has succeeded was usable before it. -/
theorem usable_of_save (h : Storage.save s record = (s', .ok ())) : ∃ k, s.Usable k := by
  have hrun : ∃ t, s.files.run (Disk.saveOperations s.directory record) = (t, .ok ()) := by
    cases hresult : s.files.run (Disk.saveOperations s.directory record) with
    | mk t result =>
        rw [save_eq s record hresult] at h
        cases result with
        | error e => exact nomatch (Prod.mk.inj h).2
        | ok _ => exact ⟨t, rfl⟩
  obtain ⟨t, hrun⟩ := hrun
  rw [Disk.saveOperations, List.append_assoc] at hrun
  obtain ⟨t₁, hlog, hrun⟩ := run_append_ok hrun
  obtain ⟨t₂, hmeta, _⟩ := run_append_ok hrun
  obtain ⟨k, hwalk, hsize, hnames, hwalk₁, hothers⟩ :=
    exists_of_replaceFile (Disk.proper_of_mem _ (by decide)) (Disk.proper_of_mem _ (by decide))
      (by decide) hlog
  obtain ⟨k', hwalk', _, hnames', _⟩ :=
    exists_of_replaceFile (Disk.proper_of_mem _ (by decide)) (Disk.proper_of_mem _ (by decide))
      (by decide) hmeta
  obtain rfl := FileNode.directory.inj (Except.ok.inj (hwalk₁.symm.trans hwalk'))
  have hall : ∀ name ∈ Disk.names, check (s.directory ++ [name]) = .ok () ∧
      ∀ d, s.files.find? k name ≠ some (.directory d) := by
    intro name hname
    by_cases hlogs : name ∈ [Disk.temporary Disk.logName, Disk.logName]
    · exact hnames name hlogs
    · have hmetas : name ∈ [Disk.temporary Disk.metaName, Disk.metaName] := by
        simp only [Disk.names, List.mem_cons] at hname hlogs ⊢
        tauto
      rw [← hothers name hlogs]
      exact hnames' name hmetas
  exact ⟨k, hwalk, hsize, fun name hname => (hall name hname).1,
    fun name hname => (hall name hname).2⟩

/-- What a save that succeeds has put into the files. -/
theorem holds_of_save (h : Storage.save s record = (s', .ok ())) : s'.Holds record := by
  obtain ⟨k, usable⟩ := usable_of_save h
  obtain ⟨t, hrun, _, holds⟩ := usable.run_save record
  obtain ⟨rfl, _⟩ := Prod.mk.inj (h.symm.trans (save_eq s record hrun))
  exact holds

/-! ## First use -/

/-- A directory to which nothing was saved so far, and where nothing is in the
way of saving. -/
structure Fresh (s : DiskStorage) : Prop where
  usable : ∃ k, s.Usable k
  empty : Storage.load s = .ok {}

/-- A directory without files, the only one beside the root. -/
def blank : DiskStorage where
  files := ⟨#[{ entries := [("data", .directory 1)] }, {}]⟩
  directory := ["data"]

theorem blank_usable : blank.Usable 1 where
  walk := by decide
  inTable := by decide
  path name hname := by
    have hall : ∀ name ∈ Disk.names, (∀ part ∈ ["data", name], '\x00' ∉ part.toList) ∧
        Path.size ["data", name] ≤ Path.limit := by decide
    exact check_ok_iff.mpr (hall name hname)
  files name hname d := by
    have hnone : ∀ name ∈ Disk.names, blank.files.find? 1 name = none := by decide
    rw [hnone name hname]
    simp

theorem blank_fresh : blank.Fresh where
  usable := ⟨1, blank_usable⟩
  empty := by
    refine load_eq_ok_iff.mpr ⟨?_, ?_⟩
    · rw [loadLog, blank_usable.content? (by decide)]
      rfl
    · rw [loadMeta, blank_usable.content? (by decide)]
      rfl

end DiskStorage

end Quorum
