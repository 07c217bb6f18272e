import Quorum.Proofs.Storage.Saving

/-!
# Saves that are cut short

What a crash in the middle of a save leaves on file. Operations happen at once
and in their order, so some first part of them has been carried out. Names that
were given by then are given, whether or not their directory was flushed; but a
file that was written to and not flushed since may hold anything. The only files
of this kind are the temporary ones, which are never loaded, so there are three
records that can be loaded afterwards (`DiskStorage.Usable.load_interrupted`).
-/

namespace Quorum

namespace FileOperation

/-- The files whose content might not outlast a crash, after one more operation. -/
def unflushed (paths : List Path) : FileOperation → List Path
  | .create path => path :: paths
  | .extend path _ => path :: paths
  | .flush path => paths.filter (· ≠ path)
  | .rename source target =>
    (paths.filter (· ≠ target)).map fun path => if path = source then target else path
  | .flushDirectory _ => paths

end FileOperation

namespace FileTree

/-- A file holds something else. -/
def spoil (garbage : Path → List UInt8) (t : FileTree) (path : Path) : FileTree :=
  (t.run [.create path, .extend path (garbage path)]).1

/-- What is left after some operations and a crash. New files and new names have
taken effect at once and in their order, so the crash takes none of them back and
it does not matter whether a directory was flushed. Only what was written to a
file waits for its flush. -/
def crashed (t : FileTree) (done : List FileOperation) (garbage : Path → List UInt8) : FileTree :=
  (done.foldl FileOperation.unflushed []).foldl (spoil garbage) (t.run done).1

end FileTree

namespace Disk

/-- Until it is flushed the temporary file of a replacement may hold anything,
and no other. -/
theorem unflushed_replaceFile (directory : Path) (name : String) (content : List UInt8)
    (count : Nat) :
    ∃ times, (3 ≤ count → times = 0) ∧
      ((replaceFile directory name content).take count).foldl FileOperation.unflushed [] =
        List.replicate times (directory ++ [temporary name]) := by
  match count with
  | 0 => exact ⟨0, fun _ => rfl, rfl⟩
  | 1 => exact ⟨1, fun h => absurd h (by decide), rfl⟩
  | 2 => exact ⟨2, fun h => absurd h (by decide), rfl⟩
  | rest + 3 =>
      refine ⟨0, fun _ => rfl, ?_⟩
      cases rest <;> simp [replaceFile, FileOperation.unflushed]

theorem unflushed_saveOperations (directory : Path) (record : Record) (count : Nat) :
    ∀ path ∈ ((saveOperations directory record).take count).foldl FileOperation.unflushed [],
      ∃ name ∈ [logName, metaName], path = directory ++ [temporary name] := by
  intro path hpath
  have hlength : ∀ name content, (replaceFile directory name content).length = 4 :=
    fun _ _ => rfl
  obtain ⟨times, hflushed, hlog⟩ := unflushed_replaceFile directory logName
    (Text.Utf8.encode (logText record.log)) count
  obtain ⟨times', _, hmeta⟩ := unflushed_replaceFile directory metaName
    (Text.Utf8.encode (metaJson record).write) (count - 4)
  have hlast : ∀ paths, ([FileOperation.flushDirectory directory].take (count - 8)).foldl
      FileOperation.unflushed paths = paths := by
    intro paths
    cases count - 8 with
    | zero => rfl
    | succ n =>
        rw [List.take_succ_cons, List.take_nil]
        rfl
  rw [saveOperations, List.take_append, List.take_append, List.length_append, hlength, hlength,
    List.foldl_append, List.foldl_append, hlog, hlast] at hpath
  by_cases hcount : 4 ≤ count
  · rw [hflushed (by omega), List.replicate_zero, hmeta] at hpath
    exact ⟨metaName, by simp, List.eq_of_mem_replicate hpath⟩
  · rw [show count - 4 = 0 by omega, List.take_zero, List.foldl_nil] at hpath
    exact ⟨logName, by simp, List.eq_of_mem_replicate hpath⟩

end Disk

namespace DiskStorage

variable {s : DiskStorage} {k : Nat} {name : String} {old new : Record}

/-- What is left if the save of a record is cut short by a crash when some of
its operations have been carried out. -/
def interrupted (s : DiskStorage) (record : Record) (count : Nat)
    (garbage : Path → List UInt8) : DiskStorage :=
  { s with
    files := s.files.crashed ((Disk.saveOperations s.directory record).take count) garbage }

theorem Usable.spoil (h : s.Usable k) (hname : name ∈ [Disk.logName, Disk.metaName])
    (garbage : Path → List UInt8) :
    Usable { s with files := s.files.spoil garbage (s.directory ++ [Disk.temporary name]) } k ∧
      ∀ other ∈ [Disk.logName, Disk.metaName],
        (s.files.spoil garbage (s.directory ++ [Disk.temporary name])).find? k other =
          s.files.find? k other := by
  have htemporary : Disk.temporary name ∈ Disk.names := by
    have hall : ∀ name ∈ [Disk.logName, Disk.metaName], Disk.temporary name ∈ Disk.names := by
      decide
    exact hall name hname
  obtain ⟨t₁, hcreate, h₁, hs₁, file₁⟩ := h.create htemporary
  obtain ⟨t₂, hextend, h₂, hs₂, file₂⟩ := h₁.extend htemporary file₁
    (garbage (s.directory ++ [Disk.temporary name]))
  have hspoilt : s.files.spoil garbage (s.directory ++ [Disk.temporary name]) = t₂ := by
    rw [FileTree.spoil, FileTree.run_cons hcreate, FileTree.run_cons hextend]
    rfl
  rw [hspoilt]
  refine ⟨h₂, fun other hother => ?_⟩
  have hne : other ≠ Disk.temporary name := by
    have hall : ∀ other ∈ [Disk.logName, Disk.metaName],
        ∀ name ∈ [Disk.logName, Disk.metaName], other ≠ Disk.temporary name := by decide
    exact hall other hother name hname
  exact (hs₂.find? hne).trans (hs₁.find? hne)

/-- Whatever the temporary files hold, the others are as they were. -/
theorem Usable.spoil_all (h : s.Usable k) (paths : List Path) (garbage : Path → List UInt8)
    (temporary : ∀ path ∈ paths, ∃ name ∈ [Disk.logName, Disk.metaName],
      path = s.directory ++ [Disk.temporary name]) :
    Usable { s with files := paths.foldl (FileTree.spoil garbage) s.files } k ∧
      ∀ other ∈ [Disk.logName, Disk.metaName],
        (paths.foldl (FileTree.spoil garbage) s.files).find? k other =
          s.files.find? k other := by
  induction paths generalizing s with
  | nil => exact ⟨h, fun _ _ => rfl⟩
  | cons path rest ih =>
      obtain ⟨name, hname, rfl⟩ := temporary path List.mem_cons_self
      obtain ⟨hspoilt, hsame⟩ := h.spoil hname garbage
      obtain ⟨hall, hothers⟩ := ih hspoilt fun p hp => temporary p (List.mem_cons_of_mem _ hp)
      exact ⟨hall, fun other hother => (hothers other hother).trans (hsame other hother)⟩

/-- What is loaded after a save was cut short: the old record up to the first
renaming, the new one from the second on, and between them the old metadata
with the new log. -/
theorem Usable.load_interrupted (h : s.Usable k) (stored : Storage.load s = .ok old)
    (recordable : new.Recordable) (count : Nat) (garbage : Path → List UInt8) :
    Storage.load (s.interrupted new count garbage) = .ok
      (if 8 ≤ count then new else if 4 ≤ count then { old with log := new.log } else old) := by
  obtain ⟨hlogged, hmeta⟩ := load_eq_ok_iff.mp stored
  obtain ⟨t, hrun, htaken, hlogFile, hmetaFile⟩ := h.run_take new count
  obtain ⟨hleft, hsame⟩ := htaken.spoil_all _ garbage
    (Disk.unflushed_saveOperations s.directory new count)
  have hinterrupted : s.interrupted new count garbage = { s with
      files := (((Disk.saveOperations s.directory new).take count).foldl
        FileOperation.unflushed []).foldl (FileTree.spoil garbage) t } := by
    rw [interrupted, FileTree.crashed, hrun]
  have hlogLoaded : (s.interrupted new count garbage).loadLog =
      .ok (if 4 ≤ count then new.log else old.log) := by
    rw [hinterrupted]
    split
    · next hcount =>
        rw [if_pos hcount] at hlogFile
        exact hleft.loadLog_of_file recordable ((hsame _ (by simp)).trans hlogFile)
    · next hcount =>
        rw [if_neg hcount] at hlogFile
        exact ((hleft.load_congr h).1 ((hsame _ (by simp)).trans hlogFile)).trans hlogged
  have hmetaLoaded : (s.interrupted new count garbage).loadMeta =
      .ok (if 8 ≤ count then { new with log := [] } else { old with log := [] }) := by
    rw [hinterrupted]
    split
    · next hcount =>
        rw [if_pos hcount] at hmetaFile
        exact hleft.loadMeta_of_file recordable ((hsame _ (by simp)).trans hmetaFile)
    · next hcount =>
        rw [if_neg hcount] at hmetaFile
        exact ((hleft.load_congr h).2 ((hsame _ (by simp)).trans hmetaFile)).trans hmeta
  refine load_eq_ok_iff.mpr ⟨hlogLoaded.trans ?_, hmetaLoaded.trans ?_⟩
  · by_cases hlater : 8 ≤ count
    · rw [if_pos hlater, if_pos (by omega)]
    · by_cases hcount : 4 ≤ count <;> simp only [hlater, hcount, if_false, if_true]
  · by_cases hlater : 8 ≤ count
    · simp only [hlater, if_true]
    · by_cases hcount : 4 ≤ count <;> simp only [hlater, hcount, if_false, if_true]

end DiskStorage

/-- Files of a program that crashes in its next save, when so many operations
have been carried out. -/
structure InterruptedStorage where
  disk : DiskStorage
  count : Nat
  garbage : Path → List UInt8

/-- A save that is cut short never returns, so nothing is done after it. -/
instance : Storage InterruptedStorage Unit where
  load s := (Storage.load s.disk).mapError fun _ => ()
  save s record := ({ s with disk := s.disk.interrupted record s.count s.garbage }, .error ())

end Quorum
