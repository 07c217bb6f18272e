import Quorum.Proofs.Run.Media

/-!
# Storage in files and in memory

A replica cannot tell whether it is kept in files or in memory, whatever
happens to it, as long as no operation on the files fails
(`files_as_memory`). Messages are those that a cluster sends, and requests are
read from text: then no key or value holds a blank or is empty, and a line of
the log gives every entry back as it was.
-/

namespace Quorum

/-- An operation that opens a term, or one that a client has asked for. -/
def Operation.Asked : Operation → Prop
  | .noOp => True
  | .set key value => ∃ text, Request.ofText text = .ok (.set key value)

/-- An entry of a word as its term and an operation of this kind. -/
def LogEntry.Genuine (entry : LogEntry) : Prop :=
  Word.fits entry.term = true ∧ entry.operation.Asked

/-- The numbers of the message are words, and its entries are genuine. -/
def Message.Genuine : Message → Prop
  | .voteRequest q => Word.fits q.term = true ∧ Word.fits q.candidate = true
  | .voteReply r => Word.fits r.term = true
  | .appendRequest q => Word.fits q.term = true ∧ Word.fits q.commit = true ∧
      ∀ entry ∈ q.entries, entry.Genuine
  | .appendReply r => Word.fits r.term = true

/-- What happens brings a genuine message, or a request that was read from text,
or neither. -/
def Happening.Genuine : Happening → Prop
  | .call (.event (.message _ message) _ _) => message.Genuine
  | .call (.request request _) => ∃ text, Request.ofText text = .ok request
  | _ => True

theorem LogEntry.Genuine.recordable {entry : LogEntry} (h : entry.Genuine) :
    entry.Recordable := by
  obtain ⟨term, operation⟩ := entry
  refine ⟨h.1, ?_⟩
  cases operation with
  | noOp => trivial
  | set key value =>
      obtain ⟨text, htext⟩ := h.2
      exact Request.recordable_of_ofText htext

theorem Message.Genuine.recordable {message : Message} (h : message.Genuine) :
    message.Recordable := by
  cases message with
  | voteRequest q => exact h
  | voteReply r => exact h
  | appendRequest q => exact ⟨h.1, h.2.1, fun entry he => (h.2.2 entry he).recordable⟩
  | appendReply r => exact h

theorem Happening.Genuine.recordable {who : Identity} {happening : Happening}
    (h : happening.Genuine) (word : Word.fits who.id = true) : happening.Recordable who := by
  cases happening with
  | crash => trivial
  | restart now draw => exact word
  | call c =>
      cases c with
      | report => trivial
      | event event now draw =>
          cases event with
          | message sender message => exact Message.Genuine.recordable h
          | _ => trivial
      | request request now =>
          cases request with
          | get key => trivial
          | set key value =>
              obtain ⟨text, htext⟩ := h
              exact Request.recordable_of_ofText htext

namespace Life

/-- What is given out in the step after the first `k`, if anything is. -/
def release? {σ ε : Type} [Storage σ ε] (l : Life σ) (k : Nat) : Option Replica.Release :=
  (l.happenings[k]?).bind (l.state k).release?

variable {disk : Life DiskStorage} {memory : Life MemoryStorage}

/-- Two lives of one replica, which start from the same record. -/
structure Twins (disk : Life DiskStorage) (memory : Life MemoryStorage) : Prop where
  who : memory.who = disk.who
  happenings : memory.happenings = disk.happenings
  stored : Storage.load disk.medium = .ok memory.medium.record

/-- No operation on files fails in the life. -/
def Unbroken (disk : Life DiskStorage) : Prop :=
  ∀ k happening, disk.happenings[k]? = some happening → ¬ (disk.state k).Breaks happening

/-- The length of the log is always a word. -/
def Short {σ ε : Type} [Storage σ ε] (l : Life σ) : Prop :=
  ∀ k, (l.state k).Holds Node.Short

theorem Twins.step {k : Nat} {happening : Happening} (h : Twins disk memory)
    (hk : disk.happenings[k]? = some happening) :
    disk.state (k + 1) = ((disk.state k).step disk.who happening).1 ∧
      memory.state (k + 1) = ((memory.state k).step disk.who happening).1 := by
  have hk' : memory.happenings[k]? = some happening := h.happenings ▸ hk
  exact ⟨disk.state_succ hk, h.who ▸ memory.state_succ hk'⟩

theorem Twins.release?_eq {k : Nat} {happening : Happening} (h : Twins disk memory)
    (hk : disk.happenings[k]? = some happening) :
    disk.release? k = (disk.state k).release? happening ∧
      memory.release? k = (memory.state k).release? happening := by
  have hk' : memory.happenings[k]? = some happening := h.happenings ▸ hk
  rw [release?, release?, hk, hk']
  exact ⟨rfl, rfl⟩

/-- After its last happening a life stays as it is. -/
theorem Twins.ended {k : Nat} (h : Twins disk memory) (hk : disk.happenings[k]? = none) :
    disk.state (k + 1) = disk.state k ∧ memory.state (k + 1) = memory.state k := by
  have hk' : memory.happenings[k]? = none := h.happenings ▸ hk
  exact ⟨disk.state_of_length_le (List.getElem?_eq_none_iff.mp hk),
    memory.state_of_length_le (List.getElem?_eq_none_iff.mp hk')⟩

section

variable (twins : Twins disk memory)
  (given : ∀ happening ∈ disk.happenings, happening.Recordable disk.who)

include twins given

/-- The two lives are in the same state at any time. -/
theorem Twins.alike (short : disk.Short) (unbroken : disk.Unbroken) (k : Nat) :
    (disk.state k).Alike (memory.state k) ∧ (disk.state k).Holds Node.Recordable := by
  induction k with
  | zero => exact ⟨.down twins.stored, trivial⟩
  | succ k ih =>
      cases hk : disk.happenings[k]? with
      | none =>
          obtain ⟨hd, hm⟩ := twins.ended hk
          rw [hd, hm]
          exact ih
      | some happening =>
          obtain ⟨hd, hm⟩ := twins.step hk
          have hshort := short (k + 1)
          rw [hd] at hshort
          obtain ⟨halike, hrecordable, _⟩ := ih.1.step ih.2
            (given happening (List.mem_of_getElem? hk)) hshort (unbroken k happening hk)
          rw [hd, hm]
          exact ⟨halike, hrecordable⟩

/-- In a usable directory nothing goes wrong. -/
theorem Twins.unbroken {n : Nat} (short : memory.Short) (usable : disk.medium.Usable n) :
    disk.Short ∧ disk.Unbroken := by
  have hshort : ∀ {k happening}, disk.happenings[k]? = some happening →
      (disk.state k).Alike (memory.state k) →
      ((disk.state k).step disk.who happening).1.Holds Node.Short := by
    intro k happening hk halike
    have hnext := short (k + 1)
    rw [(twins.step hk).2] at hnext
    exact (halike.step_short (given happening (List.mem_of_getElem? hk))).mpr hnext
  have hall : ∀ k, (disk.state k).Alike (memory.state k) ∧ (disk.state k).Holds Node.Recordable ∧
      (disk.state k).medium.Usable n ∧ (disk.state k).Holds Node.Short := by
    intro k
    induction k with
    | zero => exact ⟨.down twins.stored, trivial, usable, trivial⟩
    | succ k ih =>
        have ⟨halike, hrecordable, husable, _⟩ := ih
        cases hk : disk.happenings[k]? with
        | none =>
            obtain ⟨hd, hm⟩ := twins.ended hk
            rw [hd, hm]
            exact ih
        | some happening =>
            obtain ⟨hd, hm⟩ := twins.step hk
            have hgiven := given happening (List.mem_of_getElem? hk)
            have hnext := hshort hk halike
            obtain ⟨hfine, husable'⟩ :=
              halike.step_usable hrecordable hgiven hnext husable
            obtain ⟨halike', hrecordable', _⟩ := halike.step hrecordable hgiven hnext hfine
            rw [hd, hm]
            exact ⟨halike', hrecordable', husable', hnext⟩
  refine ⟨fun k => (hall k).2.2.2, fun k happening hk => ?_⟩
  obtain ⟨halike, hrecordable, husable, _⟩ := hall k
  exact (halike.step_usable hrecordable (given happening (List.mem_of_getElem? hk))
    (hshort hk halike) husable).1

end

end Life

/-- Storage in files and storage in memory are interchangeable. Whatever happens
to a replica, over both it gives out the same commands, admissions and applied
entries, and it is in the same state at any time, after it has started over
too. In particular every log whose entries a client can have asked for is read
from its file as it was. -/
theorem files_as_memory {disk : Life DiskStorage} {memory : Life MemoryStorage}
    (twins : disk.Twins memory) (word : Word.fits disk.who.id = true)
    (genuine : ∀ happening ∈ disk.happenings, happening.Genuine) (short : disk.Short)
    (unbroken : disk.Unbroken) :
    (∀ k, disk.release? k = memory.release? k) ∧ (∀ k, (disk.state k).Alike (memory.state k)) ∧
      ∀ log : Log, (∀ entry ∈ log, entry.Genuine) →
        Disk.readLog (Text.Utf8.encode (Disk.logText log)) = .ok log := by
  have given : ∀ happening ∈ disk.happenings, happening.Recordable disk.who :=
    fun happening hm => (genuine happening hm).recordable word
  refine ⟨fun k => ?_, fun k => (twins.alike given short unbroken k).1, fun log hlog => ?_⟩
  · cases hk : disk.happenings[k]? with
    | none =>
        have hk' : memory.happenings[k]? = none := twins.happenings ▸ hk
        rw [Life.release?, Life.release?, hk, hk']
        rfl
    | some happening =>
        obtain ⟨halike, hrecordable⟩ := twins.alike given short unbroken k
        have hshort := short (k + 1)
        rw [(twins.step hk).1] at hshort
        obtain ⟨hd, hm⟩ := twins.release?_eq hk
        rw [hd, hm]
        exact (halike.step hrecordable (given happening (List.mem_of_getElem? hk)) hshort
          (unbroken k happening hk)).2.2
  · exact Disk.readLog_logText fun entry he => (hlog entry he).recordable

/-- A follower learns of two entries that are committed, is asked for what it
has applied, crashes and starts over, and a client asks it for a key. -/
def lesson : List Happening :=
  [.restart 0 0,
    .call (.event (.message 1 (.appendRequest
      { term := 1, leader := 1, prevIndex := 0, prevTerm := 0,
        entries := [⟨1, .noOp⟩, ⟨1, .set "k" "v"⟩], commit := 2, lease := 0, round := 1 })) 0 0),
    .call .report, .crash, .restart 0 0, .call (.request (.get "k") 0)]

def taught {σ : Type} (medium : σ) : Life σ := ⟨⟨0, [1, 2], {}⟩, medium, lesson⟩

theorem files_as_memory_of_lesson :
    ((taught DiskStorage.blank).Twins (taught ({} : MemoryStorage)) ∧ Word.fits 0 = true ∧
      (∀ happening ∈ lesson, happening.Genuine) ∧ (taught DiskStorage.blank).Short ∧
      (taught DiskStorage.blank).Unbroken) ∧
    (taught DiskStorage.blank).release? 2 =
        some (.applied [(1, ⟨1, .noOp⟩), (2, ⟨1, .set "k" "v"⟩)]) ∧
      ((taught DiskStorage.blank).state 6).Alike ((taught ({} : MemoryStorage)).state 6) := by
  have htwins : (taught DiskStorage.blank).Twins (taught ({} : MemoryStorage)) :=
    ⟨rfl, rfl, DiskStorage.blank_fresh.empty⟩
  have hgenuine : ∀ happening ∈ lesson, happening.Genuine := by
    have hset : Request.ofText "SET k v" = .ok (.set "k" "v") := by decide +kernel
    have hget : Request.ofText "GET k" = .ok (.get "k") := by decide +kernel
    have hentries : ∀ entry ∈ [(⟨1, .noOp⟩ : LogEntry), ⟨1, .set "k" "v"⟩], entry.Genuine := by
      simp only [List.forall_mem_cons]
      exact ⟨⟨by decide, trivial⟩, ⟨by decide, "SET k v", hset⟩, nofun⟩
    simp only [lesson, List.forall_mem_cons]
    exact ⟨trivial, ⟨by decide, by decide, hentries⟩, trivial, trivial, trivial,
      ⟨"GET k", hget⟩, nofun⟩
  have hmemory : (taught ({} : MemoryStorage)).Short := by
    have hall : ∀ k ≤ 6, ((taught ({} : MemoryStorage)).state k).Holds Node.Short := by
      decide +kernel
    intro k
    rcases Nat.le_total k 6 with hk | hk
    · exact hall k hk
    · have hlast : (taught ({} : MemoryStorage)).state k = (taught {}).state 6 := by
        have htake : lesson.take k = lesson.take 6 := List.take_of_length_le hk
        rw [Life.state, Life.state]
        exact congrArg (List.foldl _ _) htake
      rw [hlast]
      exact hall 6 (Nat.le_refl 6)
  obtain ⟨hshort, hunbroken⟩ := htwins.unbroken
    (fun happening hm => (hgenuine happening hm).recordable (by decide)) hmemory
    DiskStorage.blank_usable
  obtain ⟨hreleases, hstates, _⟩ := files_as_memory htwins (by decide) hgenuine hshort hunbroken
  exact ⟨⟨htwins, by decide, hgenuine, hshort, hunbroken⟩, (hreleases 2).trans rfl, hstates 6⟩

end Quorum
