import Quorum.Client.Request
import Quorum.Proofs.Json.Values
import Quorum.Proofs.Text.Words
import Quorum.Storage.Disk

/-!
# The files of a record

A record of 64-bit words, with words as keys and values, is read from its two
files as it was (`Disk.readLog_logText`, `Disk.metaOfJson?_metaJson`). Every
record that was read is one of these, and so are all keys and values that
clients can ask for, since these are read as words too.
-/

namespace Quorum

open Text

/-- An operation whose key and value are words, so that a line can hold it. -/
def Operation.Recordable : Operation → Prop
  | .noOp => True
  | .set key value => IsWord key.toList ∧ IsWord value.toList

/-- An entry that a line can hold. -/
structure LogEntry.Recordable (entry : LogEntry) : Prop where
  term : Word.fits entry.term = true
  operation : entry.operation.Recordable

/-- Keys and values of clients are words. -/
theorem Request.recordable_of_ofText {text key value : String}
    (h : Request.ofText text = .ok (.set key value)) : (Operation.set key value).Recordable := by
  have hwords : Text.words text = ["SET", key, value] := by
    unfold Request.ofText at h
    split at h <;> cases h
    assumption
  exact ⟨isWord_of_mem_words (by rw [hwords]; simp), isWord_of_mem_words (by rw [hwords]; simp)⟩

namespace LogEntry

variable {entry : LogEntry} {line : String}

theorem isWord_noOp : IsWord "NO_OP".toList := by decide

theorem isWord_set : IsWord "SET".toList := by decide

theorem toList_line (entry : LogEntry) :
    entry.line.toList = match entry.operation with
      | .noOp => "NO_OP".toList ++ ' ' :: digits entry.term
      | .set key value =>
        "SET".toList ++
          ' ' :: (key.toList ++ ' ' :: (value.toList ++ ' ' :: digits entry.term)) := by
  obtain ⟨term, operation⟩ := entry
  cases operation <;> simp [line, decimal]

theorem words_line (recordable : entry.operation.Recordable) :
    words entry.line = match entry.operation with
      | .noOp => ["NO_OP", decimal entry.term]
      | .set key value => ["SET", key, value, decimal entry.term] := by
  have hblank : isBlank ' ' = true := by decide
  have hterm : wordsOf (digits entry.term) = [digits entry.term] := (isWord_digits _).wordsOf
  rw [words, toList_line]
  split
  · rw [isWord_noOp.wordsOf_append hblank, hterm]
    simp [decimal]
  · next key value heq =>
      rw [heq] at recordable
      rw [isWord_set.wordsOf_append hblank, recordable.1.wordsOf_append hblank,
        recordable.2.wordsOf_append hblank, hterm]
      simp [decimal]

/-- An entry is read from its line. -/
theorem ofLine_line (h : entry.Recordable) : ofLine entry.line = .ok entry := by
  have hwords := words_line h.operation
  have hterm : word? (decimal entry.term).toList = some entry.term := by
    rw [decimal, String.toList_ofList]
    exact word?_digits h.term
  obtain ⟨term, operation⟩ := entry
  unfold ofLine
  cases operation <;> simp only [hwords, withTerm, hterm]

theorem withTerm_ok {operation : Operation} {word : String}
    (h : withTerm operation word = .ok entry) :
    Word.fits entry.term = true ∧ entry.operation = operation := by
  unfold withTerm at h
  split at h
  · next term hterm =>
      obtain rfl := Except.ok.inj h
      exact ⟨fits_of_word? hterm, rfl⟩
  · exact nomatch h

/-- Whatever a line holds could be written on one. -/
theorem recordable_of_line (h : ofLine line = .ok entry) : entry.Recordable := by
  unfold ofLine at h
  split at h
  · obtain ⟨hterm, hoperation⟩ := withTerm_ok h
    exact ⟨hterm, hoperation ▸ trivial⟩
  · next key value term hwords =>
      obtain ⟨hterm, hoperation⟩ := withTerm_ok h
      have hkey : key ∈ words line := by simp [hwords]
      have hvalue : value ∈ words line := by simp [hwords]
      exact ⟨hterm, hoperation ▸ ⟨isWord_of_mem_words hkey, isWord_of_mem_words hvalue⟩⟩
  · exact nomatch h

/-- The line of an entry is one line. -/
theorem line_unbroken (recordable : entry.operation.Recordable) :
    ∀ c ∈ entry.line.toList, c ≠ '\n' ∧ c ≠ '\r' := by
  have hword : ∀ {word : List Char}, IsWord word → ∀ c ∈ word, c ≠ '\n' ∧ c ≠ '\r' := by
    intro word h c hc
    constructor <;> rintro rfl <;> exact absurd (h.solid _ hc) (by decide)
  have hjoin : ∀ {a b : List Char}, (∀ c ∈ a, c ≠ '\n' ∧ c ≠ '\r') →
      (∀ c ∈ b, c ≠ '\n' ∧ c ≠ '\r') → ∀ c ∈ a ++ ' ' :: b, c ≠ '\n' ∧ c ≠ '\r' := by
    intro a b ha hb c hc
    rcases List.mem_append.mp hc with hc | hc
    · exact ha c hc
    · rcases List.mem_cons.mp hc with rfl | hc
      · decide
      · exact hb c hc
  rw [toList_line]
  split
  · exact hjoin (hword isWord_noOp) (hword (isWord_digits _))
  · next key value heq =>
      rw [heq] at recordable
      exact hjoin (hword isWord_set) (hjoin (hword recordable.1)
        (hjoin (hword recordable.2) (hword (isWord_digits _))))

end LogEntry

namespace Disk

variable {log : Log}

theorem lines_append {text : List Char} (unbroken : ∀ c ∈ text, c ≠ '\n' ∧ c ≠ '\r')
    (rest : Scanned) :
    lines (text.map some ++ some '\n' :: rest) = text.map some :: lines rest := by
  induction text with
  | nil => rw [List.map_nil, List.nil_append, lines]
  | cons c others ih =>
      obtain ⟨hfeed, hreturn⟩ := unbroken c List.mem_cons_self
      have hothers := ih fun d hd => unbroken d (List.mem_cons_of_mem c hd)
      rw [List.map_cons, List.cons_append, lines, hothers]
      · exact fun heq => hfeed (Option.some.inj heq)
      · exact fun _ heq => absurd (Option.some.inj heq) hreturn

theorem entriesOf_logText (h : ∀ entry ∈ log, entry.Recordable) (number : Nat) :
    entriesOf number (lines ((logText log).map some)) = .ok log := by
  induction log generalizing number with
  | nil => rfl
  | cons entry log ih =>
      have hentry := h entry List.mem_cons_self
      have hrest := ih (fun e he => h e (List.mem_cons_of_mem entry he)) (number + 1)
      have htext : (logText (entry :: log)).map some =
          entry.line.toList.map some ++ some '\n' :: (logText log).map some := by
        simp [logText]
      have hsolid : isBlankLine entry.line.toList = false := by
        rw [LogEntry.toList_line]
        split
        · exact LogEntry.isWord_noOp.not_blankLine _
        · exact LogEntry.isWord_set.not_blankLine _
      rw [htext, lines_append (LogEntry.line_unbroken hentry.operation), entriesOf,
        Utf8.text?_map_some]
      simp [hsolid, LogEntry.ofLine_line hentry, hrest, Except.map]

/-- A log that a file can hold is read from the file that it is written to. -/
theorem readLog_logText (h : ∀ entry ∈ log, entry.Recordable) :
    readLog (Utf8.encode (logText log)) = .ok log := by
  rw [readLog, Utf8.scan_encode]
  exact entriesOf_logText h 1

/-- Every log that was read is one that a file can hold. -/
theorem recordable_of_entriesOf {lines : List Scanned} {number : Nat}
    (h : entriesOf number lines = .ok log) : ∀ entry ∈ log, entry.Recordable := by
  induction lines generalizing number log with
  | nil =>
      obtain rfl := Except.ok.inj h
      exact fun entry he => nomatch he
  | cons line rest ih =>
      unfold entriesOf at h
      split at h
      · exact nomatch h
      · split at h
        · exact ih h
        · split at h
          · exact nomatch h
          · next entry hentry =>
              cases hrest : entriesOf (number + 1) rest with
              | error e =>
                  rw [hrest] at h
                  exact nomatch h
              | ok others =>
                  rw [hrest] at h
                  obtain rfl := Except.ok.inj h
                  intro e he
                  rcases List.mem_cons.mp he with rfl | he
                  · exact LogEntry.recordable_of_line hentry
                  · exact ih hrest e he

end Disk

/-! ## Metadata -/

/-- A record of which files can hold everything but perhaps the commit
length. -/
structure Record.Legible (record : Record) : Prop where
  currentTerm : Word.fits record.currentTerm = true
  votedFor : ∀ candidate, record.votedFor = some candidate → Word.fits candidate = true
  log : ∀ entry ∈ record.log, entry.Recordable

/-- A record that files can hold. -/
structure Record.Recordable (record : Record) : Prop extends Record.Legible record where
  commitLength : Word.fits record.commitLength = true

theorem Record.recordable_empty : Record.Recordable {} where
  commitLength := by decide
  currentTerm := by decide
  votedFor _ h := nomatch h
  log _ h := nomatch h

theorem Json.fits_of_word? {v : Json} {n : Nat} (h : Json.word? v = some n) :
    Word.fits n = true := by
  unfold Json.word? at h
  split at h
  · split at h
    · next hfits =>
        obtain rfl := Option.some.inj h
        exact hfits
    · exact nomatch h
  · exact nomatch h

theorem Json.fits_of_optional? {v? : Option Json} {candidate? : Option Nat}
    (h : Json.optional? Json.word? v? = some candidate?) :
    ∀ candidate, candidate? = some candidate → Word.fits candidate = true := by
  unfold Json.optional? at h
  split at h
  · obtain rfl := Option.some.inj h
    exact fun _ hn => nomatch hn
  · obtain rfl := Option.some.inj h
    exact fun _ hn => nomatch hn
  · next v _ =>
      obtain ⟨n, hn, rfl⟩ := Option.map_eq_some_iff.mp h
      intro candidate hcandidate
      obtain rfl := Option.some.inj hcandidate
      exact Json.fits_of_word? hn

namespace Disk

variable {record : Record}

/-- The metadata of a record are read from their JSON. -/
theorem metaOfJson?_metaJson (h : record.Recordable) :
    metaOfJson? (metaJson record) = some { record with log := [] } := by
  obtain ⟨commitLength, currentTerm, votedFor, log⟩ := record
  obtain ⟨⟨hterm, hvote, _⟩, hcommit⟩ := h
  have hvoted : Json.optional? Json.word? (some (Json.optional .nat votedFor)) = some votedFor := by
    cases votedFor with
    | none => rfl
    | some candidate =>
        simp [Json.optional, Json.optional?, Json.word?, hvote candidate rfl]
  simp only [] at hcommit hterm
  simp [metaOfJson?, metaJson, Json.record, Json.fields?, Json.member?, Json.word?, hcommit,
    hterm, hvoted]

/-- Metadata that were read are those of a record that files can hold, and say
nothing about a log. -/
theorem recordable_of_metaOfJson? {v : Json} (h : metaOfJson? v = some record) :
    record.Recordable ∧ record.log = [] := by
  unfold metaOfJson? at h
  obtain ⟨values, hvalues, h⟩ := Option.bind_eq_some_iff.mp h
  split at h
  · next commitLength currentTerm votedFor =>
      obtain ⟨c, _, h⟩ := Option.bind_eq_some_iff.mp h
      obtain ⟨commit, hcommit, h⟩ := Option.bind_eq_some_iff.mp h
      obtain ⟨t, _, h⟩ := Option.bind_eq_some_iff.mp h
      obtain ⟨term, hterm, h⟩ := Option.bind_eq_some_iff.mp h
      obtain ⟨vote, hvote, h⟩ := Option.bind_eq_some_iff.mp h
      obtain rfl := Option.some.inj h
      exact ⟨⟨⟨Json.fits_of_word? hterm, Json.fits_of_optional? hvote, fun _ he => nomatch he⟩,
        Json.fits_of_word? hcommit⟩, rfl⟩
  · exact nomatch h

end Disk

end Quorum
