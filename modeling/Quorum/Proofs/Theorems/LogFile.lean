import Quorum.Proofs.Storage.Saving

/-!
# The log file comes back as it was written

A log file is read line by line and each line word by word, so the text of an
entry may fall apart: a key with a blank in it makes a line of too many words,
and one with a line feed makes two lines, which may even read as two entries.
What is read, however, always consists of words. So a log comes back from its
file just where its keys and values are words, and whatever a file was read as,
however untidy it was, comes back from the file that is written next.
-/

namespace Quorum

namespace Disk

variable {log : Log}

/-- Reading gives back what was written only if a line can hold each entry. -/
theorem readLog_logText_iff (terms : ∀ entry ∈ log, Word.fits entry.term = true) :
    readLog (Text.Utf8.encode (logText log)) = .ok log ↔
      ∀ entry ∈ log, entry.operation.Recordable := by
  constructor
  · exact fun h entry hentry => (recordable_of_entriesOf h entry hentry).operation
  · exact fun h => readLog_logText fun entry hentry => ⟨terms entry hentry, h entry hentry⟩

end Disk

open Disk Text.Utf8

/-- After a save that succeeds the log file has a line for each entry. A log of
64-bit terms is read back from such a file just where each key and each value in
it is a word, neither empty nor with a blank in it. And a log that was read from
any file is read back from the file that it is written to. -/
theorem log_file_exact :
    (∀ (s s' : DiskStorage) (record : Record), Storage.save s record = (s', .ok ()) →
      s'.content? logName = .ok (some (encode (logText record.log)))) ∧
    (∀ log : Log, (∀ entry ∈ log, Word.fits entry.term = true) →
      (readLog (encode (logText log)) = .ok log ↔
        ∀ entry ∈ log, entry.operation.Recordable)) ∧
    ∀ (content : List UInt8) (log : Log), readLog content = .ok log →
      readLog (encode (logText log)) = .ok log :=
  ⟨fun _ _ _ h => (DiskStorage.holds_of_save h).log, fun _ => readLog_logText_iff,
    fun _ _ h => readLog_logText (recordable_of_entriesOf h)⟩

/-- A blank line, a line end of two characters, a no-break space between words, a
plus sign and zeros before a term: the file is read, and its log comes back from
a tidy one. A log whose value holds the text of a line end does not come back,
though its file can be read. -/
theorem log_file_exact_untidy :
    readLog (encode " \n\tSET a\u00a0b +007 \r\nNO_OP 08".toList) = .ok [.set 7 "a" "b", .noOp 8] ∧
      logText [.set 7 "a" "b", .noOp 8] = "SET a b 7\nNO_OP 8\n".toList ∧
      readLog (encode "SET a b 7\nNO_OP 8\n".toList) = .ok [.set 7 "a" "b", .noOp 8] ∧
      readLog (encode (logText [.set 2 "a" "b 1\nSET c d"])) =
        .ok [.set 1 "a" "b", .set 2 "c" "d"] ∧
      readLog (encode (logText [.set 2 "a" "b 1\nSET c d"])) ≠ .ok [.set 2 "a" "b 1\nSET c d"] := by
  obtain ⟨_, hexact, hagain⟩ := log_file_exact
  have hread : readLog (encode " \n\tSET a\u00a0b +007 \r\nNO_OP 08".toList) =
      .ok [.set 7 "a" "b", .noOp 8] := by
    rw [readLog, scan_encode]
    decide +kernel
  have htext : logText [.set 7 "a" "b", .noOp 8] = "SET a b 7\nNO_OP 8\n".toList := by
    decide +kernel
  have hsplit : readLog (encode (logText [.set 2 "a" "b 1\nSET c d"])) =
      .ok [.set 1 "a" "b", .set 2 "c" "d"] := by
    rw [readLog, scan_encode]
    decide +kernel
  refine ⟨hread, htext, htext ▸ hagain _ _ hread, hsplit, fun hsame => ?_⟩
  have hwords := (hexact _ (by decide)).mp hsame _ List.mem_cons_self
  exact absurd hwords.2 (by decide)

end Quorum
