import Quorum.CommandLine.Console
import Quorum.Proofs.Theorems.ServerTurns

/-!
# One reply for each line

A console gives as many replies as it is given lines, but for the one line that it
may still owe a reply (`console_serves`). By the time it gives them, the files of
its directory hold the record of its node.
-/

namespace Quorum.CommandLine

variable {c c' c₀ : Console} {d d₀ : DiskStorage} {k lines replies : Nat} {line? : Option String}
  {now : Instant} {draws : List Nat} {effects : Console.Effects}

namespace Console

/-- What becomes of a console and of the files of its directory, with the number of
lines that it has been given and of replies that it has given. A line comes in only
while nobody waits, and after a turn the operations are carried out. -/
inductive Runs (c₀ : Console) (d₀ : DiskStorage) : Console → DiskStorage → Nat → Nat → Prop
  | start : Runs c₀ d₀ c₀ d₀ 0 0
  | turn {c c' : Console} {d : DiskStorage} {lines replies : Nat} {line? : Option String}
      {now : Instant} {draws : List Nat} {effects : Effects} (before : Runs c₀ d₀ c d lines replies)
      (working : c.ending? = none) (taken : line?.isSome = true → c.takesLine = true)
      (call : c.turn line? now draws = .ok (c', effects)) :
      Runs c₀ d₀ c' { d with files := (d.files.run effects.operations).1 }
        (lines + line?.toList.length) (replies + effects.replies.length)

/-! ## Counting replies -/

/-- A line asks for something or is refused. -/
theorem length_read (line? : Option String) :
    (read line?).1.length + (read line?).2.length = line?.toList.length := by
  unfold read
  cases line? with
  | none => rfl
  | some line =>
      rw [Option.map_some]
      cases Request.ofText line <;> rfl

theorem length_repliesIn (s : Server Unit) :
    (repliesIn s.output).length = s.answered.length := by
  unfold repliesIn Server.answered
  induction s.output with
  | nil => rfl
  | cons output rest ih =>
      cases output with
      | answer waiter reply => exact congrArg (· + 1) ih
      | send receiver message => exact ih

theorem isRunning_of_ending (h : c.ending? = none) : c.server.isRunning = true := by
  unfold ending? at h
  rw [Option.map_eq_none_iff] at h
  rw [Server.isRunning, h]
  rfl

/-- A console that has been given so many lines and has given so many replies: all
replies of its server have been given, and the console knows whether one is owed. -/
structure Tidy (c : Console) (lines replies : Nat) : Prop where
  output : c.server.output = []
  accounts : ∃ known hand, c.server.Accounts known hand ∧
    known.length + replies = hand.length + lines
  owed : lines = replies + if c.takesLine then 0 else 1

/-- Exactly one client waits if a reply is owed, and otherwise none. -/
theorem Tidy.length_waiting (h : c.Tidy lines replies) (working : c.server.isRunning = true) :
    c.server.waiting.length = if c.takesLine then 0 else 1 := by
  obtain ⟨known, hand, haccounts, hbalance⟩ := h.accounts
  have hanswered : c.server.answered = [] := by
    rw [Server.answered, h.output]
    rfl
  have honce := (haccounts.once working).length_eq
  rw [hanswered, List.nil_append, List.length_append] at honce
  have howed := h.owed
  omega

/-- A reply that comes too late is given by the console itself. -/
theorem Tidy.expire (h : c.Tidy lines replies) (working : c.server.isRunning = true)
    (now : Instant) : (c.expire now).1.Tidy lines (replies + (c.expire now).2.length) := by
  unfold Console.expire
  split
  · exact h
  · next since hsince =>
      split
      · obtain ⟨known, hand, haccounts, hbalance⟩ := h.accounts
        have hwaits : c.takesLine = false := by
          rw [takesLine, hsince]
          rfl
        have hwaiting : c.server.waiting.length = 1 := by
          rw [h.length_waiting working, hwaits]
          rfl
        have howed : lines = replies + 1 := by
          rw [h.owed, hwaits]
          rfl
        have hgone : c.server.waiting.filter (fun _ => true) = c.server.waiting :=
          List.filter_eq_self.mpr fun _ _ => rfl
        refine ⟨h.output, ⟨known, _, haccounts.forget fun _ => true, ?_⟩, ?_⟩
        · rw [hgone, List.length_append, hwaiting, List.length_singleton]
          omega
        · rw [howed]
          rfl
      · exact h

theorem expire_machine (c : Console) (now : Instant) :
    (c.expire now).1.server.machine = c.server.machine := by
  unfold Console.expire
  split
  · rfl
  · split <;> rfl

/-- A turn of a console in terms of the turn of its server. -/
theorem turn_ok (call : c.turn line? now draws = .ok (c', effects)) :
    ∃ served replies updated, c.server.turn now draws (read line?).1 none = .ok served ∧
      replies = (read line?).2 ++ repliesIn served.output ∧
      updated = c.update served.takeOutput.2 (!(read line?).1.isEmpty) replies now ∧
      c' = (updated.expire now).1 ∧
      effects = ⟨served.savesSince c.server, replies ++ (updated.expire now).2⟩ := by
  obtain ⟨served, hserved, call⟩ := exists_of_bind_ok call
  obtain ⟨rfl, rfl⟩ := Prod.mk.inj (Except.ok.inj call)
  exact ⟨served, _, _, hserved, rfl, rfl, rfl, rfl⟩

theorem takesLine_update (c : Console) (server : Server Unit) (asks : Bool)
    (given : List Reply) (now : Instant) : (c.update server asks given now).takesLine =
      (!given.isEmpty || (!asks && c.takesLine)) := by
  unfold takesLine Console.update
  cases given <;> cases asks <;> rfl

theorem Tidy.update {served : Server Unit} (h : c.Tidy lines replies)
    (taken : line?.isSome = true → c.takesLine = true)
    (hserved : c.server.turn now draws (read line?).1 none = .ok served)
    (working : served.isRunning = true) {given : List Reply}
    (hgiven : given = (read line?).2 ++ repliesIn served.output) :
    (c.update served.takeOutput.2 (!(read line?).1.isEmpty) given now).Tidy
      (lines + line?.toList.length) (replies + given.length) := by
  obtain ⟨known, hand, haccounts, hbalance⟩ := h.accounts
  have hturn := (haccounts.turn now draws (read line?).1 none).holds _ hserved
  have honce := (hturn.once working).length_eq
  rw [List.length_append, List.length_append, List.length_append, List.length_map] at honce
  have hread := length_read line?
  have howed := h.owed
  have hlength : given.length = (read line?).2.length + served.answered.length := by
    rw [hgiven, List.length_append, length_repliesIn]
  refine ⟨rfl, ⟨_, _, hturn.takeOutput, ?_⟩, ?_⟩
  · rw [List.length_append, List.length_append, List.length_map]
    omega
  · -- one client at most asks or has waited before
    have hfew : line?.toList.length + (if c.takesLine then 0 else 1) ≤ 1 := by
      cases line? with
      | none =>
          rw [Option.toList_none, List.length_nil]
          split <;> decide
      | some line =>
          rw [taken rfl]
          exact Nat.le_refl 1
    rw [takesLine_update]
    cases given with
    | cons reply rest =>
        rw [List.length_cons] at hlength ⊢
        show _ = replies + (rest.length + 1) + 0
        omega
    | nil =>
        rw [List.length_nil] at hlength ⊢
        cases hasked : (read line?).1 with
        | nil =>
            rw [hasked, List.length_nil] at hread
            show _ = replies + 0 + if c.takesLine then 0 else 1
            omega
        | cons a rest =>
            rw [hasked, List.length_cons] at hread
            show _ = replies + 0 + 1
            omega

/-- The replies of a turn answer the line that was given in it, or the one for
which a reply was owed. -/
theorem Tidy.turn (h : c.Tidy lines replies) (taken : line?.isSome = true → c.takesLine = true)
    (call : c.turn line? now draws = .ok (c', effects)) (working : c'.server.isRunning = true) :
    c'.Tidy (lines + line?.toList.length) (replies + effects.replies.length) := by
  obtain ⟨served, given, updated, hserved, hgiven, hupdated, rfl, rfl⟩ := turn_ok call
  have hworking : updated.server.isRunning = true := by
    have hsame : (updated.expire now).1.server.failure? = updated.server.failure? :=
      congrArg Prod.snd (updated.expire_machine now)
    rw [Server.isRunning, ← hsame]
    exact working
  have htidy : updated.Tidy (lines + line?.toList.length) (replies + given.length) := by
    subst hupdated
    exact h.update taken hserved hworking hgiven
  have hexpired := htidy.expire hworking now
  rw [Nat.add_assoc, ← List.length_append] at hexpired
  exact hexpired

/-! ## Files that follow -/

/-- What a turn does to the server, and what it asks to be done on files. -/
theorem turn_server (call : c.turn line? now draws = .ok (c', effects)) :
    ∃ served, c.server.turn now draws (read line?).1 none = .ok served ∧
      c'.server.machine = served.machine ∧ effects.operations = served.savesSince c.server := by
  obtain ⟨served, _, updated, hserved, _, hupdated, rfl, rfl⟩ := turn_ok call
  refine ⟨served, hserved, (updated.expire_machine now).trans ?_, rfl⟩
  rw [hupdated]
  rfl

/-- The files of a console keep up with its server. -/
structure Follows (c₀ : Console) (d₀ : DiskStorage) (k : Nat) (c : Console) (d : DiskStorage) :
    Prop where
  usable : d.Usable k
  directory : d.directory = c₀.server.replica.storage.directory
  filed : c.server.Upholds (Replica.Filed c₀.server.replica)
  held : d.Holds c.server.replica.node.record ∨
    c.server.replica.node.record = c₀.server.replica.node.record ∧ d = d₀

theorem Follows.turn (h : Follows c₀ d₀ k c d) (working : c.server.isRunning = true)
    (call : c.turn line? now draws = .ok (c', effects)) :
    (d.files.run effects.operations).2 = .ok () ∧
      Follows c₀ d₀ k c' { d with files := (d.files.run effects.operations).1 } := by
  obtain ⟨served, hserved, hmachine, hoperations⟩ := turn_server call
  have hreplica : c'.server.replica = served.replica := congrArg Prod.fst hmachine
  have hfiled := (h.filed.turn (Replica.filed_lasts _) _ _ _ _).holds _ hserved
  have hdirectory := (h.filed working).directory.trans h.directory.symm
  obtain ⟨files, hrun, husable, hheld⟩ := served.run_savesSince h.usable hdirectory
  rw [hoperations, hrun]
  refine ⟨rfl, husable, h.directory, hfiled.congr hmachine, ?_⟩
  rw [hreplica]
  rcases hheld with holds | ⟨hsame, rfl⟩
  · exact .inl holds
  · rw [hsame]
    exact h.held

/-! ## Every run -/

theorem Runs.keeps (h : Runs c₀ d₀ c d lines replies) (follows : Follows c₀ d₀ k c₀ d₀)
    (tidy : c₀.Tidy 0 0) :
    Follows c₀ d₀ k c d ∧ (c.server.isRunning = true → c.Tidy lines replies) := by
  induction h with
  | start => exact ⟨follows, fun _ => tidy⟩
  | turn before working taken call ih =>
      obtain ⟨hfollows, htidy⟩ := ih
      have hrunning := isRunning_of_ending working
      exact ⟨(hfollows.turn hrunning call).2, (htidy hrunning).turn taken call⟩

end Console

open Console

theorem launch_ok {ω : Type} {network : Network} {setup : ServerSetup} {files : FileTree}
    {draw : Nat} {server : Server ω} (h : launch network setup files now draw = .ok server) :
    Server.start network setup files [] now draw = .ok (.ok server) := by
  unfold launch at h
  split at h
  · cases h
  · cases h
  · next started =>
      obtain rfl := Except.ok.inj h
      exact started

/-- A console that was launched over the files of a directory. As long as it works,
it has given a reply for each line, but for one line if the next may not be given
yet; the files hold the record of its node, unless neither has changed since the
launch; and no operation on them ever fails. -/
theorem console_serves {network : Network} {setup : ServerSetup} {files : FileTree}
    {timeout : Duration} {draw : Nat} {server : Server Unit} {start : Instant}
    (launched : launch network setup files start draw = .ok server)
    (usable : DiskStorage.Usable ⟨files, setup.directory⟩ k)
    (h : Runs { server, timeout } ⟨files, setup.directory⟩ c d lines replies)
    (working : c.ending? = none) :
    lines = replies + (if c.takesLine then 0 else 1) ∧
    (d.Holds c.server.replica.node.record ∨
      c.server.replica.node.record = server.replica.node.record ∧
        d = ⟨files, setup.directory⟩) ∧
    ∀ line? now draws c' effects, c.turn line? now draws = .ok (c', effects) →
      (d.files.run effects.operations).2 = .ok () := by
  obtain ⟨replica, rfl, hdirectory⟩ := Server.start_ok (launch_ok launched)
  have hfollows : Follows { server := { replica }, timeout } ⟨files, setup.directory⟩ k
      { server := { replica }, timeout } ⟨files, setup.directory⟩ :=
    ⟨usable, hdirectory.symm, fun _ => .refl replica, .inr ⟨rfl, rfl⟩⟩
  have htidy : Tidy { server := { replica }, timeout } 0 0 :=
    ⟨rfl, ⟨[], [], .start replica, rfl⟩, rfl⟩
  obtain ⟨hkept, htold⟩ := h.keeps hfollows htidy
  have hrunning := isRunning_of_ending working
  exact ⟨(htold hrunning).owed, hkept.held, fun _ _ _ _ _ call => (hkept.turn hrunning call).1⟩

end Quorum.CommandLine
