import Quorum.Proofs.Handlers.Rewriting
import Quorum.Proofs.Storage.RecordFiles

/-!
# Records that files can hold

All that a node writes into its record are words: terms and votes that it was
sent, entries of messages and of clients, and lengths of its log. So its record
stays one that files can hold, whatever it hears (`handle_recordable`,
`submit_recordable`), and what it says is again of this kind.
-/

namespace Quorum

/-- What a node may write into its record when it hears the message fits the
files. -/
def Message.Recordable : Message → Prop
  | .voteRequest q => Word.fits q.term = true ∧ Word.fits q.candidate = true
  | .voteReply r => Word.fits r.term = true
  | .appendRequest q => Word.fits q.term = true ∧ Word.fits q.commit = true ∧
      ∀ entry ∈ q.entries, entry.Recordable
  | .appendReply r => Word.fits r.term = true

theorem Message.Recordable.term {message : Message} (h : message.Recordable) :
    Word.fits message.term = true := by
  cases message with
  | voteRequest q => exact h.1
  | voteReply r => exact h
  | appendRequest q => exact h.1
  | appendReply r => exact h

namespace Word

theorem fits_iff {n : Nat} : fits n = true ↔ n < size := by simp [fits]

theorem fits_of_le {m n : Nat} (h : m ≤ n) (hn : fits n = true) : fits m = true :=
  fits_iff.mpr (Nat.lt_of_le_of_lt h (fits_iff.mp hn))

theorem fits_max {m n : Nat} (hm : fits m = true) (hn : fits n = true) :
    fits (Nat.max m n) = true :=
  fits_iff.mpr (Nat.max_lt.mpr ⟨fits_iff.mp hm, fits_iff.mp hn⟩)

theorem fits_next {t : Term} (h : fits t = true) : fits t.next = true := by
  have hlt := fits_iff.mp h
  refine fits_iff.mpr ?_
  unfold Term.next max
  split
  · next hless => exact Nat.add_lt_of_lt_sub hless
  · exact hlt

end Word

namespace Log

theorem mem_graft {entry : LogEntry} :
    ∀ {old new : Log}, entry ∈ graft old new → entry ∈ old ∨ entry ∈ new
  | old, [], h => by
      unfold graft at h
      exact .inl h
  | [], e :: new, h => .inr h
  | o :: old, e :: new, h => by
      unfold graft at h
      split at h
      · rcases List.mem_cons.mp h with rfl | h
        · exact .inl List.mem_cons_self
        · exact (mem_graft h).imp (List.mem_cons_of_mem o) (List.mem_cons_of_mem e)
      · exact .inr h

/-- A log that takes a leader's entries over holds nothing else beside its
own. -/
theorem mem_splice {log : Log} {prev : LogIndex} {entries : List LogEntry} {entry : LogEntry}
    (h : entry ∈ log.splice prev entries) : entry ∈ log ∨ entry ∈ entries := by
  rcases List.mem_append.mp h with h | h
  · exact .inl (List.mem_of_mem_take h)
  · exact (mem_graft h).imp_left List.mem_of_mem_drop

end Log

namespace Node

variable {heard? : Option (NodeId × Message)} {now : Instant} {draw : Nat}
  {n n' n₁ : Node} {said : List Command} {record : Record} {sender : NodeId} {message : Message}
  {commands : List Command}

/-! ## What is not the commit length -/

/-- Nobody but clients brings an operation of their own, so a node that hears a
message appends nothing that it could not save. -/
theorem Rewrites.legible (h : Rewrites (some (sender, message)) n record)
    (heard : message.Recordable) (hid : Word.fits n.id = true) (hn : n.record.Legible) :
    record.Legible := by
  obtain ⟨hterm, hvote, hlog⟩ := hn
  cases h with
  | keep => exact ⟨hterm, hvote, hlog⟩
  | adopt same newer =>
      obtain ⟨rfl, rfl⟩ := Prod.mk.inj (Option.some.inj same)
      exact ⟨heard.term, fun _ hc => (nomatch hc), hlog⟩
  | stand =>
      refine ⟨Word.fits_next hterm, fun candidate hc => ?_, hlog⟩
      obtain rfl := Option.some.inj hc
      exact hid
  | vote same free =>
      obtain ⟨rfl, rfl⟩ := Prod.mk.inj (Option.some.inj same)
      refine ⟨hterm, fun candidate hc => ?_, hlog⟩
      obtain rfl := Option.some.inj hc
      exact heard.2
  | append operation asked =>
      obtain rfl := asked.resolve_left (by simp)
      refine ⟨hterm, hvote, fun entry he => ?_⟩
      rcases List.mem_append.mp he with he | he
      · exact hlog entry he
      · obtain rfl := List.mem_singleton.mp he
        exact ⟨hterm, trivial⟩
  | commit role more within => exact ⟨hterm, hvote, hlog⟩
  | accept same accepts =>
      obtain ⟨rfl, rfl⟩ := Prod.mk.inj (Option.some.inj same)
      refine ⟨hterm, hvote, fun entry he => ?_⟩
      exact (Log.mem_splice he).elim (hlog entry) (heard.2.2 entry)

theorem Deeds.legible (h : Deeds (some (sender, message)) now draw n n' said)
    (heard : message.Recordable) (hid : Word.fits n.id = true) (hn : n.record.Legible) :
    n'.record.Legible := by
  induction h with
  | nil => exact hn
  | cons first _ ih => exact ih (first.frame.id ▸ hid) (first.rewrites.legible heard hid hn)

/-! ## The commit length -/

theorem Rewrites.commit_le (h : Rewrites heard? n record) :
    n.record.commitLength ≤ record.commitLength := by
  cases h with
  | keep | adopt | stand | vote | append => exact Nat.le_refl _
  | commit role more within => exact Nat.le_of_lt more
  | accept heard accepts => exact Nat.le_max_left _ _

theorem Deeds.commit_le (h : Deeds heard? now draw n n' said) :
    n.record.commitLength ≤ n'.record.commitLength := by
  induction h with
  | nil => exact Nat.le_refl _
  | cons first _ ih => exact Nat.le_trans first.rewrites.commit_le ih

/-- Who does more than follow does so in a term that is not zero. -/
def Positive (n : Node) : Prop :=
  (∃ f, n.role = .follower f) ∨ 0 < n.record.currentTerm

theorem Positive.of_role (h : n.Positive) (role : ∀ f, n.role ≠ .follower f) :
    0 < n.record.currentTerm :=
  h.resolve_left fun ⟨f, hf⟩ => role f hf

theorem Term.next_pos (t : Term) : 0 < t.next := by
  unfold Term.next
  split
  · exact Nat.succ_pos t
  · next hlast => exact Nat.lt_of_lt_of_le (by decide) (Nat.le_of_not_lt hlast)

theorem Deed.positive (h : Deed heard? now draw n n' said) (hn : n.Positive) : n'.Positive := by
  have hlater : (∀ f, n.role ≠ .follower f) → n'.Positive := fun role =>
    .inr (Nat.lt_of_lt_of_le (hn.of_role role) h.frame.term_le)
  have hleads : ∀ {l}, n.role = .leader l → n'.Positive := fun role =>
    hlater fun f hf => by simp [role] at hf
  have hstands : ∀ {c}, n.role = .candidate c → n'.Positive := fun role =>
    hlater fun f hf => by simp [role] at hf
  cases h with
  | adopt heard newer => exact .inl (asFollower_role _ none now draw)
  | expire role expired => exact hleads role
  | follow heard current => exact .inl ⟨_, rfl⟩
  | stand free => exact .inr (Term.next_pos _)
  | count role tallying heard current => exact hstands role
  | lose role tallying => exact hstands role
  | win role tallying majority granted => exact hstands role
  | round role begun => exact hleads role
  | advance role => exact hleads role
  | append operation role asked => exact hleads role
  | grant heard grants =>
      rcases hn with ⟨f, role⟩ | hterm
      · exact .inl ⟨f, by unfold voteFor; split <;> exact role⟩
      · exact .inr (Nat.lt_of_lt_of_le hterm (voteFor_frame n _).term_le)
  | deny heard grants => exact hn
  | @accept f _ q role heard accepts observed =>
      refine .inl ⟨f, ?_⟩
      unfold accepting takeEntriesBehind
      rw [(commitTo_same _ _).1]
      simp only []
      split <;> exact role
  | refuse heard accepts => exact hn
  | note role heard current success recorded => exact hleads role
  | lower role heard current failure => exact hleads role

theorem Deeds.positive (h : Deeds heard? now draw n n' said) (hn : n.Positive) : n'.Positive := by
  induction h with
  | nil => exact hn
  | cons first _ ih => exact ih (first.positive hn)

/-- A node that hears of no entries commits no more than it has. -/
theorem Rewrites.commit_le_length (h : Rewrites heard? n record)
    (alone : ∀ sender q, heard? ≠ some (sender, .appendRequest q)) (hn : n.Positive) :
    n.record.log.length ≤ record.log.length ∧
      record.commitLength ≤ max n.record.commitLength record.log.length := by
  cases h with
  | keep | adopt | stand | vote => exact ⟨Nat.le_refl _, Nat.le_max_left _ _⟩
  | append operation asked =>
      rw [List.length_append]
      exact ⟨Nat.le_add_right _ _, Nat.le_max_left _ _⟩
  | commit role more within =>
      have hterm := hn.of_role fun f hf => by simp [role] at hf
      exact ⟨Nat.le_refl _, Nat.le_trans (within hterm) (Nat.le_max_right _ _)⟩
  | accept heard accepts => exact absurd heard (alone _ _)

theorem Deeds.commit_le_length (h : Deeds heard? now draw n n' said)
    (alone : ∀ sender q, heard? ≠ some (sender, .appendRequest q)) (hn : n.Positive) :
    n.record.log.length ≤ n'.record.log.length ∧
      n'.record.commitLength ≤ max n.record.commitLength n'.record.log.length := by
  induction h with
  | nil => exact ⟨Nat.le_refl _, Nat.le_max_left _ _⟩
  | cons first _ ih =>
      obtain ⟨hlength, hcommit⟩ := first.rewrites.commit_le_length alone hn
      obtain ⟨hlength', hcommit'⟩ := ih (first.positive hn)
      refine ⟨Nat.le_trans hlength hlength', Nat.le_trans hcommit' (Nat.max_le.mpr ⟨?_, ?_⟩)⟩
      · refine Nat.le_trans hcommit (Nat.max_le.mpr ⟨Nat.le_max_left _ _, ?_⟩)
        exact Nat.le_trans hlength' (Nat.le_max_right _ _)
      · exact Nat.le_max_right _ _

/-- A node that hears of entries commits no more than it is told to. -/
theorem commit_le_of_appendRequest {q : AppendRequest}
    (h : n.handleMessage sender (.appendRequest q) now draw = .ok (n', commands)) :
    n'.record.commitLength ≤ max n.record.commitLength q.commit := by
  obtain ⟨n₁, lost, said, hadopt, hresponse, rfl⟩ := handleMessage_responds h
  have hadopted : n₁.record.commitLength = n.record.commitLength := by
    obtain ⟨_, rfl, _⟩ | ⟨_, rfl, _⟩ := adoptTerm_cases hadopt
    · rw [inTerm_record]
    · rfl
  have hfollowing := n₁.following_record q now draw
  rw [← hadopted]
  cases hresponse with
  | reject stale => exact Nat.le_max_left _ _
  | refuse current accepts =>
      rw [hfollowing]
      exact Nat.le_max_left _ _
  | accept current accepts =>
      rw [accepting_record, hfollowing]
      refine Nat.max_le.mpr ⟨Nat.le_max_left _ _, ?_⟩
      exact Nat.le_trans (Nat.min_le_left _ _) (Nat.le_max_right _ _)

/-! ## Whole records -/

/-- A node whose record can be saved now and will be able to. -/
structure Recordable (n : Node) : Prop where
  id : Word.fits n.id = true
  record : n.record.Recordable
  positive : n.Positive

/-- Whatever happens to a node makes it do what it might do on hearing some
message that fits: a timer tells it less than a reply that says nothing. -/
theorem exists_deeds_heard {event : Event} (h : n.handle event now draw = .ok (n', commands))
    (heard : ∀ sender message, event = .message sender message → message.Recordable) :
    ∃ sender message, message.Recordable ∧
      Deeds (some (sender, message)) now draw n n' commands ∧
        ∀ q, message = .appendRequest q →
          n.handleMessage sender (.appendRequest q) now draw = .ok (n', commands) := by
  have hsilent : (Message.voteReply ⟨0, false, 0⟩).Recordable := by
    show Word.fits 0 = true
    decide
  cases event with
  | electionTimeout =>
      exact ⟨0, _, hsilent, electionTimeout_deeds h, fun q hq => nomatch hq⟩
  | voteRoundTimeout =>
      exact ⟨0, _, hsilent, voteRoundTimeout_deeds h, fun q hq => nomatch hq⟩
  | heartbeatTimeout =>
      exact ⟨0, _, hsilent, heartbeatTimeout_deeds h, fun q hq => nomatch hq⟩
  | leaseTimeout => exact ⟨0, _, hsilent, leaseTimeout_deeds h, fun q hq => nomatch hq⟩
  | message sender message =>
      exact ⟨sender, message, heard sender message rfl, handleMessage_deeds h, fun q hq => hq ▸ h⟩

/-- Whatever a node hears, its record can be saved, as long as its log does not
outgrow the word in which its length is counted. -/
theorem handle_recordable {event : Event} (h : n.handle event now draw = .ok (n', commands))
    (hn : n.Recordable)
    (heard : ∀ sender message, event = .message sender message → message.Recordable)
    (short : Word.fits n'.record.log.length = true) : n'.Recordable := by
  obtain ⟨sender, message, hmessage, hdeeds, happend⟩ := exists_deeds_heard h heard
  refine ⟨hdeeds.frame.id ▸ hn.id, ⟨hdeeds.legible hmessage hn.id hn.record.toLegible, ?_⟩,
    hdeeds.positive hn.positive⟩
  by_cases hentries : ∃ q, message = .appendRequest q
  · obtain ⟨q, rfl⟩ := hentries
    exact Word.fits_of_le (commit_le_of_appendRequest (happend q rfl))
      (Word.fits_max hn.record.commitLength hmessage.2.1)
  · refine Word.fits_of_le (hdeeds.commit_le_length (fun s q hq => hentries ⟨q, ?_⟩)
      hn.positive).2 (Word.fits_max hn.record.commitLength short)
    exact (Prod.mk.inj (Option.some.inj hq)).2

theorem submit_recordable {operation : Operation} (hn : n.Recordable)
    (hoperation : operation.Recordable)
    (short : Word.fits (n.submit operation).1.record.log.length = true) :
    (n.submit operation).1.Recordable := by
  have hdeeds := n.submit_deeds operation 0 0
  have hcommit := (hdeeds.commit_le_length (fun _ _ hq => nomatch hq) hn.positive).2
  have hlegible : (n.submit operation).1.record.Legible := by
    obtain ⟨hterm, hvote, hlog⟩ := hn.record.toLegible
    unfold submit
    split
    · next role =>
        -- the commit length is all that is changed after the entry is appended
        unfold advanceCommit
        rw [commitTo_record]
        refine ⟨hterm, hvote, fun entry he => ?_⟩
        replace he : entry ∈ n.record.log ++ [⟨n.record.currentTerm, operation⟩] := he
        rcases List.mem_append.mp he with he | he
        · exact hlog entry he
        · obtain rfl := List.mem_singleton.mp he
          exact ⟨hterm, hoperation⟩
    · exact ⟨hterm, hvote, hlog⟩
  refine ⟨hdeeds.frame.id ▸ hn.id, ⟨hlegible, ?_⟩, hdeeds.positive hn.positive⟩
  exact Word.fits_of_le hcommit (Word.fits_max hn.record.commitLength short)

/-! ## What is said -/

theorem Deed.said_recordable (h : Deed heard? now draw n n' said) (hid : Word.fits n.id = true)
    (hn : n.record.Legible) (hn' : Word.fits n'.record.commitLength = true) {receiver : NodeId}
    {reply : Message} (hm : .send receiver reply ∈ said) : reply.Recordable := by
  have hfarewell : ∀ leader?, .send receiver reply ∉ n.farewell leader? := by
    intro leader? hm
    unfold farewell at hm
    split at hm <;> simp at hm
  have hone : ∀ {peer : NodeId} {answer : Message},
      .send receiver reply ∈ [Command.send peer answer] →
      answer.Recordable → reply.Recordable := by
    intro peer answer hm hanswer
    obtain ⟨_, rfl⟩ := Command.send.inj (List.mem_singleton.mp hm)
    exact hanswer
  cases h with
  | adopt heard newer => exact absurd hm (hfarewell _)
  | expire role expired => exact absurd hm (hfarewell _)
  | follow heard current => exact absurd hm (hfarewell _)
  | stand free =>
      obtain ⟨peer, _, heq⟩ := List.mem_map.mp hm
      obtain ⟨_, rfl⟩ := Command.send.inj heq
      exact ⟨Word.fits_next hn.currentTerm, hid⟩
  | round role begun =>
      obtain ⟨peer, _, heq⟩ := List.mem_filterMap.mp hm
      obtain ⟨q, hq, heq⟩ := Option.map_eq_some_iff.mp heq
      obtain ⟨_, rfl⟩ := Command.send.inj heq
      obtain ⟨sent, _, hq⟩ := Option.bind_eq_some_iff.mp hq
      obtain rfl := Option.some.inj hq
      exact ⟨hn.currentTerm, hn', fun entry he => hn.log entry (List.mem_of_mem_drop he)⟩
  | grant heard grants => exact hone hm hn.currentTerm
  | deny heard grants => exact hone hm hn.currentTerm
  | accept role heard accepts observed => exact hone hm hn.currentTerm
  | refuse heard accepts => exact hone hm hn.currentTerm
  | count | lose | win | advance | append | note | lower => exact nomatch hm

theorem Deeds.said_recordable (h : Deeds (some (sender, message)) now draw n n' said)
    (heard : message.Recordable) (hid : Word.fits n.id = true) (hn : n.record.Legible)
    (hn' : Word.fits n'.record.commitLength = true) {receiver : NodeId} {reply : Message}
    (hm : .send receiver reply ∈ said) : reply.Recordable := by
  induction h with
  | nil => exact nomatch hm
  | cons first rest ih =>
      rcases List.mem_append.mp hm with hm | hm
      · exact first.said_recordable hid hn (Word.fits_of_le rest.commit_le hn') hm
      · exact ih (first.frame.id ▸ hid) (first.rewrites.legible heard hid hn) hn' hm

/-- What a node says that hears what fits is again something that fits. -/
theorem handle_said_recordable {event : Event}
    (h : n.handle event now draw = .ok (n', commands)) (hn : n.Recordable)
    (hn' : Word.fits n'.record.commitLength = true)
    (heard : ∀ sender message, event = .message sender message → message.Recordable)
    {receiver : NodeId} {reply : Message} (hm : .send receiver reply ∈ commands) :
    reply.Recordable := by
  obtain ⟨sender, message, hmessage, hdeeds, _⟩ := exists_deeds_heard h heard
  exact hdeeds.said_recordable hmessage hn.id hn.record.toLegible hn' hm

end Node

end Quorum
