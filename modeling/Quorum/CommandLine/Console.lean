import Quorum.CommandLine.Launch
import Quorum.Wire.Http

/-!
# The console

A server whose only client gives its commands line by line, and waits for the
reply to one before it gives the next. Nobody else is connected: messages that
come out of the server are lost, and none come in. What a turn of the console
asks for, operations on files and replies, is collected for whoever carries it
out, the operations before the replies.
-/

namespace Quorum.CommandLine

structure Console where
  server : Server Unit
  /-- How long the client waits for a reply. -/
  timeout : Duration
  /-- When the client that waits began to do so. -/
  waitingSince? : Option Instant := none

namespace Console

/-- What has to be done after a turn: first the operations on files, one after
the other, and then the replies are given. -/
structure Effects where
  operations : List FileOperation
  replies : List Reply

/-- The next line may be given. -/
def takesLine (c : Console) : Bool := c.waitingSince?.isNone

/-- The command that a line gives, or the reply that it gives none. -/
def read (line? : Option String) : List (Unit × Request) × List Reply :=
  match line?.map Request.ofText with
  | none => ([], [])
  | some (.ok command) => ([((), command)], [])
  | some (.error e) => ([], [e.reply])

/-- The replies among what a server gives out. -/
def repliesIn (output : List (ServerOutput Unit)) : List Reply :=
  output.filterMap fun
    | .answer () reply => some reply
    | .send _ _ => none

/-- A client that has waited for too long is told so, and the server lets go of
it. -/
def expire (c : Console) (now : Instant) : Console × List Reply :=
  match c.waitingSince? with
  | none => (c, [])
  | some since =>
    if since + c.timeout ≤ now then
      ({ c with server := c.server.forget fun _ => true, waitingSince? := none },
        [Http.Handling.unanswered.reply])
    else (c, [])

/-- The console when its server has had a turn: a client that asks begins to
wait, and one that has its reply waits no longer. -/
def update (c : Console) (server : Server Unit) (asks : Bool) (replies : List Reply)
    (now : Instant) : Console :=
  { c with
    server
    waitingSince? :=
      if !replies.isEmpty then none
      else if asks then some now
      else c.waitingSince? }

/-- Lets the server do what it has to do now, with the line that the client
gives, if it gives one. -/
def turn (c : Console) (line? : Option String) (now : Instant) (draws : List Nat) :
    Except ClockOverflow (Console × Effects) := do
  let (asked, refusal) := read line?
  let served ← c.server.turn now draws asked none
  let replies := refusal ++ repliesIn served.output
  let updated := c.update served.takeOutput.2 (!asked.isEmpty) replies now
  let (c', late) := updated.expire now
  return (c', ⟨served.savesSince c.server, replies ++ late⟩)

/-- The end of the program if the server has stopped. -/
def ending? (c : Console) : Option Ending :=
  c.server.failure?.map fun cause => .failed (.storage cause)

end Console

end Quorum.CommandLine
