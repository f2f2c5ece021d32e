import LedgerFeed.CommandLine.Run

/-!
# The program

Runs the command of the arguments. Every URL leads to the standard input: a line of it is a frame of
text, and its end closes the socket.
-/

namespace LedgerFeed.CommandLine

/-- The lines of the standard input after those that have been read, the last of which is in
front. -/
partial def readLines (input : IO.FS.Stream) (read : List String) : IO (List String) := do
  let line ← input.getLine
  if line.isEmpty then return read.reverse
  readLines input (line.trimAsciiEnd.toString :: read)

/-- The text of a file, or the reason why it cannot be read. -/
def readText (path : String) : IO (Except String String) := do
  try
    return .ok (← IO.FS.readFile path)
  catch
    | .noFileOrDirectory .. => return .error "No such file or directory (os error 2)"
    | e => return .error (toString e)

/-- What a command needs from outside. Only a command that subscribes needs anything. -/
def environmentOf (c : Option Command) : IO Environment := do
  let .some (.subscribe _ o) := c | return ⟨fun _ => .ok "", .refusing "not connected", ""⟩
  let text ← match o.settings with
    | some path => readText path
    | none => pure (.ok "")
  let lines ← readLines (← IO.getStdin) []
  return ⟨fun _ => text, ⟨fun _ => .ok ⟨lines.map .text, false⟩⟩, "ledger-feed"⟩

end LedgerFeed.CommandLine

open LedgerFeed CommandLine in
/-- Writes what the command writes, and ends with its code. -/
def main (arguments : List String) : IO UInt32 := do
  let environment ← environmentOf (Command.parse? arguments)
  let result := run environment arguments
  IO.print result.output
  match result.ending with
  | .failure report => IO.eprintln report.render
  | .misuse => IO.eprintln "usage: decode | transcode | subscribe"
  | _ => pure ()
  return UInt32.ofNat result.ending.code
