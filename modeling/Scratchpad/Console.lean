import Scratchpad.Text.Lossy

/-! The console, on which lines appear. A writer gathers bytes and puts them on the console as one
line when it is flushed and when it is given up.
-/

namespace Scratchpad

/-- The lines that have appeared, oldest first. -/
structure Console where
  lines : Array String
deriving DecidableEq

/-- A console without lines. -/
def Console.empty : Console := ⟨#[]⟩

/-- A console with one more line. -/
def Console.log (console : Console) (line : String) : Console :=
  ⟨console.lines.push line⟩

/-- A writer in front of a console, with the bytes that have not appeared yet. -/
structure ConsoleWriter where
  buffer : Array UInt8
  console : Console

namespace ConsoleWriter

/-- A writer without bytes. -/
def new (console : Console) : ConsoleWriter := ⟨#[], console⟩

/-- Takes all of the bytes. -/
def write (writer : ConsoleWriter) (bytes : Array UInt8) : ConsoleWriter :=
  { writer with buffer := writer.buffer ++ bytes }

/-- A text without the newlines at its end. -/
def withoutNewlines (text : String) : String :=
  String.ofList (text.toList.reverse.dropWhile (· = '\n')).reverse

/-- The line that a writer's bytes make. -/
def line (buffer : Array UInt8) : String :=
  withoutNewlines (Text.decodeLossy buffer.toList)

/-- Puts the bytes on the console as one line, if there are any. -/
def flush (writer : ConsoleWriter) : ConsoleWriter :=
  if writer.buffer.isEmpty then
    writer
  else
    ⟨#[], writer.console.log (line writer.buffer)⟩

/-- Gives the writer up, which flushes it. -/
def drop (writer : ConsoleWriter) : Console :=
  writer.flush.console

/-- What can be done with a writer until it is given up. -/
inductive Use where
  | write (bytes : Array UInt8)
  | flush

/-- Uses the writer, and gives how many bytes it has taken. -/
def perform (writer : ConsoleWriter) : Use → Nat × ConsoleWriter
  | .write bytes => (bytes.size, writer.write bytes)
  | .flush => (0, writer.flush)

/-- Uses the writer time after time, and gives how many bytes it has taken each time. -/
def performAll (writer : ConsoleWriter) : List Use → List Nat × ConsoleWriter
  | [] => ([], writer)
  | use :: uses =>
    let (taken, writer) := writer.perform use
    let (others, writer) := writer.performAll uses
    (taken :: others, writer)

end ConsoleWriter

end Scratchpad
