import StringAssembler.CommandLine.Program

/-!
# The executable

Reads the files that a request names, hands what it found to the program, and carries
out what the program answers: one write, the two printed texts, the exit code.  Nothing
is decided here.
-/

namespace StringAssembler
namespace Executable

/-- A failure of the operating system as a failure of a file. -/
def fileError : IO.Error → FileError
  | .alreadyExists _ number words | .otherError number words
  | .resourceBusy number words | .resourceVanished number words
  | .unsupportedOperation number words | .hardwareFault number words
  | .unsatisfiedConstraints number words | .illegalOperation number words
  | .protocolError number words | .timeExpired number words
  | .interrupted _ number words | .noFileOrDirectory _ number words
  | .invalidArgument _ number words | .permissionDenied _ number words
  | .resourceExhausted _ number words | .inappropriateType _ number words
  | .noSuchThing _ number words => .other number.toNat words
  | .unexpectedEof => .other 0 "unexpected end of file"
  | .userError words => .other 0 words

/-- An action on a file with its failure as a value. -/
def attempt {α : Type} (action : IO α) : IO (Except FileError α) := do
  match ← action.toBaseIO with
  | .ok a => return .ok a
  | .error e => return .error (fileError e)

/-- Reads the bytes of a file. -/
def read (path : String) : IO (Except FileError ByteArray) :=
  attempt (IO.FS.withFile path .read fun file => file.readBinToEnd)

/-- What a conversion finds in the files of the system. -/
def sources (options : ConversionOptions) : IO ConversionSources := do
  let table ← read options.table
  let input ← read options.input
  let outputBlank :=
    match ← read options.output with
    | .ok content => content.size == 0
    | .error _ => true
  return { table, input, outputBlank }

/-- Writes bytes to a file, behind its content or in place of it. -/
def write (path : String) (append : Bool) (bytes : ByteArray) : IO (Except FileError Unit) :=
  attempt <| IO.FS.withFile path (if append then .append else .write) fun file => do
    file.write bytes
    file.flush

/-- Carries out a conversion. -/
def convert (options : ConversionOptions) :
    IO (Traced ConversionError ConversionSummary) := do
  let rendered := options.render (← sources options)
  match rendered.outcome with
  | .error e => return ⟨rendered.events, .error e⟩
  | .ok block =>
      let last := options.conclude block (← write options.output options.append block.bytes)
      return ⟨rendered.events ++ last.events, last.outcome⟩

/-- Prints a report and returns its exit code. -/
def print (report : ProgramReport) : IO UInt32 := do
  (← IO.getStdout).putStr report.output
  (← IO.getStderr).putStr report.errorOutput
  return report.exitCode.toUInt32

/-- Answers a request over the files of the system. -/
def answer (levelName : Option String) : Request → IO ProgramReport
  | .convert options verbosity =>
      return Program.conversionReport options (.choose verbosity levelName)
        (← convert options)
  | .version => return Program.versionReport
  | .help => return Program.helpReport
  | .invalid => return Program.usageReport

end Executable
end StringAssembler

/-- Runs the program with the arguments and the environment of the process. -/
def main (arguments : List String) : IO UInt32 := do
  let levelName ← IO.getEnv "RUST_LOG"
  StringAssembler.Executable.print
    (← StringAssembler.Executable.answer levelName
      (StringAssembler.Request.ofArguments arguments))
