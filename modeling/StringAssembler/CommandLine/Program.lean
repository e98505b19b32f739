import StringAssembler.CommandLine.Arguments
import StringAssembler.Log.Threshold

/-!
# The program

The program as a function: from its arguments, the log level that its environment
names and the files around it, to its exit code, what it prints and the files
afterwards.  The exit code is 0 for success, 1 for a failed conversion and 2 for
arguments that make no sense.

The words of the help and of the complaints about arguments are not part of it: in their
place stands one line of usage.
-/

namespace StringAssembler

/-- What the program shows to its caller. -/
structure ProgramReport where
  exitCode : Nat
  /-- What is printed on standard output. -/
  output : String
  /-- What is printed on standard error. -/
  errorOutput : String
  deriving DecidableEq, Repr

namespace Program

/-- The name and the version of the program. -/
def versionText : String := "tblasm 0.1.0\n"

/-- A line that names the options that have to be given.  It stands for the full help text,
which describes each option, and for the complaint that says what is wrong with the
arguments. -/
def usageText : String :=
  "Usage: tblasm [OPTIONS] --table <PATH> --input <PATH> --output <PATH>\n"

/-- The event that ends a conversion. -/
def lastEvent (options : ConversionOptions) :
    Except ConversionError ConversionSummary → Event
  | .ok summary => .finished summary.strings summary.bytes options.output
  | .error e => .failed e.message

/-- The exit code of a conversion. -/
def exitCode : Except ConversionError ConversionSummary → Nat
  | .ok _ => 0
  | .error _ => 1

/-- The report on a conversion.  The threshold decides what is printed, and nothing
else. -/
def conversionReport (options : ConversionOptions) (threshold : Threshold)
    (conversion : Traced ConversionError ConversionSummary) : ProgramReport where
  exitCode := exitCode conversion.outcome
  output := ""
  errorOutput := threshold.log (conversion.events ++ [lastEvent options conversion.outcome])

/-- The answer to a request for the version. -/
def versionReport : ProgramReport := ⟨0, versionText, ""⟩

/-- The answer to a request for help, without the description of the options. -/
def helpReport : ProgramReport := ⟨0, usageText, ""⟩

/-- The answer to arguments that make no sense, without what is wrong with them. -/
def usageReport : ProgramReport := ⟨2, "", usageText⟩

/-- Answers a request over the files of a tree. -/
def answer (request : Request) (levelName : Option String) (tree : FileTree) :
    ProgramReport × FileTree :=
  match request with
  | .convert options verbosity =>
      let report := options.run tree
      (conversionReport options (.choose verbosity levelName) ⟨report.events, report.outcome⟩,
        report.tree)
  | .version => (versionReport, tree)
  | .help => (helpReport, tree)
  | .invalid => (usageReport, tree)

/-- Runs the program over the files of a tree. -/
def run (arguments : List String) (levelName : Option String) (tree : FileTree) :
    ProgramReport × FileTree :=
  answer (Request.ofArguments arguments) levelName tree

end Program
end StringAssembler
