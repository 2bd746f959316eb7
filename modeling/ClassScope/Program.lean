import ClassScope.Invocation.Reader
import ClassScope.Report.Printer
import ClassScope.Run

/-! The program as a whole, from its arguments and the files it finds to the files it leaves, what
it prints and its exit code. -/
namespace ClassScope.Program

structure Ending where
  tree : FileTree
  exitCode : UInt8
  stdout : Text
  stderr : Text

def version : Text := "classname-prefixer 0.3.1\n".toList

def help : Text :=
  ("Prefix the className literals of JSX and TSX sources\n\n" ++
   "Usage: classname-prefixer [OPTIONS] [PATHS]...\n\n" ++
   "Options: --prefix, --attribute-name, --join-call-name, --options, --query,\n" ++
   "  --enable-debugging, --debug-log, --strategy structural|regex, --write, --out-dir,\n" ++
   "  --ignore, --output human|json, --verbose, --help, --version\n").toList

def usageMessage : Invocation.Usage → Text
  | .unknownArgument => "error: unexpected argument\n".toList
  | .invalidValue => "error: invalid value\n".toList
  | .conflict => "error: arguments cannot be used together\n".toList
  | .tooManyValues => "error: unexpected value\n".toList
  | .help | .version => []

/-- The report goes where the new texts do not. A file that failed makes the program fail. -/
def finish (i : Invocation) (s : Run.State) (reports : List FileReport) : Ending :=
  let report := Report.text i.format reports ++ ['\n']
  let exitCode := if (Summary.ofReports reports).failed = 0 then 0 else 1
  match i.destination with
  | .stdout => ⟨s.tree, exitCode, s.printed, report⟩
  | _ => ⟨s.tree, exitCode, s.printed ++ report, []⟩

def run (args : List Text) (tree : FileTree) : Ending :=
  match Invocation.ofArguments args with
  | .error .help => ⟨tree, 0, help, []⟩
  | .error .version => ⟨tree, 0, version, []⟩
  | .error usage => ⟨tree, 2, [], usageMessage usage⟩
  | .ok i =>
    match Run.run i tree with
    | (s, .ok reports) => finish i s reports
    | (s, .error fault) =>
      match fault.message? with
      | some message => ⟨s.tree, 1, s.printed, "Error: ".toList ++ message ++ ['\n']⟩
      -- Edits cross: the program breaks off.
      | none => ⟨s.tree, 101, s.printed, []⟩

end ClassScope.Program
