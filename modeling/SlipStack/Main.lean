import SlipStack.Command.Perform

/-!
# The program

The outer layer of the command line: it reads the files that a command may need, carries
the command out, and prints what came of it.
-/

namespace SlipStack

/-- What reading the file at a path gave. -/
def readFile (path : String) : IO (Except FileError String) := do
  match FileError.ofPath? path with
  | some e => return .error e
  | none =>
    try
      let bytes ← IO.FS.readBinFile path
      return FileTree.textOf bytes
    catch e =>
      return .error <|
        match e with
        | .noFileOrDirectory .. => .notFound
        | .inappropriateType .. => .isDirectory
        | e => .other (toString e)

/-- The files at some paths, read in advance. -/
def readFiles (paths : List String) : IO Source := do
  let texts ← paths.mapM fun path => return (path, ← readFile path)
  let text (path : String) : Except FileError String :=
    ((texts.find? (·.1 = path)).map (·.2)).getD (.error .notFound)
  return ⟨text, fun path =>
    match text path with
    | .error .notFound => false
    | _ => true⟩

/-- How the program is used. -/
def usage : List String :=
  ["Usage: slip-stack <command>", "",
    "  lex <plan>      print the tokens of a plan",
    "  check <plan> [--behaviours <file>] [--json]",
    "                  check a plan",
    "  fmt <plan>      print a plan in canonical form",
    "  run <plan> --behaviours <file> [--config <file>] [--max-steps <n>] [--stop-on-lost]",
    "                  run a plan against scripted behaviours"]

end SlipStack

open SlipStack in
def main (arguments : List String) : IO UInt32 := do
  match Command.ofArguments arguments with
  | .error refused =>
    match refused with
    | .help => usage.forM IO.println
    | .wrong => usage.forM IO.eprintln
    return refused.code.toUInt32
  | .ok command =>
    let source ← readFiles command.paths
    let transcript := command.perform source
    transcript.output.forM IO.println
    transcript.errors.forM IO.eprintln
    match transcript.result with
    | .error failure => IO.eprintln failure.message
    | .ok _ => pure ()
    return transcript.code.toUInt32
