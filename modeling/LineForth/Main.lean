import LineForth.Command.Basic

/-!
# The program

Reads the files named on the command line and standard input, runs the command
on them, and writes what it printed.
-/

set_option autoImplicit false

namespace LineForth

namespace Shell

def octets (s : String) : Bytes := s.toUTF8.toList

/-- The code under which the system refuses to read a directory. -/
def isDirectoryCode : UInt32 := 21

def reason : IO.Error → Bytes
  | .noFileOrDirectory _ _ _ => Directory.noEntry
  | .permissionDenied _ _ _ => text "permission denied"
  | .inappropriateType _ _ _ => Directory.notDirectory
  | .invalidArgument _ _ _ => Directory.invalidArgument
  | problem => octets (toString problem)

def openFile (name : String) : IO (Bytes × Except Failure Node) := do
  try
    let content ← IO.FS.readBinFile name
    return (octets name, .ok (.file [octets name] content.toList))
  catch problem =>
    match problem with
    | .inappropriateType _ code _ =>
      if code = isDirectoryCode then return (octets name, .ok (.directory [octets name]))
      else return (octets name, .error (Directory.openFailure (octets name) (reason problem)))
    | _ => return (octets name, .error (Directory.openFailure (octets name) (reason problem)))

/-- The file names on the command line, if it can be followed. -/
def fileNames (arguments : List String) : List String :=
  match Options.parse (arguments.map octets) with
  | .ok options => arguments.drop (arguments.length - options.files.length)
  | .error _ => []

def invocation (arguments : List String) (opened : List (Bytes × Except Failure Node))
    (standardInput : Bytes) : Invocation where
  arguments := arguments.map octets
  standardInput := standardInput
  openFile name :=
    match opened.lookup name with
    | some found => found.map (Directory.streamOf name)
    | none => .error (Directory.openFailure name Directory.noEntry)

end Shell

end LineForth

open LineForth in
def main (arguments : List String) : IO UInt32 := do
  let opened ← (Shell.fileNames arguments).mapM Shell.openFile
  let input ← if opened.all (·.2.toBool) then (← IO.getStdin).readBinToEnd else pure .empty
  let finished := Command.run (Shell.invocation arguments opened input.toList)
  let output ← IO.getStdout
  output.write ⟨finished.standardOutput.toArray⟩
  output.flush
  let log ← IO.getStderr
  log.write ⟨finished.standardError.toArray⟩
  log.flush
  return finished.status.toUInt32
