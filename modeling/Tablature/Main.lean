import Tablature.CommandLine.Run

/-!
# The program

The file system of the machine, and the run of the program on it.
-/

namespace Tablature

/-- The cause with a number of the system. -/
def SystemFault.Cause.ofNumber (description : String) : Nat → SystemFault.Cause
  | 2 => .noEntry
  | 17 => .alreadyExists
  | 20 => .notDirectory
  | 21 => .isDirectory
  | 36 => .nameTooLong
  | n => .other n description

/-- The number of an error of the system, which may come as its complement, and its text. -/
def SystemFault.Cause.ofError (e : IO.Error) : SystemFault.Cause :=
  let cause (code : UInt32) (description : String) : SystemFault.Cause :=
    ofNumber description (if code < 0x80000000 then code else 0 - code).toNat
  match e with
  | .noFileOrDirectory _ code text | .interrupted _ code text => cause code text
  | .alreadyExists _ code text | .invalidArgument _ code text | .permissionDenied _ code text
  | .resourceExhausted _ code text | .inappropriateType _ code text
  | .noSuchThing _ code text => cause code text
  | .otherError code text | .resourceBusy code text | .resourceVanished code text
  | .unsupportedOperation code text | .hardwareFault code text
  | .unsatisfiedConstraints code text | .illegalOperation code text | .protocolError code text
  | .timeExpired code text => cause code text
  | .unexpectedEof => .other 0 "unexpected end of file"
  | .userError text => .other 0 text

/-- Performs an operation on a path that the system can be given. -/
def FileFault.guard {α : Type} (path : Path) (operation : String → IO α) :
    IO (Except FileFault α) := do
  if path.text.contains '\x00' then return .error .embeddedNull
  try return .ok (← operation path.text)
  catch e => return .error (.system ⟨.ofError e, path⟩)

/-- The file system of the machine. -/
def Host.machine : Host IO where
  read path := FileFault.guard path (IO.FS.readBinFile ·)
  write path content := FileFault.guard path (IO.FS.writeBinFile · content)
  makeDirectory path := FileFault.guard path (IO.FS.createDir ·)
  isDirectory path := try (← IO.FS.realPath path.text).isDir catch _ => return false

end Tablature

def main (arguments : List String) : IO UInt32 := do
  let report ← Tablature.CommandLine.run Tablature.Host.machine arguments
  IO.print report.stdout
  IO.eprint report.stderr
  match report.ending with
  | .ok code => return code.toUInt32
  | .error e => IO.eprintln e.message; return 1
