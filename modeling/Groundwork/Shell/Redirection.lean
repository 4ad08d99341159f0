import Groundwork.Shell.Basic

/-!
# Redirections

A command runs with open files of its own: a redirection makes a descriptor refer to the file of
another one, to nothing, or to a file named by a path.
-/

namespace Groundwork

namespace Shell

variable (s : Shell)

/-- The open file that a path names, if it names one. -/
def openFile? (files : Files) (path : Bytes) : Option File :=
  match Ascii.toString path with
  | "/dev/null" => some .nothing
  | "/dev/stdin" => files.get? 0
  | "/dev/stdout" => files.get? 1
  | "/dev/stderr" => files.get? 2
  | text =>
    let digits := (text.dropPrefix? "/proc/self/fd/").or (text.dropPrefix? "/dev/fd/")
    (digits.bind (·.toString.toNat?)).bind files.get?

/-- The open files after a redirection, or a complaint. -/
def redirect (files : Files) (r : Redirect) : Except String Files :=
  let path (w : Word) : Bytes := w.value s.parameters
  match r with
  | .duplicate fd source =>
    match files.get? source with
    | some f => .ok (files.set fd f)
    | none => .error (toString source ++ ": Bad file descriptor")
  | .close fd => .ok (files.close fd)
  | .input fd w =>
    match openFile? files (path w) with
    | some f => .ok (files.set fd f)
    | none => .error ("cannot open " ++ Ascii.toString (path w) ++ ": No such file")
  | .output fd w =>
    match openFile? files (path w) with
    | some f => .ok (files.set fd f)
    | none =>
      if (path w).contains '/'.toUInt8 then
        .error ("cannot create " ++ Ascii.toString (path w) ++ ": Directory nonexistent")
      else .ok (files.set fd .nothing)

end Shell

end Groundwork
