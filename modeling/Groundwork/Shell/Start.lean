import Groundwork.Shell.Basic

/-!
# How a shell starts

A shell is given a script by the option `-c`, or reads one from its standard input.
-/

namespace Groundwork

namespace Shell

/-- The shell with a name, arguments and something to do. -/
def of (pid : Nat) (name : Bytes) (args : List Bytes) (todo : List Frame) : Shell where
  parameters := ⟨name, args, pid, 0, none, Utility.environment⟩
  todo := todo
  traps := []
  jobs := []
  unread := []
  ended := false

/-- A shell that only complains and exits. -/
def broken (pid : Nat) (name : Bytes) (text : String) : Shell :=
  of pid name [] [.complain (name ++ Utility.ascii (text ++ "\n")), .leave 2]

/-- The shell that an argument vector starts. -/
def start (pid : Nat) : List Bytes → Shell
  | [] => of pid [] [] [.fetch]
  | [name] => of pid name [] [.fetch]
  | name :: option :: rest =>
    if option = Utility.ascii "-c" then
      match rest with
      | [] => broken pid name ": 0: -c requires an argument"
      | text :: more =>
        let name := more.head?.getD name
        match Script.ofBytes? text with
        | some a => of pid name more.tail [.run a false]
        | none => broken pid name ": 1: Syntax error: end of file unexpected"
    else if option = Utility.ascii "-s" then of pid name rest [.fetch]
    else broken pid name (": 0: cannot open " ++ Ascii.toString option ++ ": No such file")

end Shell

end Groundwork
