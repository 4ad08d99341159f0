import Groundwork.Text.Ascii

/-!
# Shell scripts

The commands of the shell that launched programs are most often. A word is a row of pieces, each of
which is text or stands for the value of a parameter; what is quoted is neither split into several
words nor dropped where it is empty.
-/

namespace Groundwork

/-- A piece of a word. -/
inductive Piece
  | text (s : Bytes) (quoted : Bool)
  | parameter (name : Bytes) (quoted : Bool)
  /-- The value of an arithmetic expression. -/
  | arithmetic (s : Bytes) (quoted : Bool)
deriving DecidableEq, Repr

abbrev Word := List Piece

/-- What a redirection makes a descriptor refer to. -/
inductive Redirect
  /-- The file of another descriptor. -/
  | duplicate (fd : Nat) (source : Nat)
  /-- A file that is read. -/
  | input (fd : Nat) (path : Word)
  /-- A file that is written. -/
  | output (fd : Nat) (path : Word)
  /-- Nothing. -/
  | close (fd : Nat)
deriving DecidableEq, Repr

structure SimpleCommand where
  assignments : List (Bytes × Word)
  words : List Word
  redirects : List Redirect
deriving DecidableEq, Repr

inductive Script
  | simple (c : SimpleCommand)
  /-- The output of the first is the input of the second. -/
  | pipe (a b : Script)
  | sequence (a b : Script)
  /-- The second runs if the first succeeds. -/
  | both (a b : Script)
  /-- The second runs if the first fails. -/
  | either (a b : Script)
  | negate (a : Script)
  /-- Runs without being waited for. -/
  | background (a : Script)
  /-- Runs in a shell of its own. -/
  | subshell (a : Script)
  /-- Runs with other open files. -/
  | redirected (a : Script) (redirects : List Redirect)
  | forEach (name : Bytes) (items : List Word) (body : Script)
  /-- Runs the body as long as the condition succeeds, or with `expected` false fails. -/
  | loop (expected : Bool) (condition body : Script)
  | choose (condition yes no : Script)
  | nothing
deriving Repr

end Groundwork
