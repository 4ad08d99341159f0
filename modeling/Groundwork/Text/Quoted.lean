import Groundwork.Text.Glyph
import Groundwork.Text.Utf8

/-!
# Byte strings in messages

A byte string is quoted so that a reader sees every byte of it: characters that show as themselves are
kept, a few have an escape of their own, other characters are written by code point and bytes that
belong to no character in hexadecimal. No quoted text contains a NUL, and different byte strings are
quoted differently.
-/

namespace Groundwork

namespace Quoted

def hexDigit (letters : Nat) (d : Nat) : Char := Char.ofNat (if d < 10 then 48 + d else letters + d - 10)

/-- The hexadecimal digits of a number in small letters, without leading zeros. -/
def hex (n : Nat) : List Char :=
  if n < 16 then [hexDigit 97 n] else hex (n / 16) ++ [hexDigit 97 (n % 16)]

/-- A character by its code point. -/
def byCodePoint (c : Char) : List Char :=
  ['\\', 'u', '\x7b'] ++ hex c.toNat ++ ['\x7d']

/-- A character as it is quoted, where `shown` tells which characters show as themselves. -/
def char (shown : Char → Bool) (c : Char) : List Char :=
  if c = Char.ofNat 0 then ['\\', '0']
  else if c = '\t' then ['\\', 't']
  else if c = '\n' then ['\\', 'n']
  else if c = '\r' then ['\\', 'r']
  else if c = '"' then ['\\', '"']
  else if c = '\\' then ['\\', '\\']
  else if shown c then [c]
  else byCodePoint c

/-- A byte that belongs to no character. -/
def byte (b : UInt8) : List Char :=
  ['\\', 'x', hexDigit 65 (b.toNat / 16), hexDigit 65 (b.toNat % 16)]

/-- The characters of a byte string as they are quoted. -/
def body (shown : Char → Bool) (s : Bytes) : List Char :=
  match h : Utf8.next? s with
  | some (c, rest) =>
    have : rest.length < s.length := Utf8.length_next? h
    char shown c ++ body shown rest
  | none =>
    match s with
    | [] => []
    | b :: s => byte b ++ body shown s
termination_by s.length

/-- The byte string between quotation marks, where `shown` tells which characters show as themselves. -/
def text (shown : Char → Bool) (s : Bytes) : String := String.ofList ('"' :: body shown s ++ ['"'])

end Quoted

end Groundwork
