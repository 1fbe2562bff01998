import Mathlib.Data.List.Basic
import Mathlib.Data.Nat.Notation

/-!
# Splitting strings at delimiters

One call of `strtok`, as a function from the rest of the string to a token and what is then
left of it; the set of delimiters may differ from call to call.
-/

set_option autoImplicit false

namespace SystemyOperacyjne.Library

variable {α : Type*}

/-- Skip the delimiters in front, take what comes up to the next delimiter, and leave what is
behind that one; `none` when nothing but delimiters is left. -/
def strtok (delim : α → Bool) (s : List α) : Option (List α × List α) :=
  match s.dropWhile delim with
  | [] => none
  | c :: t =>
    some ((c :: t).takeWhile fun x => !delim x, ((c :: t).dropWhile fun x => !delim x).tail)

/-- The string in memory that holds the characters `s`: it ends before the first `NUL`. -/
def cString (s : List Char) : List Char :=
  s.takeWhile fun c => c ≠ '\x00'

/-- The lines of a file as `getline` reads them, each with its line feed if it has one. -/
def getlines : List Char → List (List Char)
  | [] => []
  | c :: s =>
    if c = '\n' then [c] :: getlines s
    else
      match getlines s with
      | [] => [[c]]
      | line :: lines => (c :: line) :: lines

end SystemyOperacyjne.Library
