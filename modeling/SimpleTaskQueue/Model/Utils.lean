import SimpleTaskQueue.Core.Regex
import SimpleTaskQueue.Model.Proc.Task
/-!
# SimpleTaskQueue.Model.Utils

`verifyIP` (`model/utils.cpp`).
-/

namespace SimpleTaskQueue

/-- A character. -/
def symbol (c : Char) : Regex Char := .sym (· == c)

/-- A character class `[lo-hi]`. -/
def range (lo hi : Char) : Regex Char := .sym fun c => lo ≤ c && c ≤ hi

/-- `25[0-5]|2[0-4][0-9]|[01]?[0-9][0-9]?`. -/
def octetRegex : Regex Char :=
  .alt (.seq (symbol '2') (.seq (symbol '5') (range '0' '5')))
    (.alt (.seq (symbol '2') (.seq (range '0' '4') (range '0' '9')))
      (.seq (.opt (range '0' '1')) (.seq (range '0' '9') (.opt (range '0' '9')))))

/-- `ipRegex`: three octets, each with a dot behind it, and one more. -/
def ipRegex : Regex Char :=
  .seq .bol (.seq (.rep 3 (.seq octetRegex (symbol '.'))) (.seq octetRegex .eol))

/-- `Utils::verifyIP`: 0 or 1. -/
def verifyIP (in_ : Str) : Nat := if !ipRegex.matchesAll in_ then 1 else 0

end SimpleTaskQueue
