import Lookahead.Definition
import Lookahead.Document.Reader
import Lookahead.Text.Utf8

/-!
Files, and definitions kept in them. A folder is given by the files in it; opening what is not
there is a fault, and so is opening the folder itself.

A file that holds a definition is UTF-8 text. A carriage return, alone or before a line feed,
counts as a line feed there, so the places in messages do not depend on the way in which lines
end.
-/

namespace Lookahead

abbrev Folder := List (String × ByteArray)

inductive OpenFault where
  | missing (path : String)
  | isFolder (path : String)
  | notAFolder (path : String)
  | nameTooLong (path : String)
  | unnameable
  deriving Repr, DecidableEq

namespace OpenFault

/-- A fault of the operating system: its number, what it says and the path. -/
def systemMessage (number : Nat) (what path : String) : String :=
  "[Errno " ++ toString number ++ "] " ++ what ++ ": " ++ Text.quoted path

def message : OpenFault → String
  | missing path => systemMessage 2 "No such file or directory" path
  | isFolder path => systemMessage 21 "Is a directory" path
  | notAFolder path => systemMessage 20 "Not a directory" path
  | nameTooLong path => systemMessage 36 "File name too long" path
  | unnameable => "embedded null byte"

end OpenFault

namespace Folder

/-- A name of a file has at most this many bytes. -/
def nameLimit : Nat := 255

def isHere (part : String) : Bool := part == "" || part == "."

def faultAt (files : Folder) (path : String) : OpenFault :=
  let parts := path.splitOn "/"
  if path = "" then .missing path
  else if path.contains (Char.ofNat 0) then .unnameable
  else if parts.any (nameLimit < ·.utf8ByteSize) then .nameTooLong path
  else
    match parts.filter (!isHere ·) with
    | [] | [".."] => .isFolder path
    | name :: _ => if (files.lookup name).isSome then .notAFolder path else .missing path

/-- The bytes of the file that a path leads to. The path may say that it starts in the folder. -/
def open? (files : Folder) (path : String) : Except OpenFault ByteArray :=
  let name := if path.startsWith "./" then String.ofList (path.toList.drop 2) else path
  match files.lookup name with
  | some bytes => .ok bytes
  | none => .error (faultAt files path)

end Folder

/-- The text with every line break as a single line feed. -/
def joinLineBreaks : List Char → List Char
  | [] => []
  | '\r' :: '\n' :: rest => '\n' :: joinLineBreaks rest
  | '\r' :: rest => '\n' :: joinLineBreaks rest
  | c :: rest => c :: joinLineBreaks rest

inductive LoadFault where
  | unopened (fault : OpenFault)
  | undecodable (fault : Text.Utf8Fault)
  | unreadable (path : String) (fault : Document.Fault)
  | definition (fault : DefinitionFault)
  deriving Repr, DecidableEq

namespace LoadFault

def message : LoadFault → String
  | unopened fault => fault.message
  | undecodable fault => fault.message
  | unreadable path fault =>
    match fault with
    | .malformed _ _ _ _ => path ++ ": " ++ fault.message
    | .tooManyDigits _ | .halfPair => fault.message
  | definition fault => fault.message

end LoadFault

namespace Definition

def ofBytes (path : String) (bytes : ByteArray) : Except LoadFault Definition := do
  let text ← (Text.decodeUtf8 bytes).mapError .undecodable
  let text := String.ofList (joinLineBreaks text.toList)
  let document ← (Document.read text).mapError (.unreadable path)
  (ofDocument document).mapError .definition

def load (files : Folder) (path : String) : Except LoadFault Definition := do
  let bytes ← (files.open? path).mapError .unopened
  ofBytes path bytes

end Definition

end Lookahead
