import Lookahead.Catalog
import Lookahead.Pattern.Compile
import Lookahead.Pattern.Renumber
import Lookahead.Pattern.Search

/-!
Lexicons. The patterns of a catalog are put together into a single one: each goes into a group of
its own, and the groups are alternatives in order of declaration, so of two patterns that match at
one place the one declared first wins. A group is closed after everything inside it, so the group
that was closed last in a match is the one around the pattern that matched, and tells the kind of
the token.

Every pattern is first checked on its own, and may not match the empty text. Since the groups of a
pattern have higher numbers in the combination, its references are renumbered.
-/

namespace Lookahead

/-- A lexicon: the combined pattern, the kinds that its outer groups stand for, and how many
characters are asked for when more input is needed. -/
structure Lexicon where
  catalog : Catalog
  patternText : String
  pattern : Pattern.Compiled
  kinds : List (Nat × String)
  chunkSize : Nat
  deriving Repr

inductive LexiconFault where
  | chunkSize
  | badPattern (name pattern : String) (fault : Pattern.Fault)
  | matchesEmpty (name pattern : String)
  | unnumbered (name pattern : String) (fault : Pattern.RenumberFault)
  | uncombined (pattern : String) (fault : Pattern.Fault)
  | outOfRange (fault : Pattern.Fault)
  deriving Repr, DecidableEq

/-- The pattern itself is at fault, and not a number in it that is out of all range, or a choice
of two alphabets for the whole of it. -/
def Pattern.Fault.isMalformed : Pattern.Fault → Bool
  | malformed _ _ | wideLookbehind | looseLookbehind | repeatInTemplate _ => true
  | repetitionTooLarge | codeTooLarge | tooManyDigits _ | unwritableNumber
  | mixedGlobalAlphabets => false

namespace LexiconFault

def message : LexiconFault → String
  | chunkSize => "chunk_size must be positive"
  | badPattern name pattern fault =>
    "Bad pattern for " ++ name ++ ": " ++ Text.quoted pattern ++ ": " ++ fault.message pattern
  | matchesEmpty name pattern =>
    "Pattern for " ++ name ++ " matches the empty string: " ++ Text.quoted pattern
  | unnumbered name pattern fault => fault.message name pattern
  | uncombined pattern fault => "Patterns do not combine: " ++ fault.message pattern
  | outOfRange fault => fault.message ""

def limit? : LexiconFault → Option Pattern.Fault
  | outOfRange fault => some fault
  | unnumbered _ _ fault => fault.limit?
  | chunkSize | badPattern _ _ _ | matchesEmpty _ _ | uncombined _ _ => none

end LexiconFault

namespace Lexicon

variable [Text.CharacterNames]

/-- What is put together: the alternatives with the kinds that their groups stand for, and the
number of the next group. -/
structure Assembly where
  branches : List String := []
  kinds : List (Nat × String) := []
  nextGroup : Nat := 1
  deriving Repr, DecidableEq, Inhabited

/-- Compiles a pattern; `whose` says how a fault of it is to be told. -/
def compilePattern (whose : Pattern.Fault → LexiconFault) (pattern : String) :
    Except LexiconFault Pattern.Compiled :=
  match Pattern.compile pattern with
  | .ok compiled => .ok compiled
  | .error fault => .error (if fault.isMalformed then whose fault else .outOfRange fault)

def Assembly.add (a : Assembly) (name pattern : String) : Except LexiconFault Assembly := do
  let compiled ← compilePattern (.badPattern name pattern) pattern
  if compiled.matchesEmpty then .error (.matchesEmpty name pattern)
  else
    let branch ←
      (Pattern.renumber pattern a.nextGroup).mapError (.unnumbered name pattern)
    pure {
      branches := a.branches ++ ["(" ++ branch ++ ")"]
      kinds := a.kinds ++ [(a.nextGroup, name)]
      nextGroup := a.nextGroup + 1 + compiled.groups }

def assemble (catalog : Catalog) : Except LexiconFault Assembly :=
  catalog.patterns.foldlM (fun a (name, pattern) => a.add name pattern) {}

/-- The text of the combined pattern. Without any pattern it is one that never matches. -/
def Assembly.text (a : Assembly) : String :=
  if a.branches = [] then "(?!)" else "|".intercalate a.branches

def defaultChunkSize : Int := 1024

def build (catalog : Catalog) (chunkSize : Int) : Except LexiconFault Lexicon :=
  if chunkSize ≤ 0 then .error .chunkSize
  else do
    let assembly ← assemble catalog
    let patternText := assembly.text
    let pattern ← compilePattern (.uncombined patternText) patternText
    pure {
      catalog, patternText, pattern
      kinds := assembly.kinds
      chunkSize := chunkSize.toNat }

end Lexicon

/-- A match in what has been read of the input: a stretch that is not empty, and its kind. -/
structure Match (buffer : List Char) where
  start : Nat
  stop : Nat
  kind : String
  start_lt_stop : start < stop
  stop_le_length : stop ≤ buffer.length
  deriving Repr

def Lexicon.search? (l : Lexicon) (buffer : List Char) : Option (Match buffer) :=
  match l.pattern.search? buffer.toArray with
  | none => none
  | some found =>
    match found.group.bind fun group => l.kinds.lookup group with
    | none => none
    | some kind =>
      some ⟨found.start, found.stop, kind, found.start_lt_stop, by
        simpa using found.stop_le_size⟩

end Lookahead
