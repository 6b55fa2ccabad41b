import Lookahead.Lexicon.Basic
import Lookahead.Tree

/-!
Turning input into tokens. The input comes in chunks, and what has been read and is not yet part
of a token is the buffer. A match that ends before the end of the buffer is a token at once. One
that runs up to the end may be cut short, so more is read until it no longer does or the input has
ended; and so is more when there is no match at all. What lies before a match is a single
unmatched token, and so is what is left when the input has ended.

An empty chunk is the end of the input: nothing is read after it. The last token is always the one
for the end, without text, so tokenizing never fails.
-/

namespace Lookahead

/-- What is still to be read: chunks, or nothing because the end has been seen. -/
inductive Input where
  | chunks (chunks : List (List Char))
  | ended
  deriving Repr, DecidableEq, Inhabited

def Input.pending : Input → Nat
  | chunks cs => cs.flatten.length
  | ended => 0

/-- A buffer in which it is decided what comes next, how often the input was read for that, and
what is still to be read. -/
structure Window where
  buffer : List Char
  found : Option (Match buffer)
  reads : Nat
  input : Input

namespace Lexicon

/-- A match that more input cannot change: it ends before the end of the buffer. -/
def isSettled {buffer : List Char} (found : Option (Match buffer)) : Bool :=
  found.any fun m => m.stop != buffer.length

/-- Reads chunks until it is decided what comes next. -/
def awaitChunks (l : Lexicon) (buffer : List Char) (reads : Nat) : List (List Char) → Window
  | [] =>
    let found := l.search? buffer
    if isSettled found then ⟨buffer, found, reads, .chunks []⟩
    else ⟨buffer, found, reads + 1, .ended⟩
  | chunk :: rest =>
    let found := l.search? buffer
    if isSettled found then ⟨buffer, found, reads, .chunks (chunk :: rest)⟩
    else if chunk = [] then ⟨buffer, found, reads + 1, .ended⟩
    else awaitChunks l (buffer ++ chunk) (reads + 1) rest

def await (l : Lexicon) (buffer : List Char) : Input → Window
  | .chunks cs => awaitChunks l buffer 0 cs
  | .ended => ⟨buffer, l.search? buffer, 0, .ended⟩

theorem awaitChunks_pending (l : Lexicon) (buffer : List Char) (reads : Nat)
    (cs : List (List Char)) :
    (awaitChunks l buffer reads cs).buffer.length + (awaitChunks l buffer reads cs).input.pending ≤
      buffer.length + cs.flatten.length := by
  induction cs generalizing buffer reads with
  | nil => unfold awaitChunks; dsimp only; split <;> simp [Input.pending]
  | cons chunk rest ih =>
    unfold awaitChunks
    dsimp only
    split
    · simp [Input.pending]
    · split
      · simp [Input.pending]
      · have := ih (buffer ++ chunk) (reads + 1)
        simp only [List.length_append, List.flatten_cons] at this ⊢
        omega

theorem await_pending (l : Lexicon) (buffer : List Char) (input : Input) :
    (await l buffer input).buffer.length + (await l buffer input).input.pending ≤
      buffer.length + input.pending := by
  cases input with
  | chunks cs => exact awaitChunks_pending l buffer 0 cs
  | ended => exact Nat.le_refl _

/-- The token over a stretch of text at the cursor. -/
def tokenAt (cursor : Cursor) (kind : String) (text : List Char) : Token where
  kind
  start := cursor.position
  stop := (cursor.advance text).position
  text := String.ofList text

def unmatchedAt (l : Lexicon) (cursor : Cursor) (text : List Char) : List Token :=
  if text = [] then [] else [tokenAt cursor l.catalog.unmatched text]

structure Scanned where
  tokens : List Token
  reads : Nat
  deriving Repr, DecidableEq, Inhabited

def scan (l : Lexicon) (cursor : Cursor) (buffer : List Char) (input : Input) : Scanned :=
  let w := l.await buffer input
  match w.found with
  | none =>
    let last := cursor.advance w.buffer
    ⟨l.unmatchedAt cursor w.buffer ++ [tokenAt last l.catalog.epsilon []], w.reads⟩
  | some m =>
    -- the buffer is what was skipped, the text of the match, and what stays in the buffer
    let skipped := w.buffer.take m.start
    let text := (w.buffer.take m.stop).drop m.start
    let atMatch := cursor.advance skipped
    let rest := scan l (atMatch.advance text) (w.buffer.drop m.stop) w.input
    ⟨l.unmatchedAt cursor skipped ++ tokenAt atMatch m.kind text :: rest.tokens,
      w.reads + rest.reads⟩
termination_by buffer.length + input.pending
decreasing_by
  have h₁ := l.await_pending buffer input
  have h₂ := m.start_lt_stop
  have h₃ : m.stop ≤ (l.await buffer input).buffer.length := m.stop_le_length
  simp only [List.length_drop]
  omega

def scanChunks (l : Lexicon) (chunks : List (List Char)) : Scanned :=
  l.scan {} [] (.chunks chunks)

/-! ### Text as a source -/

/-- A text, cut into chunks of the given size; the last one may be shorter. -/
def cutEvery (size : Nat) (text : List Char) : List (List Char) :=
  if _h : size = 0 ∨ text = [] then []
  else text.take size :: cutEvery size (text.drop size)
termination_by text.length
decreasing_by
  have : text.length ≠ 0 := by
    intro h'
    exact _h (.inr (List.eq_nil_of_length_eq_zero h'))
  simp only [List.length_drop]
  omega

theorem flatten_cutEvery {size : Nat} (positive : 0 < size) (text : List Char) :
    (cutEvery size text).flatten = text := by
  fun_induction cutEvery size text with
  | case1 text h => rcases h with h | h <;> simp_all
  | case2 text h ih => simp [ih]

/-- A text cannot be asked for this many characters at a time, or more. -/
def readLimit : Nat := 9223372036854775808

/-- More characters are asked for at a time than a text can be asked for. -/
structure ReadFault where
  size : Nat
  deriving Repr, DecidableEq

def ReadFault.message (_ : ReadFault) : String :=
  "cannot fit 'int' into an index-sized integer"

def chunksOf (l : Lexicon) (text : String) : Except ReadFault (List (List Char)) :=
  if readLimit ≤ l.chunkSize then .error ⟨l.chunkSize⟩
  else .ok (cutEvery l.chunkSize text.toList)

def tokensOf (l : Lexicon) (text : String) : Except ReadFault (List Token) :=
  (l.chunksOf text).map fun chunks => (l.scanChunks chunks).tokens

end Lexicon

end Lookahead
