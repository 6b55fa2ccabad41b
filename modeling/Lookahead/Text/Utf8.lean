/-!
Reading UTF-8. A file is a list of bytes; its text is what they encode, and a fault says which
bytes encode nothing and why. The shortest stretch that cannot be the start of a character is at
fault: a byte that starts none, or a start together with those of its continuations that are in
order.
-/

namespace Lookahead.Text

inductive Utf8Cause where
  | start
  | continuation
  | unfinished
  deriving Repr, DecidableEq

/-- Bytes that encode nothing: where they are, how many they are, and the first of them. -/
structure Utf8Fault where
  cause : Utf8Cause
  offset : Nat
  count : Nat
  byte : Nat
  deriving Repr, DecidableEq

namespace Utf8

/-- What a first byte announces: the number of continuations, the bits that it holds itself, and
the range of the first continuation. -/
def announced? (byte : Nat) : Option (Nat × Nat × Nat × Nat) :=
  if 0xC2 ≤ byte ∧ byte ≤ 0xDF then some (1, byte - 0xC0, 0x80, 0xBF)
  else if byte = 0xE0 then some (2, 0x0, 0xA0, 0xBF)
  else if byte = 0xED then some (2, 0xD, 0x80, 0x9F)
  else if 0xE1 ≤ byte ∧ byte ≤ 0xEF then some (2, byte - 0xE0, 0x80, 0xBF)
  else if byte = 0xF0 then some (3, 0x0, 0x90, 0xBF)
  else if byte = 0xF4 then some (3, 0x4, 0x80, 0x8F)
  else if 0xF1 ≤ byte ∧ byte ≤ 0xF3 then some (3, byte - 0xF0, 0x80, 0xBF)
  else none

/-- Reads continuations, the first of them in the given range. On a fault, the number of those
that were in order. -/
def continuations : Nat → Nat → Nat → Nat → Nat → List Nat →
    Except (Utf8Cause × Nat) (Nat × List Nat)
  | 0, code, _, _, _, rest => .ok (code, rest)
  | _ + 1, _, _, _, done, [] => .error (.unfinished, done)
  | n + 1, code, lo, hi, done, byte :: rest =>
    if lo ≤ byte ∧ byte ≤ hi then
      continuations n (code * 64 + (byte - 0x80)) 0x80 0xBF (done + 1) rest
    else .error (.continuation, done)

theorem length_of_continuations {n code lo hi done : Nat} {bytes : List Nat}
    {result : Nat × List Nat} (h : continuations n code lo hi done bytes = .ok result) :
    result.2.length ≤ bytes.length := by
  induction n generalizing code lo hi done bytes with
  | zero => simp only [continuations, Except.ok.injEq] at h; subst h; exact Nat.le_refl _
  | succ n ih =>
    cases bytes with
    | nil => simp [continuations] at h
    | cons byte rest =>
      unfold continuations at h
      split at h
      · have := ih h; simp only [List.length_cons]; omega
      · cases h

def character (offset byte : Nat) (rest : List Nat) : Except Utf8Fault (Char × List Nat) :=
  if byte < 0x80 then .ok (Char.ofNat byte, rest)
  else
    match announced? byte with
    | none => .error ⟨.start, offset, 1, byte⟩
    | some (count, bits, lo, hi) =>
      match continuations count bits lo hi 0 rest with
      | .ok (code, rest) => .ok (Char.ofNat code, rest)
      | .error (cause, done) => .error ⟨cause, offset, done + 1, byte⟩

theorem length_of_character {offset byte : Nat} {rest : List Nat} {result : Char × List Nat}
    (h : character offset byte rest = .ok result) : result.2.length ≤ rest.length := by
  unfold character at h
  split at h
  · cases h; exact Nat.le_refl _
  · split at h
    · cases h
    · split at h
      · rename_i hc
        cases h
        exact length_of_continuations hc
      · cases h

/-- The characters of the bytes from the given offset on. -/
def decodeFrom (offset : Nat) (bytes : List Nat) : Except Utf8Fault (List Char) :=
  match bytes with
  | [] => .ok []
  | byte :: rest =>
    match _h : character offset byte rest with
    | .error fault => .error fault
    | .ok (c, left) =>
      match decodeFrom (offset + (rest.length + 1 - left.length)) left with
      | .error fault => .error fault
      | .ok cs => .ok (c :: cs)
termination_by bytes.length
decreasing_by
  have := length_of_character _h
  simp only [List.length_cons] at this ⊢
  omega

end Utf8

def decodeUtf8 (bytes : ByteArray) : Except Utf8Fault String :=
  (Utf8.decodeFrom 0 (bytes.toList.map UInt8.toNat)).map String.ofList

namespace Utf8Fault

def reason : Utf8Cause → String
  | .start => "invalid start byte"
  | .continuation => "invalid continuation byte"
  | .unfinished => "unexpected end of data"

def hexByte (byte : Nat) : String :=
  let digits := Nat.toDigits 16 byte
  String.ofList (if digits.length < 2 then '0' :: digits else digits)

def message (f : Utf8Fault) : String :=
  "'utf-8' codec can't decode " ++
    (if f.count = 1 then "byte 0x" ++ hexByte f.byte ++ " in position " ++ toString f.offset
    else "bytes in position " ++ toString f.offset ++ "-" ++ toString (f.offset + f.count - 1)) ++
    ": " ++ reason f.cause

end Utf8Fault

end Lookahead.Text
