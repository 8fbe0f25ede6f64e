/-
**UTF-8.**

Documents and encoded queries arrive as bytes.  A well-formed sequence of one to four bytes is a
character; where the bytes are ill formed, the longest beginning of a character that stands there
(at least one byte) is one fault, and reading goes on behind it.

Main definitions:

* `WhereClause.Text.Utf8.encode` — the bytes of a text;
* `WhereClause.Text.Utf8.readFirst` — the first character of a byte sequence, or the fault there;
* `WhereClause.Text.Utf8.read` — the characters and faults of a byte sequence;
* `WhereClause.Text.Utf8.decode?` — the text of a sequence without fault;
* `WhereClause.Text.Utf8.decodeLossy` — the text with U+FFFD for every fault.
-/

set_option autoImplicit false

namespace WhereClause.Text.Utf8

/-- The bytes of a text. -/
def encode (s : List Char) : List UInt8 := s.flatMap String.utf8EncodeChar

/-- A byte that continues a character. -/
def isTail (b : UInt8) : Bool := 0x80 ≤ b && b ≤ 0xBF

/-- The six bits that a continuing byte adds to a character. -/
def addTail (n : Nat) (b : UInt8) : Nat := n * 64 + b.toNat % 64

/-- Whether `second` may follow `first` at the beginning of a character of three or four bytes:
overlong forms, surrogates and numbers above U+10FFFF are excluded by the second byte. -/
def fits (first second : UInt8) : Bool :=
  if first = 0xE0 then 0xA0 ≤ second && second ≤ 0xBF
  else if first = 0xED then 0x80 ≤ second && second ≤ 0x9F
  else if first = 0xF0 then 0x90 ≤ second && second ≤ 0xBF
  else if first = 0xF4 then 0x80 ≤ second && second ≤ 0x8F
  else isTail second

/-- Read `count` continuing bytes onto `n`: the character, or `none` at the first byte that does not
continue it, and the bytes that follow. -/
def readTails : Nat → Nat → List UInt8 → Option Char × List UInt8
  | 0, n, bytes => (some (Char.ofNat n), bytes)
  | _ + 1, _, [] => (none, [])
  | count + 1, n, b :: rest =>
      if isTail b then readTails count (addTail n b) rest else (none, b :: rest)

/-- The character that begins with `first`, or `none` where no character does, and the bytes that
follow what was read. -/
def readFirst (first : UInt8) (rest : List UInt8) : Option Char × List UInt8 :=
  if first < 0x80 then (some (Char.ofNat first.toNat), rest)
  else if 0xC2 ≤ first && first ≤ 0xDF then readTails 1 (first.toNat % 32) rest
  else if 0xE0 ≤ first && first ≤ 0xF4 then
    match rest with
    | [] => (none, [])
    | second :: rest' =>
        if fits first second then
          if first ≤ 0xEF then readTails 1 (addTail (first.toNat % 16) second) rest'
          else readTails 2 (addTail (first.toNat % 8) second) rest'
        else (none, rest)
  else (none, rest)

theorem readTails_length_le (count n : Nat) (bytes : List UInt8) :
    (readTails count n bytes).2.length ≤ bytes.length := by
  induction count generalizing n bytes with
  | zero => simp [readTails]
  | succ count ih =>
      cases bytes with
      | nil => simp [readTails]
      | cons b rest =>
          simp only [readTails]
          split
          · exact Nat.le_succ_of_le (ih _ _)
          · simp

/-- Reading the first character uses up at least its first byte. -/
theorem readFirst_length_le (first : UInt8) (rest : List UInt8) :
    (readFirst first rest).2.length ≤ rest.length := by
  unfold readFirst
  split
  · simp
  split
  · exact readTails_length_le _ _ _
  split
  · cases rest with
    | nil => simp
    | cons second rest' =>
        simp only
        split
        · split
          · exact Nat.le_succ_of_le (readTails_length_le _ _ _)
          · exact Nat.le_succ_of_le (readTails_length_le _ _ _)
        · simp
  · simp

/-- The characters of a byte sequence in order, with `none` for every fault. -/
def read : List UInt8 → List (Option Char)
  | [] => []
  | first :: rest =>
      (readFirst first rest).1 :: read (readFirst first rest).2
termination_by bytes => bytes.length
decreasing_by
  have := readFirst_length_le first rest
  simp only [List.length_cons]
  omega

/-- The text of a byte sequence that is well formed throughout. -/
def decode? (bytes : List UInt8) : Option (List Char) := (read bytes).mapM id

/-- The text of a byte sequence, with the replacement character for every fault. -/
def decodeLossy (bytes : List UInt8) : List Char :=
  (read bytes).map fun c => c.getD '\ufffd'

end WhereClause.Text.Utf8
