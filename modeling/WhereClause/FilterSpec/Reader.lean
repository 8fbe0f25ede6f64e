/-
**Reading filter documents.**

A document is an object, of which any member may be absent and unknown members are passed over, or
an array of the same parts in their order, which may end early.  A document of blanks is the
default.

Main definitions:

* `WhereClause.FilterSpec.Part` — the parts of a document;
* `WhereClause.FilterSpec.readObjectForm`, `WhereClause.FilterSpec.readArrayForm` — the two forms;
* `WhereClause.FilterSpec.decode` — a document from its bytes.
-/

import WhereClause.FilterSpec.Basic
import WhereClause.Json.Reader

set_option autoImplicit false

namespace WhereClause.FilterSpec

open Json

/-- A part of a filter document. -/
inductive Part where
  | fields
  | orders
  | limit
  | offset
  | vars
deriving DecidableEq, Repr

namespace Part

/-- Every part, in the order of the array form. -/
def all : List Part := [fields, orders, limit, offset, vars]

/-- The name of a part in the object form. -/
def name : Part → String
  | fields => "fields"
  | orders => "orders"
  | limit => "limit"
  | offset => "offset"
  | vars => "vars"

/-- The part with a given name. -/
def ofName? (s : String) : Option Part := all.find? fun part => part.name == s

/-- Read a part into a document. -/
def read (part : Part) (spec : FilterSpec) (bytes : List UInt8) :
    Except Fault (FilterSpec × List UInt8) :=
  match part with
  | fields => do
      let (value, rest) ← readTexts bytes
      pure ({ spec with fields := value }, rest)
  | orders => do
      let (value, rest) ← readTexts bytes
      pure ({ spec with orders := value }, rest)
  | limit => do
      let (value, rest) ← readInt64 bytes
      pure ({ spec with limit := value }, rest)
  | offset => do
      let (value, rest) ← readInt64 bytes
      pure ({ spec with offset := value }, rest)
  | vars => do
      let (value, rest) ← readObject (deepest - 1) bytes
      pure ({ spec with vars := value }, rest)

end Part

/-! ### The object form -/

/-- A member of the object form behind its name, with the document and the parts that have been
read.  A part may not come twice. -/
def readMember (state : FilterSpec × List Part) (name : String) (bytes : List UInt8) :
    Except Fault ((FilterSpec × List Part) × List UInt8) :=
  match Part.ofName? name with
  | none => do
      let rest ← readColon bytes
      let rest ← skipValue rest
      pure (state, rest)
  | some part =>
      if state.2.contains part then .error .unexpected
      else do
        let rest ← readColon bytes
        let (spec, rest) ← part.read state.1 rest
        pure ((spec, part :: state.2), rest)

/-- The object form behind its opening brace. -/
def readObjectForm (bytes : List UInt8) : Except Fault (FilterSpec × List UInt8) := do
  let ((spec, _), rest) ← foldMembers readString readMember (bytes.length + 1) true ({}, []) bytes
  pure (spec, rest)

/-! ### The array form -/

/-- The end of an array of which no further item is asked for. -/
def readArrayEnd (bytes : List UInt8) : Except Fault (List UInt8) :=
  match skipSpace bytes with
  | [] => .error .truncated
  | b :: rest => if b = byte ']' then .ok rest else .error .malformed

/-- The parts of the array form that are left, behind its opening bracket, or behind a part if
`first` is false. -/
def readParts : List Part → Bool → FilterSpec → List UInt8 →
    Except Fault (FilterSpec × List UInt8)
  | [], _, spec, bytes => do
      let rest ← readArrayEnd bytes
      pure (spec, rest)
  | part :: parts, first, spec, bytes =>
      let item := fun (bytes : List UInt8) =>
        match part.read spec bytes with
        | .error fault => .error fault
        | .ok (spec, rest) => readParts parts false spec rest
      match skipSpace bytes with
      | [] => .error .truncated
      | b :: rest =>
          if b = byte ']' then .ok (spec, rest)
          else if first then item (b :: rest)
          else if b = byte ',' then
            match skipSpace rest with
            | [] => .error .truncated
            | c :: rest' => if c = byte ']' then .error .malformed else item (c :: rest')
          else .error .malformed

/-- The array form behind its opening bracket. -/
def readArrayForm (bytes : List UInt8) : Except Fault (FilterSpec × List UInt8) :=
  readParts Part.all true {} bytes

/-! ### Documents -/

/-- A document at the beginning of some bytes. -/
def readSpec (bytes : List UInt8) : Except Fault (FilterSpec × List UInt8) :=
  match skipSpace bytes with
  | [] => .error .truncated
  | b :: rest =>
      if b = byte '\x7b' then readObjectForm rest
      else if b = byte '[' then readArrayForm rest
      else .error (mismatch b rest)

/-- A blank that a document may consist of; a form feed is one as well. -/
def isDocumentBlank (b : UInt8) : Bool := isSpace b || b == 0x0C

/-- A document from its bytes.  Only blanks may follow it. -/
def decode (bytes : List UInt8) : Except Fault FilterSpec :=
  if bytes.all isDocumentBlank then .ok {}
  else
    match readSpec bytes with
    | .error fault => .error fault
    | .ok (spec, rest) => if (skipSpace rest).isEmpty then .ok spec else .error .malformed

end WhereClause.FilterSpec
