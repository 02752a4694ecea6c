import Scriptlet.Value.Basic

/-! # Chunks

A chunk holds byte code, the source line of each byte, and a pool of at most 256 constants. Bytes are
only ever appended, except that a word already written can be overwritten. An operation that fails
changes nothing.
-/

namespace Scriptlet

/-- What can go wrong with a chunk. -/
inductive ChunkError where
  | outOfBounds (offset size : Nat)
  | insufficientBytes (offset needed size : Nat)
  | invalidLine (line : Int) (offset : Nat)
  | invalidConstant (index size : Nat)
  | tooManyConstants (limit : Nat)
deriving DecidableEq, Repr

/-- The wording of an error. -/
def ChunkError.message : ChunkError → String
  | outOfBounds offset size => s!"Offset {offset} out of bounds (chunk size {size})"
  | insufficientBytes offset needed size =>
      s!"Need {needed} bytes at offset {offset}, chunk size is {size}"
  | invalidLine line offset => s!"Invalid line number {line} at offset {offset}"
  | invalidConstant index size => s!"Invalid constant index {index} (pool size {size})"
  | tooManyConstants limit => s!"Too many constants in one chunk (limit {limit})"

/-- The constants of a chunk, in the order in which they were added. -/
abbrev Pool := Array Value

namespace Pool

/-- As many constants as one byte can tell apart. -/
def limit : Nat := 256

/-- Adds a constant at the end: its index and the larger pool, unless the pool is full. -/
def add? (pool : Pool) (v : Value) : Option (Nat × Pool) :=
  if pool.size < limit then some (pool.size, pool.push v) else none

end Pool

/-- A container of byte code. -/
structure Chunk where
  code : Array UInt8
  lines : Array Int
  pool : Pool
deriving DecidableEq, Repr

namespace Chunk

/-- The chunk without code and constants. -/
def empty : Chunk :=
  { code := #[], lines := #[], pool := #[] }

/-- The number of code bytes. -/
def size (c : Chunk) : Nat :=
  c.code.size

/-- Appends a byte that belongs to a source line, which must not be negative. Gives the offset of the
byte. -/
def write (c : Chunk) (byte : UInt8) (line : Int) : Except ChunkError (Nat × Chunk) :=
  if line < 0 then .error (.invalidLine line c.size)
  else .ok (c.size, { c with code := c.code.push byte, lines := c.lines.push line })

/-- Appends a word, its low byte first. Gives the offset of the low byte. -/
def writeWord (c : Chunk) (word : UInt16) (line : Int) : Except ChunkError (Nat × Chunk) := do
  let (offset, c) ← c.write word.toUInt8 line
  let (_, c) ← c.write (word >>> 8).toUInt8 line
  return (offset, c)

/-- The byte at an offset. -/
def read (c : Chunk) (offset : Nat) : Except ChunkError UInt8 :=
  match c.code[offset]? with
  | some byte => .ok byte
  | none => .error (.outOfBounds offset c.size)

/-- The word at an offset. -/
def readWord (c : Chunk) (offset : Nat) : Except ChunkError UInt16 :=
  match c.code[offset]?, c.code[offset + 1]? with
  | some low, some high => .ok (high.toUInt16 <<< 8 ||| low.toUInt16)
  | _, _ => .error (.insufficientBytes offset 2 c.size)

/-- Overwrites the word at an offset. -/
def patchWord (c : Chunk) (offset : Nat) (word : UInt16) : Except ChunkError Chunk :=
  if offset + 2 ≤ c.size then
    .ok { c with
      code := (c.code.setIfInBounds offset word.toUInt8).setIfInBounds (offset + 1)
        (word >>> 8).toUInt8 }
  else .error (.insufficientBytes offset 2 c.size)

/-- The source line of the byte at an offset. -/
def lineAt (c : Chunk) (offset : Nat) : Except ChunkError Int :=
  match c.lines[offset]? with
  | some line => .ok line
  | none => .error (.outOfBounds offset c.size)

/-- Adds a constant and gives its index. -/
def addConstant (c : Chunk) (v : Value) : Except ChunkError (Nat × Chunk) :=
  match c.pool.add? v with
  | some (index, pool) => .ok (index, { c with pool })
  | none => .error (.tooManyConstants Pool.limit)

/-- The constant with an index. -/
def readConstant (c : Chunk) (index : Nat) : Except ChunkError Value :=
  match c.pool[index]? with
  | some v => .ok v
  | none => .error (.invalidConstant index c.pool.size)

end Chunk

end Scriptlet
