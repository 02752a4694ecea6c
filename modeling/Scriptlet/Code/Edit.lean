import Scriptlet.Code.Chunk

/-! # Editing chunks in place

A chunk that is being built is changed by one call after the other. A call that fails leaves the chunk
as it is at that moment, so whether a failed call has an effect depends on the order of its checks and
its changes: every check comes first.
-/

namespace Scriptlet

/-- A step that changes a chunk in place. What it has done before it fails stays done. -/
abbrev InPlace := EStateM ChunkError Chunk

namespace InPlace

/-- Appends a byte that belongs to a source line, which must not be negative. Gives the offset of the
byte. -/
def write (byte : UInt8) (line : Int) : InPlace Nat := do
  let offset := (← get).size
  -- nothing is changed before the line is known to be valid
  if line < 0 then throw (.invalidLine line offset)
  modify fun c => { c with code := c.code.push byte }
  modify fun c => { c with lines := c.lines.push line }
  return offset

/-- Appends a word, its low byte first. Gives the offset of the low byte. -/
def writeWord (word : UInt16) (line : Int) : InPlace Nat := do
  let offset ← write word.toUInt8 line
  let _ ← write (word >>> 8).toUInt8 line
  return offset

/-- Overwrites the word at an offset, its low byte first. -/
def patchWord (offset : Nat) (word : UInt16) : InPlace Unit := do
  let size := (← get).size
  -- both bytes have to be there before one of them is overwritten
  if size < offset + 2 then throw (.insufficientBytes offset 2 size)
  modify fun c => { c with code := c.code.setIfInBounds offset word.toUInt8 }
  modify fun c => { c with code := c.code.setIfInBounds (offset + 1) (word >>> 8).toUInt8 }

/-- Adds a constant and gives its index. -/
def addConstant (v : Value) : InPlace Nat := do
  let index := (← get).pool.size
  if Pool.limit ≤ index then throw (.tooManyConstants Pool.limit)
  modify fun c => { c with pool := c.pool.push v }
  return index

end InPlace

/-- A call that changes a chunk. -/
inductive Edit where
  | write (byte : UInt8) (line : Int)
  | writeWord (word : UInt16) (line : Int)
  | patchWord (offset : Nat) (word : UInt16)
  | addConstant (v : Value)
deriving DecidableEq, Repr

/-- Carries a call out. Gives the offset or the index of what was added, if something was. -/
def Edit.perform : Edit → InPlace (Option Nat)
  | write byte line => return some (← InPlace.write byte line)
  | writeWord word line => return some (← InPlace.writeWord word line)
  | patchWord offset word => do
      InPlace.patchWord offset word
      return none
  | addConstant v => return some (← InPlace.addConstant v)

namespace Chunk

/-- The chunk after a call, whether the call succeeds or fails. -/
def edit (c : Chunk) (e : Edit) : Chunk :=
  match e.perform c with
  | .ok _ c => c
  | .error _ c => c

/-- The chunk after some calls. -/
def edits (c : Chunk) (es : List Edit) : Chunk :=
  es.foldl edit c

end Chunk

end Scriptlet
