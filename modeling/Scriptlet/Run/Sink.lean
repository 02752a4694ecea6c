/-! # Sinks

Where printed text goes: a sequence of bytes that may have a limit. A sink takes as many bytes of a
text as still fit, and says whether that was all of them.
-/

namespace Scriptlet

/-- The bytes written so far, and how many there may be. -/
structure Sink where
  bytes : ByteArray
  limit : Option Nat

namespace Sink

/-- The empty sink without a limit. -/
def unlimited : Sink :=
  { bytes := .empty, limit := none }

/-- The empty sink that takes `limit` bytes. -/
def limited (limit : Nat) : Sink :=
  { bytes := .empty, limit := some limit }

/-- Writes as much of a text as fits; was it all of the text? -/
def write : Sink → ByteArray → Bool × Sink
  | { bytes, limit := none }, text => (true, { bytes := bytes ++ text, limit := none })
  | { bytes, limit := some limit }, text =>
      let room := limit - bytes.size
      if text.size ≤ room then
        (true, { bytes := bytes ++ text, limit := some limit })
      else
        -- the cut may be within a character
        (false, { bytes := bytes ++ text.extract 0 room, limit := some limit })

end Sink

end Scriptlet
