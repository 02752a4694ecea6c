import Scriptlet.Code.Edit
import Scriptlet.Proofs.Encoding
import Scriptlet.Proofs.Sequencing

/-! # Chunks under editing

What a chunk is after any calls, in any order, of which some may have failed. A call is carried out
check by check and change by change, on the chunk itself, and this is where a failed call might leave
something behind: a word is written byte by byte, and each of the two writes may be refused. In fact a
call is either refused and changes nothing (`Edit.perform_of_refusal?`), or makes all of its changes
(`Edit.perform_of_accepted`), and everything else is said about these changes.

Bytes are overwritten by patches and by nothing else, and lines and constants are never overwritten. So
what has been written is read back for as long as no patch that succeeds covers it
(`Chunk.Overwritten`).

## Main statement

* `edited_chunks_wellKept`: every chunk that is made by calls is sound, and keeps what is written to it.
-/

namespace Scriptlet

/-! ## Refusals and changes -/

namespace Chunk

/-- The outcome of an operation for a chunk that is changed in place. -/
def settle {α : Type} (c : Chunk) :
    Except ChunkError (α × Chunk) → EStateM.Result ChunkError Chunk α
  | .ok (a, c') => .ok a c'
  | .error e => .error e c

end Chunk

namespace InPlace

theorem get_bind {α : Type} (f : Chunk → InPlace α) (c : Chunk) : (get >>= f) c = f c c :=
  rfl

/-- Writing a byte in place is writing it, and leaves the chunk alone if that fails. -/
theorem write_eq (byte : UInt8) (line : Int) (c : Chunk) :
    write byte line c = c.settle (c.write byte line) := by
  unfold Chunk.write
  by_cases h : line < 0
  · simp only [write, if_pos h]
    rfl
  · simp only [write, if_neg h]
    rfl

/-- The second byte of a word is refused only if the first one has been: their line is the same. -/
theorem writeWord_eq (word : UInt16) (line : Int) (c : Chunk) :
    writeWord word line c = c.settle (c.writeWord word line) := by
  unfold writeWord Chunk.writeWord
  by_cases h : line < 0
  · simp only [bind, EStateM.bind, Except.bind, write_eq, Chunk.write, if_pos h, Chunk.settle]
  · simp only [bind, EStateM.bind, Except.bind, write_eq, Chunk.write, if_neg h, Chunk.settle]
    rfl

/-- Overwriting a word in place is overwriting it, and leaves the chunk alone if that fails. -/
theorem patchWord_eq (offset : Nat) (word : UInt16) (c : Chunk) :
    patchWord offset word c = c.settle ((c.patchWord offset word).map fun c' => ((), c')) := by
  unfold Chunk.patchWord
  by_cases h : offset + 2 ≤ c.size
  · have hroom : ¬ c.size < offset + 2 := Nat.not_lt.mpr h
    rw [if_pos h]
    simp only [patchWord, get_bind, if_neg hroom]
    rfl
  · have hroom : c.size < offset + 2 := Nat.not_le.mp h
    rw [if_neg h]
    simp only [patchWord, get_bind, if_pos hroom]
    rfl

/-- Adding a constant in place is adding it, and leaves the chunk alone if that fails. -/
theorem addConstant_eq (v : Value) (c : Chunk) :
    addConstant v c = c.settle (c.addConstant v) := by
  unfold Chunk.addConstant Pool.add?
  by_cases h : c.pool.size < Pool.limit
  · have hroom : ¬ Pool.limit ≤ c.pool.size := Nat.not_le.mpr h
    rw [if_pos h]
    simp only [addConstant, get_bind, if_neg hroom]
    rfl
  · have hroom : Pool.limit ≤ c.pool.size := Nat.not_lt.mp h
    rw [if_neg h]
    simp only [addConstant, get_bind, if_pos hroom]
    rfl

end InPlace

namespace Edit

/-- Why a call is refused, if it is. -/
def refusal? (c : Chunk) : Edit → Option ChunkError
  | write _ line | writeWord _ line => if line < 0 then some (.invalidLine line c.size) else none
  | patchWord offset _ =>
      if offset + 2 ≤ c.size then none else some (.insufficientBytes offset 2 c.size)
  | addConstant _ => if c.pool.size < 256 then none else some (.tooManyConstants 256)

/-- Where a call puts what it adds, if it adds something. -/
def place? (c : Chunk) : Edit → Option Nat
  | write _ _ => some c.size
  | writeWord _ _ => some c.size
  | patchWord _ _ => none
  | addConstant _ => some c.pool.size

/-- What a call makes of a chunk that does not refuse it. -/
def change (c : Chunk) : Edit → Chunk
  | write byte line => { c with code := c.code.push byte, lines := c.lines.push line }
  | writeWord word line =>
      { c with
        code := (c.code.push word.toUInt8).push (word >>> 8).toUInt8
        lines := (c.lines.push line).push line }
  | patchWord offset word =>
      { c with
        code := (c.code.setIfInBounds offset word.toUInt8).setIfInBounds (offset + 1)
          (word >>> 8).toUInt8 }
  | addConstant v => { c with pool := c.pool.push v }

variable {e : Edit} {c c' : Chunk} {error : ChunkError} {place : Option Nat}

/-- A byte is accepted on a line that is not negative. -/
theorem write_accepted_iff {byte : UInt8} {line : Int} :
    (write byte line).refusal? c = none ↔ 0 ≤ line := by
  simp [refusal?]

/-- A word is accepted on a line that is not negative. -/
theorem writeWord_accepted_iff {word : UInt16} {line : Int} :
    (writeWord word line).refusal? c = none ↔ 0 ≤ line := by
  simp [refusal?]

/-- A word is overwritten where there are two bytes. -/
theorem patchWord_accepted_iff {offset : Nat} {word : UInt16} :
    (patchWord offset word).refusal? c = none ↔ offset + 2 ≤ c.code.size := by
  rw [refusal?, ite_eq_left_iff]
  simp [Chunk.size]

/-- A constant is accepted as long as there are fewer than 256. -/
theorem addConstant_accepted_iff {v : Value} :
    (addConstant v).refusal? c = none ↔ c.pool.size < 256 := by
  simp [refusal?]

/-- A call that is refused leaves the chunk as it was. -/
theorem perform_of_refusal? (h : e.refusal? c = some error) : e.perform c = .error error c := by
  -- each call is refused by its first test, before anything is changed
  cases e with
  | write byte line =>
    rw [refusal?, Option.ite_none_right_eq_some] at h
    obtain ⟨hline, ⟨⟩⟩ := h
    apply EStateM.bind_of_error
    rw [InPlace.write_eq, Chunk.write, if_pos hline]
    rfl
  | writeWord word line =>
    rw [refusal?, Option.ite_none_right_eq_some] at h
    obtain ⟨hline, ⟨⟩⟩ := h
    apply EStateM.bind_of_error
    rw [InPlace.writeWord_eq, Chunk.writeWord, Chunk.write, if_pos hline]
    rfl
  | patchWord offset word =>
    rw [refusal?, Option.ite_none_left_eq_some] at h
    obtain ⟨hroom, ⟨⟩⟩ := h
    apply EStateM.bind_of_error
    rw [InPlace.patchWord_eq, Chunk.patchWord, if_neg hroom]
    rfl
  | addConstant v =>
    rw [refusal?, Option.ite_none_left_eq_some] at h
    obtain ⟨hroom, ⟨⟩⟩ := h
    apply EStateM.bind_of_error
    rw [InPlace.addConstant_eq, Chunk.addConstant, Pool.add?, Pool.limit, if_neg hroom]
    rfl

/-- A call that is not refused makes its whole change. -/
theorem perform_of_accepted (h : e.refusal? c = none) :
    e.perform c = .ok (e.place? c) (e.change c) := by
  cases e with
  | write byte line =>
    apply EStateM.bind_of_ok
    rw [InPlace.write_eq, Chunk.write_eq _ (write_accepted_iff.mp h)]
    rfl
  | writeWord word line =>
    have hline := writeWord_accepted_iff.mp h
    apply EStateM.bind_of_ok
    rw [InPlace.writeWord_eq, Chunk.writeWord, Chunk.write_eq _ hline]
    simp only [bind, Except.bind, Chunk.write_eq _ hline]
    rfl
  | patchWord offset word =>
    apply EStateM.bind_of_ok
    rw [InPlace.patchWord_eq, Chunk.patchWord, Chunk.size, if_pos (patchWord_accepted_iff.mp h)]
    rfl
  | addConstant v =>
    apply EStateM.bind_of_ok
    rw [InPlace.addConstant_eq, Chunk.addConstant, Pool.add?, Pool.limit,
      if_pos (addConstant_accepted_iff.mp h)]
    rfl

/-- A call fails exactly if it is refused, and then changes nothing. -/
theorem perform_eq_error_iff :
    e.perform c = .error error c' ↔ e.refusal? c = some error ∧ c' = c := by
  cases h : e.refusal? c with
  | none =>
    rw [perform_of_accepted h]
    simp
  | some found =>
    rw [perform_of_refusal? h]
    simp [eq_comm]

/-- A call succeeds exactly if it is not refused, and then does what it is for. -/
theorem perform_eq_ok_iff :
    e.perform c = .ok place c' ↔
      e.refusal? c = none ∧ place = e.place? c ∧ c' = e.change c := by
  cases h : e.refusal? c with
  | none =>
    rw [perform_of_accepted h]
    simp [eq_comm]
  | some found =>
    rw [perform_of_refusal? h]
    simp

/-- What a call makes of a chunk, with or without success. -/
theorem edit_cases (e : Edit) (c : Chunk) :
    c.edit e = c ∨ e.refusal? c = none ∧ c.edit e = e.change c := by
  unfold Chunk.edit
  cases h : e.refusal? c with
  | none =>
    rw [perform_of_accepted h]
    exact .inr ⟨rfl, rfl⟩
  | some error =>
    rw [perform_of_refusal? h]
    exact .inl rfl

end Edit

/-! ## Sound chunks -/

/-- One line for each byte, none of them negative, and no more constants than one byte can tell
apart. -/
structure Chunk.Sound (c : Chunk) : Prop where
  size_lines : c.lines.size = c.code.size
  line_nonneg : ∀ line ∈ c.lines, 0 ≤ line
  size_pool : c.pool.size ≤ 256

namespace Chunk.Sound

variable {c : Chunk}

theorem empty : Chunk.empty.Sound := by
  constructor
  · rfl
  · intro line hline
    cases Array.not_mem_empty line hline
  · exact Nat.zero_le _

/-- A call that is not refused keeps a chunk sound. -/
theorem change (h : c.Sound) {e : Edit} (haccepted : e.refusal? c = none) : (e.change c).Sound := by
  -- a call only appends to what is there, except for a patch, which changes no size
  cases e with
  | write byte line =>
    have hline := Edit.write_accepted_iff.mp haccepted
    constructor
    · simp [Edit.change, h.size_lines]
    · intro other hother
      rcases Array.mem_push.mp hother with hother | rfl
      · exact h.line_nonneg other hother
      · exact hline
    · exact h.size_pool
  | writeWord word line =>
    have hline := Edit.writeWord_accepted_iff.mp haccepted
    constructor
    · simp [Edit.change, h.size_lines]
    · intro other hother
      rcases Array.mem_push.mp hother with hother | rfl
      · rcases Array.mem_push.mp hother with hother | rfl
        · exact h.line_nonneg other hother
        · exact hline
      · exact hline
    · exact h.size_pool
  | patchWord offset word =>
    constructor
    · simp [Edit.change, h.size_lines]
    · exact h.line_nonneg
    · exact h.size_pool
  | addConstant v =>
    have hroom := Edit.addConstant_accepted_iff.mp haccepted
    constructor
    · exact h.size_lines
    · exact h.line_nonneg
    · rw [Edit.change, Array.size_push]
      exact hroom

/-- A call keeps a chunk sound, refused or not. -/
theorem edit (h : c.Sound) (e : Edit) : (c.edit e).Sound := by
  rcases e.edit_cases c with hsame | ⟨haccepted, hchange⟩
  · rw [hsame]
    exact h
  · rw [hchange]
    exact h.change haccepted

/-- Any calls keep a chunk sound. -/
theorem edits (h : c.Sound) (es : List Edit) : (c.edits es).Sound := by
  -- on the calls, with the chunk in general form
  induction es generalizing c with
  | nil => exact h
  | cons e es ih => exact ih (h.edit e)

end Chunk.Sound

/-! ## What is kept -/

/-- The call overwrites the byte at an offset: it is a patch of a word with that byte, and succeeds. -/
def Edit.Overwrites (e : Edit) (c : Chunk) (offset : Nat) : Prop :=
  ∃ start word c', e = .patchWord start word ∧ e.perform c = .ok none c' ∧
    (offset = start ∨ offset = start + 1)

namespace Chunk

/-- One of the calls, carried out one after the other, overwrites the byte at an offset. -/
def Overwritten (offset : Nat) : Chunk → List Edit → Prop
  | _, [] => False
  | c, e :: later => e.Overwrites c offset ∨ Overwritten offset (c.edit e) later

/-- The byte is read at the offset after any calls that do not overwrite it. -/
def KeepsByte (c : Chunk) (offset : Nat) (byte : UInt8) : Prop :=
  ∀ later, ¬ Overwritten offset c later → (c.edits later).read offset = .ok byte

/-- The line is that of the byte at the offset after any calls. -/
def KeepsLine (c : Chunk) (offset : Nat) (line : Int) : Prop :=
  ∀ later, (c.edits later).lineAt offset = .ok line

/-- The constant has the index after any calls. -/
def KeepsConstant (c : Chunk) (index : Nat) (v : Value) : Prop :=
  ∀ later, (c.edits later).readConstant index = .ok v

/-- The word is read at the offset after any calls that overwrite none of its bytes, and each of its
bytes after any calls that do not overwrite that one. -/
structure KeepsWord (c : Chunk) (offset : Nat) (word : UInt16) : Prop where
  low : c.KeepsByte offset word.toUInt8
  high : c.KeepsByte (offset + 1) (word >>> 8).toUInt8
  word : ∀ later, ¬ Overwritten offset c later → ¬ Overwritten (offset + 1) c later →
    (c.edits later).readWord offset = .ok word

variable {c : Chunk} {offset index : Nat} {byte : UInt8} {line : Int} {v : Value}

/-- What stands in an array stands there when more is added. -/
theorem getElem?_push_of_some {α : Type} {xs : Array α} {i : Nat} {x : α} (h : xs[i]? = some x)
    (y : α) : (xs.push y)[i]? = some x := by
  obtain ⟨hlt, -⟩ := Array.getElem?_eq_some_iff.mp h
  rw [Array.getElem?_push, if_neg (Nat.ne_of_lt hlt), h]

theorem getElem?_push_push {α : Type} (xs : Array α) (x y : α) :
    ((xs.push x).push y)[xs.size + 1]? = some y := by
  rw [← Array.size_push x]
  exact Array.getElem?_push_size

/-- A byte stays, unless the call overwrites it. -/
theorem code_edit (h : c.code[offset]? = some byte) {e : Edit} (hkept : ¬ e.Overwrites c offset) :
    (c.edit e).code[offset]? = some byte := by
  rcases e.edit_cases c with hsame | ⟨haccepted, hchange⟩
  · rw [hsame, h]
  · rw [hchange]
    cases e with
    | write other line => exact getElem?_push_of_some h other
    | writeWord word line => exact getElem?_push_of_some (getElem?_push_of_some h _) _
    | addConstant v => exact h
    | patchWord start word =>
      -- The patch succeeds, so it is elsewhere.
      have hne : ∀ place, place = start ∨ place = start + 1 → place ≠ offset := by
        rintro place hplace rfl
        exact hkept ⟨start, word, _, rfl, Edit.perform_of_accepted haccepted, hplace⟩
      have hlow := hne start (.inl rfl)
      have hhigh := hne (start + 1) (.inr rfl)
      simp only [Edit.change]
      rw [Array.getElem?_setIfInBounds_ne hhigh, Array.getElem?_setIfInBounds_ne hlow, h]

/-- The line of a byte stays, as bytes are only appended. -/
theorem lines_edit (h : c.lines[offset]? = some line) (e : Edit) :
    (c.edit e).lines[offset]? = some line := by
  rcases e.edit_cases c with hsame | ⟨-, hchange⟩
  · rw [hsame, h]
  · rw [hchange]
    cases e with
    | write byte other => exact getElem?_push_of_some h other
    | writeWord word other => exact getElem?_push_of_some (getElem?_push_of_some h other) other
    | patchWord start word => exact h
    | addConstant v => exact h

/-- A constant stays, as constants are only appended. -/
theorem pool_edit (h : c.pool[index]? = some v) (e : Edit) :
    (c.edit e).pool[index]? = some v := by
  rcases e.edit_cases c with hsame | ⟨-, hchange⟩
  · rw [hsame, h]
  · rw [hchange]
    cases e with
    | write byte line => exact h
    | writeWord word line => exact h
    | patchWord start word => exact h
    | addConstant other => exact getElem?_push_of_some h other

/-- A byte that is there stays until it is overwritten. -/
theorem keepsByte_of_code (h : c.code[offset]? = some byte) : c.KeepsByte offset byte := by
  -- By induction on the calls: each of them is made on the chunk that those before it have left.
  intro later
  induction later generalizing c with
  | nil =>
    intro _
    show c.read offset = _
    rw [read, h]
  | cons e later ih =>
    intro hkept
    obtain ⟨hnow, hlater⟩ := not_or.mp hkept
    exact ih (code_edit h hnow) hlater

/-- A line that is there stays. -/
theorem keepsLine_of_lines (h : c.lines[offset]? = some line) : c.KeepsLine offset line := by
  intro later
  induction later generalizing c with
  | nil =>
    show c.lineAt offset = _
    rw [lineAt, h]
  | cons e later ih => exact ih (lines_edit h e)

/-- A constant that is there stays. -/
theorem keepsConstant_of_pool (h : c.pool[index]? = some v) : c.KeepsConstant index v := by
  intro later
  induction later generalizing c with
  | nil =>
    show c.readConstant index = _
    rw [readConstant, h]
  | cons e later ih => exact ih (pool_edit h e)

/-- What is read is there. -/
theorem code_of_read (h : c.read offset = .ok byte) : c.code[offset]? = some byte := by
  unfold read at h
  cases hbyte : c.code[offset]? with
  | none =>
    rw [hbyte] at h
    cases h
  | some found =>
    rw [hbyte] at h
    cases h
    rfl

/-- A word is kept as long as both of its bytes are. -/
theorem keepsWord_of_code {word : UInt16} (hlow : c.code[offset]? = some word.toUInt8)
    (hhigh : c.code[offset + 1]? = some (word >>> 8).toUInt8) : c.KeepsWord offset word := by
  have hlow := keepsByte_of_code hlow
  have hhigh := keepsByte_of_code hhigh
  refine ⟨hlow, hhigh, ?_⟩
  intro later hkeptLow hkeptHigh
  have hlow := code_of_read (hlow later hkeptLow)
  have hhigh := code_of_read (hhigh later hkeptHigh)
  rw [readWord, hlow, hhigh]
  exact congrArg Except.ok (word_of_bytes word)

end Chunk

/-! ## Chunks made by calls -/

/-- A chunk is sound, is as it was after a call that fails, and keeps what a call writes. -/
structure Chunk.WellKept (c : Chunk) : Prop where
  /-- There is a line for each byte, no line is negative, and there are at most 256 constants. -/
  sound : c.Sound
  /-- A call fails for the reasons that there are for its refusal, and then it changes nothing. -/
  failure {e : Edit} {error : ChunkError} {c' : Chunk} :
    e.perform c = .error error c' ↔ e.refusal? c = some error ∧ c' = c
  /-- A byte that is written, and its line. -/
  write {byte : UInt8} {line : Int} {place : Option Nat} {c' : Chunk}
    (h : (Edit.write byte line).perform c = .ok place c') :
    place = some c.size ∧ c'.KeepsByte c.size byte ∧ c'.KeepsLine c.size line
  /-- A word that is written, and the line of both of its bytes. -/
  writeWord {word : UInt16} {line : Int} {place : Option Nat} {c' : Chunk}
    (h : (Edit.writeWord word line).perform c = .ok place c') :
    place = some c.size ∧ c'.KeepsWord c.size word ∧ c'.KeepsLine c.size line ∧
      c'.KeepsLine (c.size + 1) line
  /-- A word that is patched, while all else is as it was. -/
  patchWord {offset : Nat} {word : UInt16} {place : Option Nat} {c' : Chunk}
    (h : (Edit.patchWord offset word).perform c = .ok place c') :
    place = none ∧ c'.KeepsWord offset word ∧
      c'.lines = c.lines ∧ c'.pool = c.pool ∧ c'.size = c.size ∧
      ∀ other, other ≠ offset → other ≠ offset + 1 → c'.read other = c.read other
  /-- A constant that is added. -/
  addConstant {v : Value} {place : Option Nat} {c' : Chunk}
    (h : (Edit.addConstant v).perform c = .ok place c') :
    place = some c.pool.size ∧ c'.KeepsConstant c.pool.size v

/-- A sound chunk is well kept, whatever is called next. -/
theorem Chunk.Sound.wellKept {c : Chunk} (h : c.Sound) : c.WellKept where
  sound := h
  failure := Edit.perform_eq_error_iff
  write := by
    intro byte line place c' hperform
    obtain ⟨-, rfl, rfl⟩ := Edit.perform_eq_ok_iff.mp hperform
    refine ⟨rfl, keepsByte_of_code ?_, keepsLine_of_lines ?_⟩
    · exact Array.getElem?_push_size
    · -- there is a line for each byte, so the new line is that of the new byte
      rw [Chunk.size, ← h.size_lines]
      exact Array.getElem?_push_size
  writeWord := by
    intro word line place c' hperform
    obtain ⟨-, rfl, rfl⟩ := Edit.perform_eq_ok_iff.mp hperform
    refine ⟨rfl, keepsWord_of_code ?_ ?_, keepsLine_of_lines ?_, keepsLine_of_lines ?_⟩
    · exact getElem?_push_of_some Array.getElem?_push_size _
    · exact getElem?_push_push c.code _ _
    · rw [Chunk.size, ← h.size_lines]
      exact getElem?_push_of_some Array.getElem?_push_size _
    · rw [Chunk.size, ← h.size_lines]
      exact getElem?_push_push c.lines _ _
  patchWord := by
    intro offset word place c' hperform
    obtain ⟨haccepted, rfl, rfl⟩ := Edit.perform_eq_ok_iff.mp hperform
    have hroom := Edit.patchWord_accepted_iff.mp haccepted
    refine ⟨rfl, keepsWord_of_code ?_ ?_, rfl, rfl, ?_, ?_⟩
    · rw [Edit.change, Array.getElem?_setIfInBounds_ne (by omega)]
      exact Array.getElem?_setIfInBounds_self_of_lt (by omega)
    · rw [Edit.change]
      exact Array.getElem?_setIfInBounds_self_of_lt (by simp; omega)
    · simp [Edit.change, Chunk.size]
    · intro other hlow hhigh
      -- a patch changes two bytes and no other
      have hcode : ((Edit.patchWord offset word).change c).code[other]? = c.code[other]? := by
        rw [Edit.change, Array.getElem?_setIfInBounds_ne (Ne.symm hhigh),
          Array.getElem?_setIfInBounds_ne (Ne.symm hlow)]
      have hsize : ((Edit.patchWord offset word).change c).size = c.size := by
        simp [Edit.change, Chunk.size]
      rw [Chunk.read, Chunk.read, hcode, hsize]
  addConstant := by
    intro v place c' hperform
    obtain ⟨-, rfl, rfl⟩ := Edit.perform_eq_ok_iff.mp hperform
    exact ⟨rfl, keepsConstant_of_pool Array.getElem?_push_size⟩

/-- After any calls in any order, of which any may fail, a chunk is well kept: it is sound, a call that
fails leaves it as it was, a patch changes its two bytes only, and what has been written is read back
after any further calls, except for bytes that a patch overwrites. -/
theorem edited_chunks_wellKept (es : List Edit) : (Chunk.empty.edits es).WellKept :=
  (Chunk.Sound.empty.edits es).wellKept

end Scriptlet
