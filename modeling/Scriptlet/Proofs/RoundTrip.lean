import Scriptlet.Code.PoolOp
import Scriptlet.Code.WordOp
import Scriptlet.Proofs.Encoding

/-! # Decoding and writing are inverse

Written code reads back, and so does the converse hold: whatever bytes decoding makes sense of are
the bytes that writing its records gives. An operand of one or two bytes holds as many numbers as
there are arguments that fit it, so nothing is lost when it is read (`decodeOperand_eq_ok`). What
decoding a chunk gives is then the sequence of records of some code, and the bytes of the chunk are
the bytes of that code (`exists_code_of_decode`).

## Main statement

* `byteCode_round_trips`: for both instruction sets, records lie end to end over the whole chunk,
  writing them again gives the same bytes, and valid instructions that are written are read back.
-/

namespace Scriptlet

/-! ## Numbers of one and two bytes -/

theorem ofInt_toNat_byte (byte : UInt8) : UInt8.ofInt byte.toNat = byte := by
  have hlt := byte.toNat_lt
  apply UInt8.toNat_inj.mp
  have htoNat := Chunk.toNat_ofInt_byte (n := byte.toNat) ⟨by omega, by omega⟩
  omega

theorem ofInt_toNat_word (word : UInt16) : UInt16.ofInt word.toNat = word := by
  have hlt := word.toNat_lt
  apply UInt16.toNat_inj.mp
  have htoNat := Chunk.toNat_ofInt_word (n := word.toNat) ⟨by omega, by omega⟩
  omega

/-- A signed word is in the range of 16 bits. -/
theorem signedWord_bounds (word : UInt16) :
    -32768 ≤ signedWord word ∧ signedWord word < 32768 := by
  have hlt := word.toNat_lt
  unfold signedWord
  rw [Int.bmod_def]
  omega

/-- A word is known by its signed number. -/
theorem ofInt_signedWord (word : UInt16) : UInt16.ofInt (signedWord word) = word := by
  have hlt := word.toNat_lt
  apply UInt16.toNat_inj.mp
  unfold signedWord
  rw [Int.bmod_def]
  simp [UInt16.ofInt]
  omega

theorem word_low (low high : UInt8) : (high.toUInt16 <<< 8 ||| low.toUInt16).toUInt8 = low := by
  have hlow := low.toNat_lt
  apply UInt8.toNat_inj.mp
  rw [UInt16.toNat_toUInt8, Chunk.toNat_word]
  omega

theorem word_high (low high : UInt8) :
    ((high.toUInt16 <<< 8 ||| low.toUInt16) >>> 8).toUInt8 = high := by
  have hlow := low.toNat_lt
  have hhigh := high.toNat_lt
  apply UInt8.toNat_inj.mp
  rw [UInt16.toNat_toUInt8, UInt16.toNat_shiftRight, Chunk.toNat_word]
  simp [Nat.shiftRight_eq_div_pow]
  omega

variable {ω : Type} [Opcode ω]

/-- Is the argument of the instruction in the range of its operand, and its constant in the pool? -/
structure Instr.InRange (pool : Pool) (i : Instr ω) : Prop where
  fits : (Opcode.layout i.op).fits i.arg = true
  index_lt : Opcode.layout i.op = .constant → i.arg.toNat < pool.size

namespace Chunk

variable {c : Chunk} {offset : Nat}

/-! ## One instruction -/

/-- A byte that is read stands in front of the bytes behind it. -/
theorem read_eq_ok {byte : UInt8} (h : c.read offset = .ok byte) :
    c.code.toList.drop offset = byte :: c.code.toList.drop (offset + 1) := by
  unfold read at h
  cases hbyte : c.code[offset]? with
  | none => simp [hbyte] at h
  | some b =>
    simp only [hbyte, Except.ok.injEq] at h
    subst h
    obtain ⟨hlt, hget⟩ := Array.getElem?_eq_some_iff.mp hbyte
    rw [List.drop_eq_getElem_cons (by simpa using hlt), Array.getElem_toList, hget]

/-- A word that is read stands in the code with its low byte first. -/
theorem readWord_eq_ok {word : UInt16} (h : c.readWord offset = .ok word) :
    c.code.toList.drop offset
      = word.toUInt8 :: (word >>> 8).toUInt8 :: c.code.toList.drop (offset + 2) := by
  unfold readWord at h
  cases hlow : c.code[offset]? with
  | none => simp [hlow] at h
  | some low =>
    cases hhigh : c.code[offset + 1]? with
    | none => simp [hlow, hhigh] at h
    | some high =>
      simp only [hlow, hhigh, Except.ok.injEq] at h
      have hfirst : c.read offset = .ok low := by rw [read, hlow]
      have hsecond : c.read (offset + 1) = .ok high := by rw [read, hhigh]
      rw [← h, word_low, word_high, read_eq_ok hfirst, read_eq_ok hsecond]

/-- An operation of the chunk that is part of decoding has succeeded. -/
theorem asDecode_bind_eq_ok {α β : Type} {x : Except ChunkError α} {f : α → Except DecodeError β}
    {b : β} (h : (asDecode x >>= f) = .ok b) : ∃ a, x = .ok a ∧ f a = .ok b := by
  cases x with
  | error e => cases h
  | ok a => exact ⟨a, rfl, h⟩

section Operands

variable {i : Instr ω}

/-- An operand of one byte that is read is the one that would be written. -/
theorem drop_operand_byte {byte : UInt8} (hwidth : (Opcode.layout i.op).width = 1)
    (hread : c.read (offset + 1) = .ok byte) (hstored : i.stored = byte.toNat) :
    c.code.toList.drop (offset + 1) = i.operandBytes ++ c.code.toList.drop (offset + i.width) := by
  have hbytes : i.operandBytes = [byte] := by
    simp only [Instr.operandBytes, hwidth, hstored, ofInt_toNat_byte]
  rw [hbytes, Instr.width, Opcode.width, hwidth, read_eq_ok hread]
  rfl

theorem drop_operand_word {word : UInt16} (hwidth : (Opcode.layout i.op).width = 2)
    (hread : c.readWord (offset + 1) = .ok word) (hstored : UInt16.ofInt i.stored = word) :
    c.code.toList.drop (offset + 1) = i.operandBytes ++ c.code.toList.drop (offset + i.width) := by
  have hbytes : i.operandBytes = [word.toUInt8, (word >>> 8).toUInt8] := by
    simp only [Instr.operandBytes, hwidth, hstored]
  rw [hbytes, Instr.width, Opcode.width, hwidth, readWord_eq_ok hread]
  rfl

/-- Only a constant has to be in the pool besides. -/
theorem inRange_of_fits {pool : Pool} (hfits : (Opcode.layout i.op).fits i.arg = true)
    (hlayout : Opcode.layout i.op ≠ .constant) : i.InRange pool :=
  ⟨hfits, fun h => absurd h hlayout⟩

/-- An argument that is read fits its operand, and its operand is what would be written for it. -/
theorem decodeOperand_eq_ok {constant : Option Value}
    (h : c.decodeOperand offset (Opcode.layout i.op) = .ok (i.arg, constant)) :
    i.InRange c.pool ∧ constant = i.constant? c.pool ∧
      c.code.toList.drop (offset + 1)
        = i.operandBytes ++ c.code.toList.drop (offset + i.width) := by
  have hstored : i.stored = (Opcode.layout i.op).stored i.arg := rfl
  have hrange := @inRange_of_fits ω _ i c.pool
  have hbyte := @drop_operand_byte ω _ c offset i
  have hword := @drop_operand_word ω _ c offset i
  unfold Instr.constant?
  -- one case for each layout: what is stored is the argument, its two's complement, or its negation
  cases hlayout : Opcode.layout i.op
  all_goals
    simp only [hlayout, Layout.fits, Layout.stored, Layout.width, decide_eq_true_eq, beq_iff_eq,
      forall_const, ne_eq, reduceCtorEq, not_false_eq_true] at h hstored hrange hbyte hword
  case none =>
    obtain ⟨harg, hconstant⟩ := Prod.mk.inj (Except.ok.inj h)
    refine ⟨hrange harg.symm, hconstant.symm, ?_⟩
    simp [Instr.operandBytes, Instr.width, Opcode.width, hlayout, Layout.width]
  case byte =>
    obtain ⟨byte, hread, hresult⟩ := asDecode_bind_eq_ok h
    obtain ⟨harg, hconstant⟩ := Prod.mk.inj (Except.ok.inj hresult)
    have hlt := byte.toNat_lt
    exact ⟨hrange (by omega), hconstant.symm, hbyte hread (by rw [hstored, harg])⟩
  case constant =>
    obtain ⟨byte, hread, hresult⟩ := asDecode_bind_eq_ok h
    have hlt := byte.toNat_lt
    cases hindex : c.pool[byte.toNat]? with
    | none =>
      rw [hindex] at hresult
      cases hresult
    | some v =>
      rw [hindex] at hresult
      obtain ⟨harg, hconstant⟩ := Prod.mk.inj (Except.ok.inj hresult)
      -- the index is within the pool, as the constant was found there
      have hnat : i.arg.toNat = byte.toNat := by omega
      refine ⟨?_, ?_, hbyte hread (by rw [hstored, harg])⟩
      · constructor
        · rw [hlayout, Layout.fits, decide_eq_true_eq]
          omega
        · intro _
          rw [hnat]
          exact (Array.getElem?_eq_some_iff.mp hindex).1
      · rw [hnat, hindex, hconstant]
  case word | forwardJump =>
    obtain ⟨word, hread, hresult⟩ := asDecode_bind_eq_ok h
    obtain ⟨harg, hconstant⟩ := Prod.mk.inj (Except.ok.inj hresult)
    have hlt := word.toNat_lt
    refine ⟨hrange (by omega), hconstant.symm, hword hread ?_⟩
    rw [hstored, ← harg, ofInt_toNat_word]
  case immediate =>
    obtain ⟨word, hread, hresult⟩ := asDecode_bind_eq_ok h
    obtain ⟨harg, hconstant⟩ := Prod.mk.inj (Except.ok.inj hresult)
    refine ⟨hrange (harg ▸ signedWord_bounds word), ?_, hword hread ?_⟩
    · rw [← hconstant, harg]
    · rw [hstored, ← harg, ofInt_signedWord]
  case relativeJump =>
    obtain ⟨word, hread, hresult⟩ := asDecode_bind_eq_ok h
    obtain ⟨harg, hconstant⟩ := Prod.mk.inj (Except.ok.inj hresult)
    refine ⟨hrange (harg ▸ signedWord_bounds word), hconstant.symm, hword hread ?_⟩
    rw [hstored, ← harg, ofInt_signedWord]
  case backwardJump =>
    obtain ⟨word, hread, hresult⟩ := asDecode_bind_eq_ok h
    obtain ⟨harg, hconstant⟩ := Prod.mk.inj (Except.ok.inj hresult)
    have hlt := word.toNat_lt
    refine ⟨hrange (by omega), hconstant.symm, hword hread ?_⟩
    rw [hstored, ← harg, Int.neg_neg, ofInt_toNat_word]

end Operands

/-- A record that is read is the record of its instruction, and the bytes from its offset on are
those of the instruction and of what follows it. -/
theorem decodeAt_eq_record {r : Record ω} (h : c.decodeAt offset = .ok r) :
    r = r.instr.record c.pool offset ∧ r.instr.InRange c.pool ∧
      c.code.toList.drop offset = r.instr.bytes ++ c.code.toList.drop (offset + r.width) := by
  obtain ⟨hoffset, -, hopcode, hoperand⟩ := decodeAt_eq_ok h
  obtain ⟨hrange, hconstant, hbytes⟩ := decodeOperand_eq_ok hoperand
  refine ⟨?_, hrange, ?_⟩
  · calc r = ⟨r.offset, r.instr, r.constant⟩ := rfl
      _ = ⟨offset, r.instr, r.instr.constant? c.pool⟩ := by rw [hoffset, hconstant]
  · rw [read_eq_ok hopcode, hbytes]
    rfl

/-! ## A whole chunk -/

/-- What is found from an offset on are the records of some code, whose bytes stand there. -/
theorem exists_code_of_decodeFrom {found rs : List (Record ω)}
    (h : c.decodeFrom offset found = .ok rs) (hoffset : offset ≤ c.size) :
    ∃ code : Code ω, rs = found.reverse ++ code.records c.pool offset ∧
      code.bytes = c.code.toList.drop offset ∧ ∀ i ∈ code, i.InRange c.pool := by
  fun_induction decodeFrom c offset found with
  | case1 => cases h
  | case2 offset found _ r hr ih =>
    obtain ⟨hrecord, hrange, hbytes⟩ := decodeAt_eq_record hr
    -- the bytes of the instruction are there, so its end is not behind the end of the code
    have hnext : offset + r.width ≤ c.size := by
      have hlength := congrArg List.length hbytes
      simp only [List.length_append, List.length_drop, Instr.length_bytes, Array.length_toList]
        at hlength
      have hwidth : r.width = r.instr.width := rfl
      simp only [size] at hoffset ⊢
      omega
    obtain ⟨code, hrs, hcode, hall⟩ := ih h hnext
    refine ⟨r.instr :: code, ?_, ?_, ?_⟩
    · rw [hrs, List.reverse_cons, List.append_assoc]
      show _ ++ ([r] ++ _) = _ ++ (r.instr.record c.pool offset :: _)
      rw [← hrecord]
      rfl
    · show r.instr.bytes ++ code.bytes = _
      rw [hcode, hbytes]
    · intro i hi
      rcases List.mem_cons.mp hi with rfl | hmem
      · exact hrange
      · exact hall i hmem
  | case3 offset found hend =>
    cases h
    refine ⟨[], by simp [Code.records], ?_, by simp⟩
    have hlength : c.code.toList.length ≤ offset := by
      rw [Array.length_toList]
      exact Nat.le_of_not_lt hend
    exact (List.drop_eq_nil_of_le hlength).symm

/-- What decoding gives are the records of some code, and the bytes of the chunk are the bytes of
that code. -/
theorem exists_code_of_decode {rs : List (Record ω)} (h : c.decode = .ok rs) :
    ∃ code : Code ω, rs = code.records c.pool 0 ∧ code.bytes = c.code.toList ∧
      ∀ i ∈ code, i.InRange c.pool :=
  exists_code_of_decodeFrom h (Nat.zero_le _)

end Chunk

/-! ## Writing records again -/

namespace Record

/-- The number that a record shows: the constant of an immediate, and otherwise the operand. -/
def shown (r : Record ω) : Int :=
  match Opcode.layout r.op, r.constant with
  | .immediate, some (.int n) => n.toInt
  | _, _ => r.operand?.getD 0

/-- The instruction to be written for a record. -/
def rewritten (r : Record ω) : Instr ω :=
  { op := r.op, arg := r.shown, line := r.line }

end Record

theorem toInt_ofInt_immediate {n : Int} (h : -32768 ≤ n ∧ n < 32768) :
    (Int64.ofInt n).toInt = n := by
  rw [Int64.toInt_ofInt, Int.bmod_def]
  simp only [Int64.size]
  omega

variable {pool : Pool} {i : Instr ω} {code : Code ω}

/-- A record shows the argument of its instruction. -/
theorem Instr.InRange.rewritten_record (h : i.InRange pool) (offset : Nat) :
    (i.record pool offset).rewritten = i := by
  have hfits := h.fits
  suffices hshown : (i.record pool offset).shown = i.arg by
    show ({ op := i.op, arg := (i.record pool offset).shown, line := i.line } : Instr ω) = i
    rw [hshown]
  cases hlayout : Opcode.layout i.op
  all_goals
    simp only [hlayout, Layout.fits, decide_eq_true_eq, beq_iff_eq] at hfits
    simp only [Record.shown, Record.operand?, Record.op, Instr.record, hlayout]
  case none => exact hfits.symm
  case immediate =>
    simp only [Instr.constant?, hlayout]
    exact toInt_ofInt_immediate hfits
  all_goals rfl

/-- Records of code in range say which code it was. -/
theorem Code.rewritten_records (h : ∀ i ∈ code, i.InRange pool) (offset : Nat) :
    (code.records pool offset).map Record.rewritten = code := by
  induction code generalizing offset with
  | nil => rfl
  | cons i code ih =>
    rw [List.forall_mem_cons] at h
    show (i.record pool offset).rewritten :: (Code.records pool _ code).map Record.rewritten = _
    rw [h.1.rewritten_record, ih h.2]

/-- Decoding and writing are inverse for an instruction set. -/
structure Opcode.RoundTrips (ω : Type) [Opcode ω] : Prop where
  /-- Decoded records lie end to end, from the beginning of the code to its end. -/
  tile {c : Chunk} {rs : List (Record ω)} (h : c.decode = .ok rs) : Record.Tile 0 rs c.size
  /-- Each of them is on the line of its offset. -/
  line {c : Chunk} {rs : List (Record ω)} (h : c.decode = .ok rs) :
    ∀ r ∈ rs, c.lineAt r.offset = .ok r.line
  /-- The bytes of what they show are the bytes of the chunk, whatever these are. -/
  bytes {c : Chunk} {rs : List (Record ω)} (h : c.decode = .ok rs) :
    (rs.map Record.rewritten).flatMap Instr.bytes = c.code.toList
  /-- So writing the records again gives these bytes, and reading them again gives these records.
  Writing would only stop at a negative line. -/
  rewrite {c : Chunk} {rs : List (Record ω)} (h : c.decode = .ok rs)
    (hlines : ∀ r ∈ rs, 0 ≤ r.line) :
    ∃ c', Chunk.writeCode { Chunk.empty with pool := c.pool } (rs.map Record.rewritten) = .ok c' ∧
      c'.code = c.code ∧ c'.decode = .ok rs
  /-- Instructions in range that are written are read back, each behind the ones in front of it. -/
  decode {pool : Pool} {code : Code ω} (h : ∀ i ∈ code, i.InRange pool)
    (hlines : ∀ i ∈ code, 0 ≤ i.line) :
    ∃ c, Chunk.writeCode { Chunk.empty with pool } code = .ok c ∧
      c.decode = .ok (code.records pool 0)

/-- Written code reads back, in any instruction set whose opcodes do. -/
theorem Chunk.decode_writeCode (hω : Opcode.Legible ω) (h : ∀ i ∈ code, i.InRange pool)
    (hlines : ∀ i ∈ code, 0 ≤ i.line) :
    Chunk.writeCode { Chunk.empty with pool } code = .ok (Chunk.ofCode pool code) ∧
      (Chunk.ofCode pool code).decode = .ok (code.records pool 0) := by
  refine ⟨Chunk.writeCode_eq hlines, Chunk.decode_ofCode hω ?_⟩
  intro i hi
  exact ⟨(h i hi).fits, hlines i hi, (h i hi).index_lt⟩

/-- Opcodes that can be told apart can be decoded and written again. -/
theorem Opcode.Legible.roundTrips (hω : Opcode.Legible ω) : Opcode.RoundTrips ω where
  tile := by
    intro c rs h
    obtain ⟨code, rfl, hbytes, -⟩ := Chunk.exists_code_of_decode h
    have hsize : c.size = 0 + code.size := by
      rw [Nat.zero_add, ← Code.length_bytes, hbytes, Array.length_toList]
      rfl
    rw [hsize]
    exact Code.tile_records c.pool 0 code
  line := by
    intro c rs h r hr
    exact (Chunk.decodeAt_ok (Chunk.decodeAt_of_mem_decode h hr)).2
  bytes := by
    intro c rs h
    obtain ⟨code, rfl, hbytes, hrange⟩ := Chunk.exists_code_of_decode h
    rw [Code.rewritten_records hrange]
    exact hbytes
  rewrite := by
    intro c rs h hlines
    obtain ⟨code, rfl, hbytes, hrange⟩ := Chunk.exists_code_of_decode h
    rw [Code.rewritten_records hrange]
    -- the lines that records have are those that are written again
    have hcode : ∀ i ∈ code, 0 ≤ i.line := by
      intro i hi
      rw [← Code.rewritten_records hrange 0] at hi
      obtain ⟨r, hr, rfl⟩ := List.mem_map.mp hi
      exact hlines r hr
    obtain ⟨hwrite, hdecode⟩ := Chunk.decode_writeCode hω hrange hcode
    refine ⟨_, hwrite, ?_, hdecode⟩
    show code.bytes.toArray = c.code
    rw [hbytes]
  decode := by
    intro pool code h hlines
    exact ⟨_, Chunk.decode_writeCode hω h hlines⟩

/-- Decoding and writing are inverse over both instruction sets. The records of a chunk lie end to
end over its code, each on the line of its offset, and what they show is written as the bytes of the
chunk, whatever these were: opcode bytes or not, in any layout of operands. Conversely, instructions
in range that are written are read back with the offsets at which they were written. -/
theorem byteCode_round_trips : Opcode.RoundTrips WordOp ∧ Opcode.RoundTrips PoolOp :=
  ⟨Opcode.Legible.roundTrips WordOp.ofByte?_byte, Opcode.Legible.roundTrips PoolOp.ofByte?_byte⟩

end Scriptlet
