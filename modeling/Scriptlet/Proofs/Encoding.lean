import Scriptlet.Code.Record

/-! # Encoding and decoding

Written code reads back. The bytes of an instruction are its opcode and the number stored for its
argument; where that number fits its operand, decoding at the offset of the instruction finds the
instruction again, with the constant it names. Decoding a whole chunk of written code gives one record
for each instruction, end to end.
-/

namespace Scriptlet

variable {ω : Type} [Opcode ω]

/-- Is every opcode of the instruction set read back from its byte? -/
def Opcode.Legible (ω : Type) [Opcode ω] : Prop :=
  ∀ op : ω, Opcode.ofByte? (Opcode.byte op) = some op

namespace Instr

/-- The bytes of the operand, the low byte first. -/
def operandBytes (i : Instr ω) : List UInt8 :=
  match (Opcode.layout i.op).width with
  | 0 => []
  | 1 => [UInt8.ofInt i.stored]
  | _ => [(UInt16.ofInt i.stored).toUInt8, (UInt16.ofInt i.stored >>> 8).toUInt8]

/-- The bytes of an instruction. -/
def bytes (i : Instr ω) : List UInt8 :=
  Opcode.byte i.op :: i.operandBytes

theorem length_operandBytes (i : Instr ω) :
    i.operandBytes.length = (Opcode.layout i.op).width := by
  unfold operandBytes
  cases Opcode.layout i.op <;> rfl

/-- An instruction has as many bytes as its width says. -/
@[simp]
theorem length_bytes (i : Instr ω) : i.bytes.length = i.width := by
  simp only [bytes, List.length_cons, length_operandBytes, width, Opcode.width]
  omega

/-- The constant that an instruction names in a pool, or the number that it holds itself. -/
def constant? (pool : Pool) (i : Instr ω) : Option Value :=
  match Opcode.layout i.op with
  | .constant => pool[i.arg.toNat]?
  | .immediate => some (.int (Int64.ofInt i.arg))
  | _ => none

/-- The record of an instruction at an offset. -/
def record (pool : Pool) (offset : Nat) (i : Instr ω) : Record ω :=
  { offset, instr := i, constant := i.constant? pool }

/-- A jump leads to the offset behind it, moved by its argument. -/
theorem target?_record {pool : Pool} {offset target : Nat} {i : Instr ω}
    (hjump : (Opcode.layout i.op).isJump = true) (h : (offset + i.width : Nat) + i.arg = target) :
    (i.record pool offset).target? = some target := by
  have hnext : ((i.record pool offset).next : Int) + (i.record pool offset).instr.arg = target := h
  unfold Record.target?
  rw [if_pos ⟨hjump, by omega⟩, hnext]
  rfl

/-- Can the instruction be written and read back beside a pool of constants? -/
structure Valid (pool : Pool) (i : Instr ω) : Prop where
  fits : (Opcode.layout i.op).fits i.arg = true
  line_nonneg : 0 ≤ i.line
  index_lt : Opcode.layout i.op = .constant → i.arg.toNat < pool.size

/-- A larger pool serves as well. -/
theorem Valid.mono {pool larger : Pool} {i : Instr ω} (h : i.Valid pool)
    (hsize : pool.size ≤ larger.size) : i.Valid larger := by
  refine ⟨h.fits, h.line_nonneg, ?_⟩
  intro hlayout
  have := h.index_lt hlayout
  omega

end Instr

namespace Code

/-- The bytes of a sequence of instructions. -/
def bytes (code : Code ω) : List UInt8 :=
  code.flatMap Instr.bytes

/-- The source lines of these bytes. -/
def lines (code : Code ω) : List Int :=
  code.flatMap fun i => List.replicate i.width i.line

@[simp]
theorem size_nil : size ([] : Code ω) = 0 :=
  rfl

@[simp]
theorem size_cons (i : Instr ω) (code : Code ω) : size (i :: code) = i.width + size code :=
  rfl

/-- Sizes add up. -/
@[simp]
theorem size_append (front back : Code ω) : size (front ++ back) = size front + size back := by
  induction front with
  | nil => simp
  | cons i front ih => rw [List.cons_append, size_cons, size_cons, ih, Nat.add_assoc]

/-- Code has as many bytes as its size says. -/
@[simp]
theorem length_bytes (code : Code ω) : (bytes code).length = size code := by
  induction code with
  | nil => rfl
  | cons i code ih => simpa [bytes] using ih

/-- Each byte has a line. -/
@[simp]
theorem length_lines (code : Code ω) : (lines code).length = size code := by
  induction code with
  | nil => rfl
  | cons i code ih => simpa [lines] using ih

end Code

namespace Chunk

/-- The chunk of some code and its constants. -/
def ofCode (pool : Pool) (code : Code ω) : Chunk :=
  { code := code.bytes.toArray, lines := code.lines.toArray, pool }

/-! ## Writing -/

/-- A byte on a line that is not negative is written. -/
theorem write_eq {c : Chunk} {line : Int} (byte : UInt8) (h : 0 ≤ line) :
    c.write byte line
      = .ok (c.size, { c with code := c.code.push byte, lines := c.lines.push line }) := by
  rw [write, if_neg (by omega)]

/-- Writing an instruction appends its bytes, each with the line of the instruction. -/
theorem writeInstr_eq {c : Chunk} {i : Instr ω} (h : 0 ≤ i.line) :
    c.writeInstr i
      = .ok { c with
          code := c.code ++ i.bytes.toArray
          lines := c.lines ++ (List.replicate i.width i.line).toArray } := by
  unfold writeInstr Instr.bytes Instr.operandBytes Instr.width Opcode.width
  rw [write_eq _ h]
  -- One, two or three bytes are written.
  cases Opcode.layout i.op <;>
    simp [Layout.width, writeWord, write_eq _ h, Except.bind, bind, pure, Except.pure,
      List.replicate_succ, ← Array.toList_inj]

/-- Written code stands behind the code that is there. -/
theorem writeCode_ofCode {pool : Pool} {code : Code ω} (h : ∀ i ∈ code, 0 ≤ i.line)
    (done : Code ω) :
    Chunk.writeCode (ofCode pool done) code = .ok (ofCode pool (done ++ code)) := by
  -- Along the code; what is written so far is the code in front.
  induction code generalizing done with
  | nil => simp [writeCode, pure, Except.pure]
  | cons i code ih =>
      have hi : (ofCode pool done).writeInstr i = .ok (ofCode pool (done ++ [i])) := by
        rw [writeInstr_eq (h i (by simp))]
        simp [ofCode, Code.bytes, Code.lines]
      have hrest := ih (fun j hj => h j (by simp [hj])) (done ++ [i])
      have hstep : Chunk.writeCode (ofCode pool done) (i :: code)
          = Chunk.writeCode (ofCode pool (done ++ [i])) code := by
        simp only [writeCode, List.foldlM_cons, hi]
        rfl
      rw [hstep, hrest]
      simp

/-- Writing fails only on a negative line. -/
theorem writeCode_eq {pool : Pool} {code : Code ω} (h : ∀ i ∈ code, 0 ≤ i.line) :
    Chunk.writeCode { Chunk.empty with pool } code = .ok (ofCode pool code) :=
  writeCode_ofCode h []

/-! ## Reading back -/

/-- The number of a word that is put together from its bytes. -/
theorem toNat_word (low high : UInt8) :
    (high.toUInt16 <<< 8 ||| low.toUInt16).toNat = high.toNat * 256 + low.toNat := by
  have hlow := low.toNat_lt
  have hhigh := high.toNat_lt
  have hshift : (8 : UInt16).toNat % 16 = 8 := by decide
  rw [UInt16.toNat_or, UInt16.toNat_shiftLeft, hshift]
  simp only [UInt8.toNat_toUInt16]
  -- the two halves do not overlap, so putting them together is adding
  rw [Nat.mod_eq_of_lt (by rw [Nat.shiftLeft_eq]; omega),
    ← Nat.shiftLeft_add_eq_or_of_lt (by omega), Nat.shiftLeft_eq]

/-- A word is read back from its two bytes. -/
theorem word_of_bytes (w : UInt16) :
    (w >>> 8).toUInt8.toUInt16 <<< 8 ||| w.toUInt8.toUInt16 = w := by
  apply UInt16.toNat_inj.mp
  rw [toNat_word]
  have hw := w.toNat_lt
  simp [UInt16.toNat_shiftRight, Nat.shiftRight_eq_div_pow]
  omega

/-- A number that fits one byte is read back from it. -/
theorem toNat_ofInt_byte {n : Int} (h : 0 ≤ n ∧ n < 256) : ((UInt8.ofInt n).toNat : Int) = n := by
  simp [UInt8.ofInt]
  omega

/-- A number that fits two bytes is read back from them. -/
theorem toNat_ofInt_word {n : Int} (h : 0 ≤ n ∧ n < 65536) :
    ((UInt16.ofInt n).toNat : Int) = n := by
  simp [UInt16.ofInt]
  omega

/-- A number that fits two bytes with sign is read back from them. -/
theorem signedWord_ofInt {n : Int} (h : -32768 ≤ n ∧ n < 32768) :
    signedWord (UInt16.ofInt n) = n := by
  have hmod : ((UInt16.ofInt n).toNat : Int) = n % 65536 := by
    simp [UInt16.ofInt]
    omega
  unfold signedWord
  simp only [hmod, Int.bmod_def]
  omega

/-- A record is read in parts: its opcode, its line and its operand. -/
theorem decodeAt_eq_ok {c : Chunk} {offset : Nat} {r : Record ω} (h : c.decodeAt offset = .ok r) :
    r.offset = offset ∧ c.lineAt offset = .ok r.line ∧ c.read offset = .ok (Opcode.byte r.op) ∧
      c.decodeOperand offset (Opcode.layout r.op) = .ok (r.instr.arg, r.constant) := by
  unfold decodeAt at h
  rcases hbyte : c.read offset with e | byte <;>
    simp only [hbyte, asDecode, bind, Except.bind] at h
  · cases h
  · rcases hop : (Opcode.ofByte? byte : Option ω) with _ | op <;> simp only [hop] at h
    · cases h
    · rcases hline : c.lineAt offset with e | line <;> simp only [hline] at h
      · cases h
      · rcases hoperand : c.decodeOperand offset (Opcode.layout op) with e | ⟨arg, constant⟩ <;>
          simp only [hoperand] at h
        · cases h
        · cases h
          have hop : Opcode.byte op = byte := by simpa using List.find?_some hop
          refine ⟨rfl, rfl, ?_, hoperand⟩
          rw [← hop]
          rfl

/-- A record is at the offset that it is read from, and on the line of that offset. -/
theorem decodeAt_ok {c : Chunk} {offset : Nat} {r : Record ω} (h : c.decodeAt offset = .ok r) :
    r.offset = offset ∧ c.lineAt offset = .ok r.line :=
  ⟨(decodeAt_eq_ok h).1, (decodeAt_eq_ok h).2.1⟩

section OfCode

variable {pool : Pool} {front back : Code ω} {i : Instr ω}

/-- The bytes of an instruction stand behind the code in front of it. -/
theorem getElem?_code_ofCode {k : Nat} (hk : k < i.width) :
    (ofCode pool (front ++ i :: back)).code[front.size + k]? = i.bytes[k]? := by
  have hbytes : Code.bytes (front ++ i :: back) = front.bytes ++ (i.bytes ++ back.bytes) := by
    simp [Code.bytes]
  show (Code.bytes (front ++ i :: back)).toArray[front.size + k]? = _
  rw [hbytes, List.getElem?_toArray, List.getElem?_append_right (by simp),
    List.getElem?_append_left (by simpa using hk)]
  simp

/-- Every byte of an instruction is on its line. -/
theorem lineAt_ofCode {k : Nat} (hk : k < i.width) :
    (ofCode pool (front ++ i :: back)).lineAt (front.size + k) = .ok i.line := by
  -- the line is repeated for every byte of the instruction
  have hlines : Code.lines (front ++ i :: back)
      = front.lines ++ (List.replicate i.width i.line ++ back.lines) := by
    simp [Code.lines]
  have hline : (ofCode pool (front ++ i :: back)).lines[front.size + k]? = some i.line := by
    show (Code.lines (front ++ i :: back)).toArray[front.size + k]? = _
    rw [hlines, List.getElem?_toArray, List.getElem?_append_right (by simp),
      List.getElem?_append_left (by simpa using hk)]
    simp [hk]
  rw [lineAt, hline]

/-- Reading at an offset within an instruction gives its byte there. -/
theorem read_ofCode {k : Nat} {byte : UInt8} (hk : i.bytes[k]? = some byte) :
    (ofCode pool (front ++ i :: back)).read (front.size + k) = .ok byte := by
  obtain ⟨hlt, -⟩ := List.getElem?_eq_some_iff.mp hk
  rw [read, getElem?_code_ofCode (by simpa using hlt), hk]

/-- An operand of one byte is read back. -/
theorem read_operand (hwidth : (Opcode.layout i.op).width = 1) :
    (ofCode pool (front ++ i :: back)).read (front.size + 1) = .ok (UInt8.ofInt i.stored) := by
  apply read_ofCode
  simp [Instr.bytes, Instr.operandBytes, hwidth]

/-- An operand of two bytes is read back. -/
theorem readWord_operand (hwidth : (Opcode.layout i.op).width = 2) :
    (ofCode pool (front ++ i :: back)).readWord (front.size + 1) = .ok (UInt16.ofInt i.stored) := by
  have hsize : i.width = 3 := by rw [Instr.width, Opcode.width, hwidth]
  have hlow : (ofCode pool (front ++ i :: back)).code[front.size + 1]?
      = some (UInt16.ofInt i.stored).toUInt8 := by
    rw [getElem?_code_ofCode (by omega)]
    simp [Instr.bytes, Instr.operandBytes, hwidth]
  have hhigh : (ofCode pool (front ++ i :: back)).code[front.size + 1 + 1]?
      = some (UInt16.ofInt i.stored >>> 8).toUInt8 := by
    rw [Nat.add_assoc, getElem?_code_ofCode (by omega)]
    simp [Instr.bytes, Instr.operandBytes, hwidth]
  simp only [readWord, hlow, hhigh, word_of_bytes]

theorem asDecode_bind {α β : Type} (a : α) (f : α → Except DecodeError β) :
    (asDecode (.ok a) >>= f) = f a :=
  rfl

/-- The argument of a valid instruction is read back, with the constant that it names. -/
theorem decodeOperand_ofCode (h : i.Valid pool) :
    (ofCode pool (front ++ i :: back)).decodeOperand front.size (Opcode.layout i.op)
      = .ok (i.arg, i.constant? pool) := by
  have hfits := h.fits
  have hstored : i.stored = (Opcode.layout i.op).stored i.arg := rfl
  have hbyte := @read_operand ω _ pool front back i
  have hword := @readWord_operand ω _ pool front back i
  have hindex := h.index_lt
  unfold Instr.constant?
  cases hlayout : Opcode.layout i.op
  all_goals
    simp only [hlayout, Layout.fits, Layout.stored, Layout.width, decide_eq_true_eq, beq_iff_eq,
      forall_const] at hfits hstored hbyte hword hindex
    simp only [decodeOperand]
  case none =>
    rw [hfits]
  case byte =>
    rw [hbyte, asDecode_bind, hstored, toNat_ofInt_byte hfits]
    rfl
  case constant =>
    have hnat : (UInt8.ofInt i.arg).toNat = i.arg.toNat := by
      have := toNat_ofInt_byte hfits
      omega
    have hconst : (ofCode pool (front ++ i :: back)).pool[i.arg.toNat]?
        = some pool[i.arg.toNat] := Array.getElem?_eq_getElem hindex
    rw [hbyte, asDecode_bind, hstored, hnat, hconst, Int.toNat_of_nonneg hfits.1,
      Array.getElem?_eq_getElem hindex]
    rfl
  case backwardJump =>
    rw [hword, asDecode_bind, hstored, toNat_ofInt_word hfits, Int.neg_neg]
    rfl
  case word | forwardJump =>
    rw [hword, asDecode_bind, hstored, toNat_ofInt_word hfits]
    rfl
  case immediate | relativeJump =>
    rw [hword, asDecode_bind, hstored, signedWord_ofInt hfits]
    rfl

/-- A valid instruction is read back at its offset. -/
theorem decodeAt_ofCode (hω : Opcode.Legible ω) (h : i.Valid pool) :
    (ofCode pool (front ++ i :: back)).decodeAt front.size = .ok (i.record pool front.size) := by
  have hbyte : (ofCode pool (front ++ i :: back)).read front.size = .ok (Opcode.byte i.op) :=
    read_ofCode (k := 0) rfl
  have hline : (ofCode pool (front ++ i :: back)).lineAt front.size = .ok i.line :=
    lineAt_ofCode (k := 0) (Opcode.width_pos i.op)
  simp only [decodeAt, hbyte, asDecode, hline, bind, Except.bind, hω i.op,
    decodeOperand_ofCode h, pure, Except.pure, Instr.record]

end OfCode

end Chunk

/-! ## Decoding a whole chunk -/

/-- Do records follow each other without a gap, from one offset to another? -/
def Record.Tile : Nat → List (Record ω) → Nat → Prop
  | start, [], stop => start = stop
  | start, r :: rest, stop => r.offset = start ∧ Record.Tile r.next rest stop

namespace Code

/-- The records of a sequence of instructions from an offset on. -/
def records (pool : Pool) : Nat → Code ω → List (Record ω)
  | _, [] => []
  | offset, i :: rest => i.record pool offset :: records pool (offset + i.width) rest

/-- The records of code behind other code have their offsets moved by its size. -/
theorem records_append (pool : Pool) (offset : Nat) (front back : Code ω) :
    records pool offset (front ++ back)
      = records pool offset front ++ records pool (offset + front.size) back := by
  induction front generalizing offset with
  | nil => rfl
  | cons i front ih => simp [records, ih, Nat.add_assoc]

/-- The records of code follow each other without gaps. -/
theorem tile_records (pool : Pool) (offset : Nat) (code : Code ω) :
    Record.Tile offset (code.records pool offset) (offset + code.size) := by
  induction code generalizing offset with
  | nil => rfl
  | cons i code ih =>
      refine ⟨rfl, ?_⟩
      have hnext : (i.record pool offset).next = offset + i.width := rfl
      rw [hnext, size_cons, ← Nat.add_assoc]
      exact ih (offset + i.width)

/-- The records of some code are those of its instructions, each at the size of the code in front of
it. -/
theorem mem_records {pool : Pool} {offset : Nat} {code : Code ω} {r : Record ω} :
    r ∈ code.records pool offset ↔
      ∃ front i back, code = front ++ i :: back ∧ r = i.record pool (offset + Code.size front) := by
  constructor
  · intro h
    induction code generalizing offset with
    | nil => cases h
    | cons i code ih =>
        rcases List.mem_cons.mp h with h | h
        · exact ⟨[], i, code, rfl, h⟩
        · obtain ⟨front, j, back, rfl, rfl⟩ := ih h
          exact ⟨i :: front, j, back, rfl, by simp [Nat.add_assoc]⟩
  · rintro ⟨front, i, back, rfl, rfl⟩
    simp [records_append, records]

end Code

namespace Chunk

/-- Decoding written code gives one record for each instruction. -/
theorem decode_ofCode {pool : Pool} {code : Code ω} (hω : Opcode.Legible ω)
    (h : ∀ i ∈ code, i.Valid pool) :
    (ofCode pool code).decode = .ok (code.records pool 0) := by
  suffices hdecode : ∀ (rest front : Code ω) (found : List (Record ω)),
      code = front ++ rest →
      (ofCode pool code).decodeFrom front.size found
        = .ok (found.reverse ++ rest.records pool front.size) from
    hdecode code [] [] rfl
  intro rest
  induction rest with
  | nil =>
      intro front found hcode
      have hsize : (ofCode pool code).size = front.size := by
        simp [size, ofCode, hcode]
      rw [decodeFrom, if_neg (by omega)]
      simp [Code.records]
  | cons i rest ih =>
      intro front found hcode
      have hwidth : 0 < i.width := Opcode.width_pos i.op
      have hsize : (ofCode pool code).size = front.size + (i.width + Code.size rest) := by
        simp [size, ofCode, hcode]
      have hi : (ofCode pool code).decodeAt front.size = .ok (i.record pool front.size) := by
        rw [hcode]
        exact decodeAt_ofCode hω (h i (by simp [hcode]))
      have hrest := ih (front ++ [i]) (i.record pool front.size :: found) (by simp [hcode])
      rw [decodeFrom, if_pos (by omega), hi]
      simpa [Record.width, Instr.record, Code.records] using hrest

variable {c : Chunk} {records : List (Record ω)}

/-- Decoding from an offset keeps what has been found, and adds instructions that are read at their
place. -/
theorem mem_decodeFrom {offset : Nat} {found : List (Record ω)}
    (h : c.decodeFrom offset found = .ok records) :
    (∀ r ∈ found, r ∈ records) ∧ ∀ r ∈ records, r ∈ found ∨ c.decodeAt r.offset = .ok r := by
  fun_induction decodeFrom c offset found with
  | case1 => cases h
  | case2 offset found _ r hr ih =>
      rcases ih h with ⟨hfound, hrecords⟩
      refine ⟨fun r' hr' => hfound r' (List.mem_cons_of_mem _ hr'), ?_⟩
      intro r' hr'
      rcases hrecords r' hr' with hmem | hat
      · -- Among those found so far, the last one has been read here.
        rcases List.mem_cons.mp hmem with rfl | hmem
        · rw [(decodeAt_ok hr).1]
          exact .inr hr
        · exact .inl hmem
      · exact .inr hat
  | case3 =>
      cases h
      exact ⟨fun r hr => List.mem_reverse.mpr hr, fun r hr => .inl (List.mem_reverse.mp hr)⟩

/-- A decoded instruction is the one at its offset. -/
theorem decodeAt_of_mem_decode (h : c.decode = .ok records) {r : Record ω} (hr : r ∈ records) :
    c.decodeAt r.offset = .ok r := by
  rcases (mem_decodeFrom h).2 r hr with hmem | hat
  · cases hmem
  · exact hat

/-- Where there are instructions, there is one at the beginning. -/
theorem first_of_decode (h : c.decode = .ok records) (hrecords : records ≠ []) :
    ∃ r ∈ records, r.offset = 0 := by
  unfold decode at h
  rw [decodeFrom] at h
  split at h
  · cases hr : (c.decodeAt 0 : Except DecodeError (Record ω)) with
    | error e =>
        rw [hr] at h
        cases h
    | ok r =>
        rw [hr] at h
        exact ⟨r, (mem_decodeFrom h).1 r List.mem_cons_self, (decodeAt_ok hr).1⟩
  · cases h
    exact absurd rfl hrecords

end Chunk

end Scriptlet
