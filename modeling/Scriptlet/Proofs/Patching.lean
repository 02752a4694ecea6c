import Scriptlet.Gen.Emitter
import Scriptlet.Proofs.WellFormed

/-! # No placeholder is left

Writing a chunk in one pass, with placeholders that are overwritten later, gives the chunk that comes of
putting code together from its parts, where the length of each jump is known when the jump is made.

The two walks run side by side. The emitter holds what is written so far, and that is always the encoding
of some code: where a jump is open, of code in which the jump has an argument of its own choice. The end
of a jump replaces that argument, in the code as in the chunk. So when a construct is finished, the code
in the chunk is the code that the other walk has put together, and both have failed if one has.

## Main statements

* `Target.emit_eq_generate`: in one pass, a program becomes the same chunk, or fails with the same error.
* `Target.emitExpr_eq_generateExpr`: the same for expressions.
-/

namespace Scriptlet

variable {ω ν : Type} [Opcode ω]

/-! ## Placeholders in a chunk -/

/-- A jump whose operand is a placeholder. -/
def Instr.placeholder (op : ω) (line : Nat) : Instr ω :=
  { op, arg := (Opcode.layout op).stored (-1), line }

theorem Layout.width_of_isJump {layout : Layout} (h : layout.isJump = true) : layout.width = 2 := by
  cases layout <;> first | rfl | cases h

/-- A displacement is stored as it is or with the other sign, and comes back when stored twice. -/
theorem Layout.stored_stored (layout : Layout) (n : Int) : layout.stored (layout.stored n) = n := by
  cases layout <;> simp [stored]

namespace Chunk

@[simp]
theorem size_ofCode (pool : Pool) (code : Code ω) : (ofCode pool code).size = code.size := by
  simp [size, ofCode]

/-- An instruction with a wide operand has its opcode, the low byte and the high byte. -/
theorem bytes_of_width {i : Instr ω} (hwidth : (Opcode.layout i.op).width = 2) :
    i.bytes = [Opcode.byte i.op, (UInt16.ofInt i.stored).toUInt8,
      (UInt16.ofInt i.stored >>> 8).toUInt8] := by
  rw [Instr.bytes, Instr.operandBytes, hwidth]
  rfl

/-- Overwriting an operand of two bytes changes the argument of one instruction. -/
theorem patchWord_ofCode {pool : Pool} {front back : Code ω} {i : Instr ω}
    (hwidth : (Opcode.layout i.op).width = 2) (arg : Int) :
    (ofCode pool (front ++ i :: back)).patchWord (front.size + 1)
        (UInt16.ofInt ((Opcode.layout i.op).stored arg))
      = .ok (ofCode pool (front ++ { i with arg } :: back)) := by
  have hroom : front.size + 1 + 2 ≤ (ofCode pool (front ++ i :: back)).size := by
    have hinstr : i.width = 3 := by rw [Instr.width, Opcode.width, hwidth]
    simp only [size_ofCode, Code.size_append, Code.size_cons, hinstr]
    omega
  rw [patchWord, if_pos hroom]
  -- The lines stay, and of the bytes only those of the operand are exchanged.
  have hlines : Code.lines (front ++ { i with arg } :: back) = Code.lines (front ++ i :: back) := by
    simp [Code.lines, Instr.width]
  have hbytes := bytes_of_width hwidth
  have hpatched := bytes_of_width (i := { i with arg }) hwidth
  have haround (j : Instr ω) :
      Code.bytes (front ++ j :: back) = front.bytes ++ (j.bytes ++ back.bytes) := by
    simp [Code.bytes]
  simp only [ofCode, hlines, haround, hbytes, hpatched]
  simp [Nat.add_assoc, Instr.stored]

end Chunk

namespace Emitter

/-- The emitter that has written some code, in a state of generation. -/
def after (done : Code ω) (s : GenState ν) : Emitter ν :=
  { chunk := Chunk.ofCode s.pool done, line := s.line, vars := s.vars }

/-- The emitter that has written some more bytes. -/
def push (e : Emitter ν) (bytes : List UInt8) : Emitter ν :=
  { e with chunk := { e.chunk with
      code := e.chunk.code ++ bytes.toArray
      lines := e.chunk.lines ++ (List.replicate bytes.length (e.line : Int)).toArray } }

/-- Bytes can be written in two parts. -/
theorem push_push (e : Emitter ν) (bytes bytes' : List UInt8) :
    (e.push bytes).push bytes' = e.push (bytes ++ bytes') := by
  simp [push]

/-- The bytes of an instruction on the current line. -/
theorem push_after (done : Code ω) (s : GenState ν) (op : ω) (arg : Int) :
    (after done s).push (Instr.bytes { op, arg, line := s.line })
      = after (done ++ [{ op, arg, line := s.line }]) s := by
  simp [push, after, Chunk.ofCode, Code.bytes, Code.lines]

end Emitter

namespace Emit

variable {α β γ δ : Type}

/-- Writing a byte succeeds and tells where the byte is. -/
theorem byte_eq (value : UInt8) (e : Emitter ν) :
    byte value e = .ok (e.chunk.size, e.push [value]) := by
  show onChunk (fun c => c.write value e.line) e = _
  rw [onChunk, Chunk.write_eq value (Int.natCast_nonneg e.line)]
  simp [Emitter.push]

/-- A word is written with its low byte first. -/
theorem word_eq (value : UInt16) (e : Emitter ν) :
    word value e = .ok (e.chunk.size, e.push [value.toUInt8, (value >>> 8).toUInt8]) := by
  show onChunk (fun c => c.writeWord value e.line) e = _
  rw [onChunk, Chunk.writeWord, Chunk.write_eq _ (Int.natCast_nonneg e.line)]
  simp only [bind, Except.bind, Chunk.write_eq _ (Int.natCast_nonneg e.line)]
  simp [Emitter.push, pure, Except.pure, List.replicate_succ, ← Array.toList_inj]

/-- An open jump is a jump with an argument that stands for nothing yet. -/
theorem openJump_after (op : ω) (hwidth : (Opcode.layout op).width = 2) (done : Code ω)
    (s : GenState ν) :
    openJump op (.after done s)
      = .ok (done.size + 1, .after (done ++ [Instr.placeholder op s.line]) s) := by
  have hbytes : (Instr.placeholder op s.line).bytes
      = [Opcode.byte op] ++ [(0xFFFF : UInt16).toUInt8, ((0xFFFF : UInt16) >>> 8).toUInt8] := by
    rw [Chunk.bytes_of_width hwidth, Instr.stored, Instr.placeholder, Layout.stored_stored]
    rfl
  rw [Instr.placeholder, ← Emitter.push_after, ← Instr.placeholder, hbytes, ← Emitter.push_push]
  simp only [openJump, bind, StateT.bind, Except.bind, byte_eq, word_eq]
  simp [Emitter.after, Emitter.push, Chunk.size, Chunk.ofCode]

/-! ## Side by side -/

/-- Both steps fail with the same error, or both succeed and what is written then is some code, in the
state that generation has come to. -/
inductive Agree (R : α → β → Code ω → GenState ν → Prop) :
    Except GenError (α × Emitter ν) → Except GenError (β × GenState ν) → Prop where
  | ok {a : α} {b : β} {done : Code ω} {s : GenState ν} (h : R a b done s) :
      Agree R (.ok (a, .after done s)) (.ok (b, s))
  | error (e : GenError) : Agree R (.error e) (.error e)

/-- When some code is written, writing goes along with generation. -/
def Follows (done : Code ω) (s : GenState ν) (R : α → β → Code ω → GenState ν → Prop)
    (p : Emit ν α) (m : Gen ν β) : Prop :=
  Agree R (p (.after done s)) (m s)

variable {done : Code ω} {s : GenState ν} {R : α → β → Code ω → GenState ν → Prop}
  {Q : γ → δ → Code ω → GenState ν → Prop}

/-- Where generation succeeds, the code has been written. -/
theorem Follows.eq_ok {p : Emit ν α} {m : Gen ν β} {b : β} {t : GenState ν}
    (h : Follows done s R p m) (hm : m s = .ok (b, t)) :
    ∃ a done', p (.after done s) = .ok (a, Emitter.after done' t) ∧ R a b done' t := by
  unfold Follows at h
  rw [hm] at h
  generalize p (.after done s) = x at h
  cases h with
  | ok h => exact ⟨_, _, rfl, h⟩

/-- Where generation fails, writing fails with the same error. -/
theorem Follows.eq_error {p : Emit ν α} {m : Gen ν β} {e : GenError} (h : Follows done s R p m)
    (hm : m s = .error e) : p (.after done s) = .error e := by
  unfold Follows at h
  rw [hm] at h
  generalize p (.after done s) = x at h
  cases h
  rfl

/-- Steps that agree may be followed by steps that do. -/
theorem Agree.bind {x : Except GenError (α × Emitter ν)} {y : Except GenError (β × GenState ν)}
    (h : Agree R x y) {g : α → Emit ν γ} {k : β → Gen ν δ}
    (hg : ∀ a b done t, R a b done t → Follows done t Q (g a) (k b)) :
    Agree Q (x >>= fun r => g r.1 r.2) (y >>= fun r => k r.1 r.2) := by
  cases h with
  | ok h => exact hg _ _ _ _ h
  | error e => exact .error e

/-- Steps in sequence go along, if they do so one by one. -/
theorem Follows.bind {p : Emit ν α} {m : Gen ν β} {g : α → Emit ν γ} {k : β → Gen ν δ}
    (h : Follows done s R p m)
    (hg : ∀ a b done t, R a b done t → Follows done t Q (g a) (k b)) :
    Follows done s Q (p >>= g) (m >>= k) :=
  Agree.bind h hg

theorem follows_pure {a : α} {b : β} (h : R a b done s) : Follows done s R (pure a) (pure b) :=
  .ok h

theorem follows_throw (e : GenError) : Follows done s R (throw e) (throw e) :=
  .error e

/-- A step of generation leaves alone what was written. -/
theorem step_after (m : Gen ν α) :
    step m (.after done s) = (m s).map fun r => (r.1, Emitter.after done r.2) := by
  show (m s >>= fun r => .ok (r.1, Emitter.after done r.2)) = _
  cases m s <;> rfl

/-- A step that writes nothing. -/
theorem follows_step (m : Gen ν α) :
    Follows done s (fun a b done' t => a = b ∧ done' = done ∧ m s = .ok (b, t)) (step m) m := by
  unfold Follows
  rw [step_after]
  rcases h : m s with e | ⟨a, t⟩
  · exact .error e
  · exact .ok ⟨rfl, rfl, rfl⟩

/-- What is done after a line is set may rely on the line. -/
theorem Follows.onLine (line : Nat) {p : Emit ν γ} {m : Gen ν δ}
    (h : ∀ t : GenState ν, t.line = line → Follows done t Q p m) :
    Follows done s Q (step (Gen.setLine line) >>= fun _ => p) (Gen.setLine line >>= fun _ => m) := by
  refine (follows_step _).bind ?_
  rintro _ _ _ t ⟨-, rfl, hset⟩
  have hset : (Gen.setLine line >>= pure : Gen ν Unit) s = .ok ((), t) := by
    rw [bind_pure]
    exact hset
  obtain ⟨-, hpure⟩ := Gen.setLine_bind_eq_ok.mp hset
  cases Gen.pure_eq_ok.mp hpure
  exact h _ rfl

/-- What is known behind a step may be weakened. -/
theorem Follows.mono {p : Emit ν α} {m : Gen ν β} {P : α → β → Code ω → GenState ν → Prop}
    (h : Follows done s R p m) (hP : ∀ a b done t, R a b done t → P a b done t) :
    Follows done s P p m := by
  unfold Follows at h ⊢
  generalize p (.after done s) = x at h ⊢
  generalize m s = y at h ⊢
  cases h with
  | ok h => exact .ok (hP _ _ _ _ h)
  | error e => exact .error e

/-- Generation may still rearrange what it has got. -/
theorem Follows.arrange {p : Emit ν α} {m : Gen ν β} {f : β → δ}
    {P : α → δ → Code ω → GenState ν → Prop} (h : Follows done s R p m)
    (hf : ∀ a b done t, R a b done t → P a (f b) done t) :
    Follows done s P p (m >>= fun b => pure (f b)) := by
  have hbind : Follows done s P (p >>= pure) (m >>= fun b => pure (f b)) :=
    h.bind fun a b done t hR => follows_pure (hf a b done t hR)
  rwa [bind_pure] at hbind

/-- Does the step give code on lines that can be written? -/
def OnLines (m : Gen ν (Code ω)) : Prop :=
  ∀ s code t, m s = .ok (code, t) → ∀ i ∈ code, 0 ≤ i.line

omit [Opcode ω] in
theorem instrs_onLines (ops : List (ω × Int)) : OnLines (Gen.instrs ops : Gen ν (Code ω)) := by
  intro s code t h i hi
  cases Gen.instrs_eq_ok.mp h
  obtain ⟨_, -, rfl⟩ := List.mem_map.mp hi
  exact Int.natCast_nonneg _

omit [Opcode ω] in
theorem plain_onLines (ops : List ω) : OnLines (Gen.plain ops : Gen ν (Code ω)) :=
  instrs_onLines _

omit [Opcode ω] in
/-- Only the last step gives code. -/
theorem bind_onLines {m : Gen ν α} {f : α → Gen ν (Code ω)} (h : ∀ a, OnLines (f a)) :
    OnLines (m >>= f) := by
  intro s code t hbind
  obtain ⟨a, u, -, hf⟩ := Gen.bind_eq_ok.mp hbind
  exact h a u code t hf

/-- Code that is written stands behind what was there. -/
theorem code_after {m : Gen ν (Code ω)} (hm : OnLines m) :
    code m (.after done s) = (m s).map fun r => ((), Emitter.after (done ++ r.1) r.2) := by
  show (step m (.after done s) >>= fun r => _) = _
  rw [step_after]
  rcases h : m s with e | ⟨new, t⟩
  · rfl
  · have hwrite : Chunk.writeCode (Chunk.ofCode t.pool done) new
        = .ok (.ofCode t.pool (done ++ new)) :=
      Chunk.writeCode_ofCode (hm s new t h) done
    simp only [Except.map, bind, Except.bind, onChunk, Emitter.after, hwrite]
    rfl

/-- Code that is generated at once is written at once. -/
theorem follows_code {m : Gen ν (Code ω)} (hm : OnLines m) :
    Follows done s (fun _ new done' _ => done' = done ++ new) (code m) m := by
  unfold Follows
  rw [code_after hm]
  rcases m s with e | ⟨new, t⟩
  · exact .error e
  · exact .ok rfl

/-- Instructions on the current line are written as they are. -/
theorem Follows.instrs {ops : List (ω × Int)} {g : Unit → Emit ν γ} {m : Gen ν δ}
    (h : Follows (done ++ Code.onLine s.line ops) s Q (g ()) m) :
    Follows done s Q (code (Gen.instrs ops) >>= g) m := by
  have hcode : code (Gen.instrs ops) (.after done s)
      = .ok ((), .after (done ++ Code.onLine s.line ops) s) :=
    code_after (instrs_onLines ops)
  show Agree Q (Except.bind (code (Gen.instrs ops) (.after done s)) fun r => g r.1 r.2) (m s)
  rw [hcode]
  exact h

/-- Writing some instructions without operands, where generation does so later. -/
theorem Follows.plain {ops : List ω} {g : Unit → Emit ν γ} {m : Gen ν δ}
    (h : Follows (done ++ Code.plain s.line ops) s Q (g ()) m) :
    Follows done s Q (code (Gen.plain ops) >>= g) m :=
  .instrs h

/-- Generation has instructions on the current line at once. -/
theorem Follows.made {ops : List (ω × Int)} {p : Emit ν γ} {k : Code ω → Gen ν δ}
    (h : Follows done s Q p (k (Code.onLine s.line ops))) :
    Follows done s Q p (Gen.instrs ops >>= k) :=
  h

/-- Generating some instructions without operands that were written before. -/
theorem Follows.madePlain {ops : List ω} {p : Emit ν γ} {k : Code ω → Gen ν δ}
    (h : Follows done s Q p (k (Code.plain s.line ops))) :
    Follows done s Q p (Gen.plain ops >>= k) :=
  h

/-- Instructions that are written when generation is done. -/
theorem follows_lastPlain {ops : List ω} {b : β} {R : Unit → β → Code ω → GenState ν → Prop}
    (h : R () b (done ++ Code.plain s.line ops) s) :
    Follows done s R (code (Gen.plain ops)) (pure b) := by
  have hbind : Follows done s R (code (Gen.plain ops) >>= pure) (pure b) :=
    .plain (follows_pure h)
  rwa [bind_pure] at hbind

/-- The offset is the size of what was written. -/
theorem Follows.offset {g : Nat → Emit ν γ} {m : Gen ν δ} (h : Follows done s Q (g done.size) m) :
    Follows done s Q (offset >>= g) m := by
  have hsize : (Emitter.after done s).chunk.size = done.size := Chunk.size_ofCode _ _
  show Agree Q (g (Emitter.after done s).chunk.size (.after done s)) (m s)
  rw [hsize]
  exact h

/-- A jump is opened with a placeholder, whose operand is behind its opcode. -/
theorem Follows.openJump {op : ω} (hjump : (Opcode.layout op).isJump = true) {g : Nat → Emit ν γ}
    {m : Gen ν δ}
    (h : Follows (done ++ [Instr.placeholder op s.line]) s Q (g (done.size + 1)) m) :
    Follows done s Q (openJump op >>= g) m := by
  have hopen := openJump_after op (Layout.width_of_isJump hjump) done s
  show Agree Q (Except.bind (Emit.openJump op (.after done s)) fun r => g r.1 r.2) (m s)
  rw [hopen]
  exact h

/-- When a jump is pointed to its target, on the line on which it was opened, generation makes it with
the displacement that leads there. -/
theorem follows_pointTo {op : ω} (hjump : (Opcode.layout op).isJump = true) (front back : Code ω)
    {target : Nat} {displacement : Int}
    (htarget : (front.size + 3 : Nat) + displacement = target) :
    Follows (front ++ Instr.placeholder op s.line :: back) s
      (fun _ jump done' t => t = s ∧ jump.size = Opcode.width op ∧ done' = front ++ jump ++ back)
      (pointTo op (front.size + 1) target) (Gen.jumpBy op displacement) := by
  have hdisplacement : (target : Int) - (front.size + 1 + 2 : Nat) = displacement := by omega
  have hpatch : Chunk.patchWord (Chunk.ofCode s.pool (front ++ Instr.placeholder op s.line :: back))
      (front.size + 1) (UInt16.ofInt ((Opcode.layout op).stored displacement))
        = .ok (.ofCode s.pool (front ++ { op, arg := displacement, line := s.line } :: back)) :=
    Chunk.patchWord_ofCode (i := Instr.placeholder op s.line) (Layout.width_of_isJump hjump) _
  unfold pointTo operandFor Gen.jumpBy
  rw [hdisplacement]
  dsimp only
  -- the operand may be too small for the displacement, which both notice
  split
  · have hchunk : onChunk (fun c => return ((), ← c.patchWord (front.size + 1)
          (UInt16.ofInt ((Opcode.layout op).stored displacement))))
        (.after (front ++ Instr.placeholder op s.line :: back) s)
        = .ok ((), Emitter.after (front ++ { op, arg := displacement, line := s.line } :: back) s) := by
      simp only [onChunk, Emitter.after, hpatch]
      rfl
    rw [pure_bind]
    unfold Follows
    rw [hchunk]
    exact .ok ⟨rfl, Code.size_onLine_cons s.line op displacement [], by simp⟩
  · exact .error _

/-- At the end of what a jump leads over, the length of that is the displacement. -/
theorem follows_closeJump {op : ω} (hjump : (Opcode.layout op).isJump = true) (front back : Code ω)
    {displacement : Int} {operand : Nat}
    (hdone : done = front ++ Instr.placeholder op s.line :: back)
    (hdisplacement : displacement = back.size) (hoperand : operand = front.size + 1) :
    Follows done s
      (fun _ jump done' t => t = s ∧ jump.size = Opcode.width op ∧ done' = front ++ jump ++ back)
      (closeJump op operand) (Gen.jumpBy op displacement) := by
  subst hdone hdisplacement hoperand
  have hwidth : (Instr.placeholder op s.line).width = 3 := by
    show 1 + (Opcode.layout op).width = 3
    rw [Layout.width_of_isJump hjump]
  have htarget : ((front.size + 3 : Nat) : Int) + back.size
      = (Chunk.ofCode s.pool (front ++ Instr.placeholder op s.line :: back)).size := by
    simp only [Chunk.size_ofCode, Code.size_append, Code.size_cons, hwidth]
    omega
  exact follows_pointTo hjump front back htarget

/-- A jump to a place that is known is written with its operand. -/
theorem follows_jumpTo {op : ω} (hjump : (Opcode.layout op).isJump = true) {target : Nat}
    {displacement : Int} (htarget : (done.size + 3 : Nat) + displacement = target) :
    Follows done s
      (fun _ jump done' t => t = s ∧ jump.size = Opcode.width op ∧ done' = done ++ jump)
      (do
        let _ ← byte (Opcode.byte op)
        let behind := (← offset) + 2
        let value ← operandFor op ((target : Int) - (behind : Nat))
        let _ ← word value)
      (Gen.jumpBy op displacement) := by
  -- the opcode is written before the displacement is known to fit
  let opened := (Emitter.after done s).push [Opcode.byte op]
  have hoffset : opened.chunk.size = done.size + 1 := by
    simp [opened, Emitter.push, Emitter.after, Chunk.size, Chunk.ofCode]
  have hdisplacement : (target : Int) - (opened.chunk.size + 2 : Nat) = displacement := by
    rw [hoffset]
    omega
  have hbytes : opened.push
      [(UInt16.ofInt ((Opcode.layout op).stored displacement)).toUInt8,
        (UInt16.ofInt ((Opcode.layout op).stored displacement) >>> 8).toUInt8]
      = .after (done ++ [{ op, arg := displacement, line := s.line }]) s := by
    rw [Emitter.push_push, ← Emitter.push_after,
      Chunk.bytes_of_width (Layout.width_of_isJump hjump)]
    rfl
  show Agree _ ((byte (Opcode.byte op) (.after done s)) >>= fun r => (do
    let behind := (← offset) + 2
    let value ← operandFor op ((target : Int) - (behind : Nat))
    let _ ← word value : Emit ν Unit) r.2) _
  rw [byte_eq]
  show Agree _ ((operandFor op ((target : Int) - (opened.chunk.size + 2 : Nat)) opened) >>=
    fun r => (do let _ ← word r.1 : Emit ν Unit) r.2) _
  rw [hdisplacement]
  unfold operandFor Gen.jumpBy
  split
  · show Agree _ (word _ opened >>= fun r => pure ((), r.2)) _
    rw [word_eq, hbytes]
    exact .ok ⟨rfl, Code.size_onLine_cons s.line op displacement [], rfl⟩
  · exact .error _

end Emit

/-! ## The walk over a program -/

open Emit

/-- The code of a backend can be written. -/
structure Backend.Writable (b : Backend ω ν) : Prop where
  literal (v : Value) : OnLines (b.literal v)
  fetch (name : String) : OnLines (b.fetch name)
  store (name : String) : OnLines (b.store name)
  declare (name : String) : OnLines (b.declare name)
  jumps : ∀ op ∈ [b.jump, b.jumpUnless, b.jumpIf.2], (Opcode.layout op).isJump = true

/-- The jumps of a target are those of its backend. -/
structure JumpWriter.Serves (w : JumpWriter ν) (b : Backend ω ν) : Prop where
  /-- A jump on a true condition is left open, behind what leads up to it. -/
  jumpIf (done : Code ω) (s : GenState ν) :
    w.jumpIf (.after done s)
      = .ok ((done ++ Code.onLine s.line b.jumpIf.1).size + 1,
          .after (done ++ Code.onLine s.line b.jumpIf.1 ++ [.placeholder b.jumpIf.2 s.line]) s)
  /-- A jump back leads over itself and all that was written since the start of the loop. -/
  loopBack (front inner : Code ω) (s : GenState ν) {done : Code ω} (hdone : done = front ++ inner)
    (around : Nat) (haround : around = inner.size + Opcode.width b.loop) :
    Follows done s (fun _ again done' t => t = s ∧ again.size = Opcode.width b.loop ∧
        done' = done ++ again)
      (w.loopBack front.size) (Gen.jumpBy b.loop (-(around : Int)))

namespace Backend

variable {b : Backend ω ν} {w : JumpWriter ν} {done : Code ω} {s : GenState ν}

/-- The jump over a right operand is left open, behind what leads up to it. -/
theorem follows_openShortCut {γ δ : Type} {Q : γ → δ → Code ω → GenState ν → Prop}
    (hw : w.Serves b) (hb : b.Writable) (op : LogicalOp) {g : Nat → Emit ν γ} {m : Gen ν δ}
    (h : Follows (done ++ Code.onLine s.line (b.shortCutLead op)
        ++ [Instr.placeholder (b.shortCutJump op) s.line]) s Q
      (g ((done ++ Code.onLine s.line (b.shortCutLead op)).size + 1)) m) :
    Follows done s Q (b.openShortCut w op >>= g) m := by
  cases op with
  | and =>
    refine .openJump (hb.jumps b.jumpUnless (by simp)) ?_
    simpa [shortCutLead, shortCutJump, Code.onLine] using h
  | or =>
    show Agree Q (Except.bind (w.jumpIf (.after done s)) fun r => g r.1 r.2) (m s)
    rw [hw.jumpIf]
    exact h

/-- A conditional jump that was opened is patched to lead behind what was written since. -/
theorem follows_closeShortCut (hb : b.Writable) (op : LogicalOp) (front back : Code ω)
    {operand : Nat}
    (hdone : done = front ++ Code.onLine s.line (b.shortCutLead op) ++
      Instr.placeholder (b.shortCutJump op) s.line :: back)
    (hoperand : operand = (front ++ Code.onLine s.line (b.shortCutLead op)).size + 1) :
    Follows done s (fun _ cut done' t => t = s ∧ done' = front ++ cut ++ back)
      (b.closeShortCut op operand) (b.shortCut op back.size) := by
  cases op with
  | and =>
    have hlead : front ++ Code.onLine s.line (b.shortCutLead .and) = front := List.append_nil front
    rw [hlead] at hdone hoperand
    refine (follows_closeJump (hb.jumps b.jumpUnless (by simp)) _ back hdone rfl hoperand).mono ?_
    rintro _ _ _ t ⟨rfl, -, rfl⟩
    exact ⟨rfl, rfl⟩
  | or =>
    refine .made ?_
    refine (follows_closeJump (hb.jumps b.jumpIf.2 (by simp)) _ back hdone rfl hoperand).arrange ?_
    rintro _ _ _ t ⟨rfl, -, rfl⟩
    exact ⟨rfl, by simp [shortCutLead]⟩

/-- The code of an expression is written behind what is there. -/
theorem follows_expr (hw : w.Serves b) (hb : b.Writable) (e : Expr) (done : Code ω)
    (s : GenState ν) :
    Follows done s (fun kind x done' _ => x.1 = kind ∧ done' = done ++ x.2) (b.emitExpr w e)
      (b.expr e) := by
  -- on the expression; only the operators with a short cut write a jump before its length is known
  induction e generalizing done s with
  | literal line value =>
    refine .onLine line fun t _ => ?_
    refine (follows_code (hb.literal value)).bind ?_
    rintro _ new _ t rfl
    exact follows_pure ⟨rfl, rfl⟩
  | group line inner ih => exact ih done s
  | unary line op operand ih =>
    refine (ih done s).bind ?_
    rintro kind ⟨_, code⟩ _ t ⟨rfl, rfl⟩
    refine .onLine line fun t _ => ?_
    dsimp only
    generalize StaticKind.ofUnary? op _ = result
    cases result with
    | none => exact follows_throw _
    | some result =>
      refine (follows_code (plain_onLines _)).bind ?_
      rintro _ new _ t rfl
      exact follows_pure ⟨rfl, List.append_assoc _ _ _⟩
  | binary line op left right ihLeft ihRight =>
    refine (ihLeft done s).bind ?_
    rintro leftKind ⟨_, leftCode⟩ _ t ⟨rfl, rfl⟩
    refine (ihRight _ t).bind ?_
    rintro rightKind ⟨_, rightCode⟩ _ t ⟨rfl, rfl⟩
    refine .onLine line fun t _ => ?_
    dsimp only
    generalize StaticKind.ofBinary? b.strings op _ _ = result
    cases result with
    | none => exact follows_throw _
    | some result =>
      refine (follows_code (plain_onLines _)).bind ?_
      rintro _ new _ t rfl
      exact follows_pure ⟨rfl, by simp⟩
  | ident line name =>
    refine .onLine line fun t _ => ?_
    refine (follows_code (hb.fetch name)).bind ?_
    rintro _ new _ t rfl
    exact follows_pure ⟨rfl, rfl⟩
  | assign line name value ih =>
    refine (ih done s).bind ?_
    rintro kind ⟨_, code⟩ _ t ⟨rfl, rfl⟩
    refine .onLine line fun t _ => ?_
    refine (follows_code (hb.store name)).bind ?_
    rintro _ new _ t rfl
    exact follows_pure ⟨rfl, List.append_assoc _ _ _⟩
  | logical line op left right ihLeft ihRight =>
    refine (ihLeft done s).bind ?_
    rintro leftKind ⟨_, leftCode⟩ _ t ⟨rfl, rfl⟩
    refine .onLine line fun t hline => ?_
    refine .plain (.madePlain ?_)
    -- the jump over the right operand is opened in front of it, and closed behind it
    refine follows_openShortCut hw hb op ?_
    refine .plain (.madePlain ?_)
    refine (ihRight _ t).bind ?_
    rintro rightKind ⟨_, rightCode⟩ _ u ⟨rfl, rfl⟩
    refine .onLine line fun u hline' => ?_
    rw [hline, ← hline']
    refine (follows_closeShortCut hb op (done ++ leftCode ++ Code.plain u.line b.keep)
      (Code.plain u.line [b.pop] ++ rightCode) (by simp) rfl).bind ?_
    rintro _ cut _ u ⟨rfl, rfl⟩
    exact follows_pure ⟨rfl, by simp⟩

/-- In one pass, the code of the statement is written behind what is there. -/
def Retraces (b : Backend ω ν) (w : JumpWriter ν) (st : Stmt) : Prop :=
  ∀ done s, Follows done s (fun _ code done' _ => done' = done ++ code) (b.emitStmt w st) (b.stmt st)

/-- The end of a conditional: the jump behind its first branch is closed last. -/
theorem follows_endIf (hb : b.Writable) {condition toElse drop yes no written : Code ω} {operand : Nat}
    (hwritten : written = done ++ (condition ++ toElse ++ drop ++ yes) ++
      Instr.placeholder b.jump s.line :: (drop ++ no))
    (hoperand : operand = (done ++ (condition ++ toElse ++ drop ++ yes)).size + 1) :
    Follows written s (fun _ code done' _ => done' = done ++ code) (closeJump b.jump operand)
      (do
        let toEnd ← Gen.jumpBy b.jump (Code.size (drop ++ no))
        return [condition, toElse, drop, yes, toEnd, drop, no].flatten) := by
  have hjump := hb.jumps b.jump (by simp)
  refine (follows_closeJump hjump _ (drop ++ no) hwritten rfl hoperand).arrange ?_
  rintro _ toEnd _ t ⟨rfl, -, rfl⟩
  simp

/-- With the branch that a conditional may lack set apart, the walk over it can be opened. -/
theorem emitStmt_ifThen (line : Nat) (condition : Expr) (yes : Stmt) (no : Option Stmt) :
    b.emitStmt w (.ifThen line condition yes no) = (do
      let _ ← b.emitExpr w condition
      step (Gen.setLine line)
      let toElse ← openJump b.jumpUnless
      code (Gen.plain b.drop)
      b.emitStmt w yes
      step (Gen.setLine line)
      let toEnd ← openJump b.jump
      closeJump b.jumpUnless toElse
      code (Gen.plain b.drop)
      match no with
      | none => closeJump b.jump toEnd
      | some no => do
          b.emitStmt w no
          step (Gen.setLine line)
          closeJump b.jump toEnd) := by
  cases no <;> rfl

/-- A conditional with or without an else branch. -/
theorem retraces_ifThen (hw : w.Serves b) (hb : b.Writable) {line : Nat} {condition : Expr}
    {yes : Stmt} {no : Option Stmt} (hyes : b.Retraces w yes)
    (hno : ∀ st ∈ no, b.Retraces w st) : b.Retraces w (.ifThen line condition yes no) := by
  intro done s
  rw [emitStmt_ifThen, stmt]
  refine (follows_expr hw hb condition done s).bind ?_
  rintro kind ⟨_, conditionCode⟩ _ t ⟨rfl, rfl⟩
  refine .onLine line fun t ht => ?_
  refine .openJump (hb.jumps b.jumpUnless (by simp)) ?_
  refine .plain (.madePlain ?_)
  refine (hyes _ t).bind ?_
  rintro _ yesCode _ u rfl
  refine .onLine line fun u hu => ?_
  rw [ht, ← hu]
  -- the jump to the second branch leads behind the jump to the end, which is opened first
  refine .openJump (hb.jumps b.jump (by simp)) ?_
  refine (follows_closeJump (hb.jumps b.jumpUnless (by simp)) (done ++ conditionCode)
    (Code.plain u.line b.drop ++ yesCode ++ [Instr.placeholder b.jump u.line]) (by simp) ?_
    rfl).bind ?_
  · simp [Int.add_assoc, Instr.width, Instr.placeholder]
  -- from here on, the jump to the end is the only one open
  rintro _ toElse _ u ⟨rfl, hsize, rfl⟩
  refine .plain ?_
  cases no with
  | none =>
    dsimp only
    rw [pure_bind]
    refine follows_endIf hb ?_ ?_
    · simp
    · simp [hsize, Instr.width, Instr.placeholder]
  | some no =>
    refine (hno no rfl _ u).bind ?_
    rintro _ noCode _ v rfl
    dsimp only
    rw [hu]
    refine .onLine line fun v hv => ?_
    rw [← hv, pure_bind]
    refine follows_endIf hb ?_ ?_
    · simp
    · simp [hsize, Instr.width, Instr.placeholder]

mutual

/-- Every statement is written in one pass as it is generated. -/
theorem retraces_stmt (hw : w.Serves b) (hb : b.Writable) (st : Stmt) : b.Retraces w st := by
  intro done s
  match st with
  | .print line value | .expression line value =>
    refine (follows_expr hw hb value done s).bind ?_
    rintro kind ⟨_, code⟩ _ t ⟨rfl, rfl⟩
    refine .onLine line fun t _ => ?_
    refine (follows_code (plain_onLines _)).arrange ?_
    rintro _ new _ t rfl
    exact List.append_assoc _ _ _
  | .var line name (some initial) =>
    refine (follows_expr hw hb initial done s).bind ?_
    rintro kind ⟨_, code⟩ _ t ⟨rfl, rfl⟩
    refine .onLine line fun t _ => ?_
    refine (follows_code (hb.declare name)).arrange ?_
    rintro _ new _ t rfl
    exact List.append_assoc _ _ _
  | .var line name none =>
    refine .onLine line fun t _ => ?_
    refine .instrs (.made ?_)
    refine (follows_code (hb.declare name)).arrange ?_
    rintro _ new _ t rfl
    exact List.append_assoc _ _ _
  | .block line body =>
    refine (follows_step _).bind ?_
    rintro v _ _ t ⟨rfl, rfl, -⟩
    refine (follows_step _).bind ?_
    rintro _ _ _ t ⟨-, rfl, -⟩
    refine (follows_stmts hw hb body (List.append_nil _).symm t).bind ?_
    rintro _ code _ t rfl
    refine .onLine line fun t _ => ?_
    refine (follows_step _).bind ?_
    rintro v _ _ t ⟨rfl, rfl, -⟩
    refine (follows_step _).bind ?_
    rintro _ _ _ t ⟨-, rfl, -⟩
    refine (follows_code (plain_onLines _)).arrange ?_
    rintro _ new _ t rfl
    exact List.append_assoc _ _ _
  | .ifThen line condition yes none =>
    exact retraces_ifThen hw hb (retraces_stmt hw hb yes) (by simp) done s
  | .ifThen line condition yes (some no) =>
    have hno := retraces_stmt hw hb no
    exact retraces_ifThen hw hb (retraces_stmt hw hb yes) (by simpa using hno) done s
  | .whileDo line condition body =>
    -- the start of the loop is noted, to jump back to it
    refine .offset ?_
    refine (follows_expr hw hb condition done s).bind ?_
    rintro kind ⟨_, conditionCode⟩ _ t ⟨rfl, rfl⟩
    refine .onLine line fun t ht => ?_
    refine .openJump (hb.jumps b.jumpUnless (by simp)) ?_
    refine .plain (.madePlain ?_)
    refine (retraces_stmt hw hb body _ t).bind ?_
    rintro _ bodyCode _ u rfl
    refine .onLine line fun u hu => ?_
    rw [ht, ← hu]
    have hwidth : (Instr.placeholder b.jumpUnless u.line).width = Opcode.width b.jumpUnless := rfl
    -- the jump back leads to the offset that was noted
    refine (hw.loopBack done (conditionCode ++ Instr.placeholder b.jumpUnless u.line ::
      (Code.plain u.line b.drop ++ bodyCode)) u (by simp) _ ?_).bind ?_
    · simp only [Code.size_append, Code.size_cons, hwidth]
      omega
    rintro _ again _ u ⟨rfl, hagain, rfl⟩
    refine (follows_closeJump (hb.jumps b.jumpUnless (by simp)) (done ++ conditionCode)
      (Code.plain u.line b.drop ++ bodyCode ++ again) (by simp) ?_ rfl).bind ?_
    · simp [hagain, Int.add_assoc]
    rintro _ toEnd _ u ⟨rfl, -, rfl⟩
    exact follows_lastPlain (by simp)

/-- Statements are written one after the other, where generation collects their code. -/
theorem follows_stmts (hw : w.Serves b) (hb : b.Writable) (sts : List Stmt)
    {front written : Code ω} {done : List (Code ω)}
    (hwritten : written = front ++ done.reverse.flatten) (s : GenState ν) :
    Follows written s (fun _ code done' _ => done' = front ++ code) (b.emitStmts w sts)
      (b.stmts sts done) := by
  match sts with
  | [] => exact follows_pure hwritten
  | st :: rest =>
    refine (retraces_stmt hw hb st _ s).bind ?_
    rintro _ code _ t rfl
    exact follows_stmts hw hb rest (by simp [hwritten]) t

end

/-- What is written in one pass is what is put together from its parts, with the same errors. -/
theorem emit_eq_assemble {body : Emit ν Unit} {m : Gen ν (Code ω)}
    (hbody : Follows [] b.start (fun _ code done _ => done = code) body m)
    (hlines : ∀ code t, m b.start = .ok (code, t) → ∀ i ∈ code, 0 ≤ i.line) :
    b.emit body = b.assemble m := by
  -- the last instruction is written like the others
  have hemit : b.emit body = (body (.after ([] : Code ω) b.start) >>= fun r =>
      (code (Gen.plain [b.stop]) r.2).map fun r => r.2.chunk) := by
    show ((body (.after ([] : Code ω) b.start) >>= fun r => code (Gen.plain [b.stop]) r.2) >>=
      fun r => pure r.2.chunk) = _
    cases body (.after ([] : Code ω) b.start) with
    | error e => rfl
    | ok r => cases code (Gen.plain [b.stop]) r.2 <;> rfl
  rw [hemit]
  rcases hm : m b.start with e | ⟨new, t⟩
  · rw [hbody.eq_error hm, b.assemble_eq_error hm]
    rfl
  · obtain ⟨_, written, hrun, rfl⟩ := hbody.eq_ok hm
    have hstop : code (Gen.plain [b.stop]) (.after written t)
        = .ok ((), Emitter.after (written ++ Code.plain t.line [b.stop]) t) :=
      code_after (plain_onLines _)
    rw [hrun, b.assemble_eq_ok hm (hlines written t hm)]
    show (code (Gen.plain [b.stop]) (.after written t)).map _ = _
    rw [hstop]
    rfl

/-- One pass over a program with patches gives the chunk that is generated from it. -/
theorem emit_program {Inv : Pool → ν → Prop} (hw : w.Serves b) (hb : b.Writable)
    (hlawful : b.Lawful Inv) (p : Program) : b.emit (b.emitStmts w p) = b.program p := by
  have hnil : ([] : Code ω) = [] ++ ([] : List (Code ω)).reverse.flatten := rfl
  refine emit_eq_assemble (follows_stmts hw hb p hnil b.start) ?_
  intro code t hstmts i hi
  obtain ⟨rest, rfl, hemits⟩ := b.emitsAll_of_stmts hstmts
  have hadds := hlawful.adds_of_emitsAll hemits hlawful.fresh
  exact (hadds.inner i hi).valid.line_nonneg

theorem emit_expression {Inv : Pool → ν → Prop} (hw : w.Serves b) (hb : b.Writable)
    (hlawful : b.Lawful Inv) (e : Expr) :
    b.emit (do let _ ← b.emitExpr w e) = b.expression e := by
  have hbody : Follows [] b.start (fun _ code done _ => done = code)
      (do let _ ← b.emitExpr w e) (do return (← b.expr e).2) := by
    refine (follows_expr hw hb e [] b.start).bind ?_
    rintro kind ⟨_, code⟩ _ t ⟨rfl, rfl⟩
    exact follows_pure rfl
  refine emit_eq_assemble hbody ?_
  intro code t hexpr i hi
  obtain ⟨⟨kind, code'⟩, t', hexpr, hpure⟩ := Gen.bind_eq_ok.mp hexpr
  cases Gen.pure_eq_ok.mp hpure
  have hadds := hlawful.adds_of_emits (b.emits_of_expr hexpr) hlawful.fresh
  exact (hadds.inner i hi).valid.line_nonneg

end Backend

/-! ## Both targets -/

namespace WordOp

/-- The code for the word machine is on lines, and its jumps have wide operands. -/
theorem backend_writable : backend.Writable where
  literal v := by
    intro s code t h
    obtain ⟨word, -, rfl, rfl⟩ := literal_ok h
    exact instrs_onLines [(pushWord, word)] t _ t rfl
  fetch name := bind_onLines fun _ => instrs_onLines _
  store name := bind_onLines fun _ => instrs_onLines _
  declare name := bind_onLines fun _ => instrs_onLines _
  jumps := by decide

/-- The word machine has a jump on a true condition, and patches its jump back at once. -/
theorem jumpWriter_serves : jumpWriter.Serves backend where
  jumpIf done s := by
    have hlead : done ++ Code.onLine s.line backend.jumpIf.1 = done := List.append_nil done
    rw [hlead]
    exact openJump_after jumpIf rfl done s
  loopBack front inner s done hdone around haround := by
    refine .openJump rfl ?_
    have htarget : ((done.size + 3 : Nat) : Int) + -(around : Int) = front.size := by
      have hwidth : Opcode.width backend.loop = 3 := rfl
      rw [hdone, haround, hwidth, Code.size_append]
      omega
    refine (follows_pointTo rfl done [] htarget).mono ?_
    rintro _ again _ t ⟨rfl, hsize, rfl⟩
    exact ⟨rfl, hsize, List.append_nil _⟩

end WordOp

namespace PoolOp

theorem access_onLines (onLocal onGlobal : PoolOp) (name : String) :
    OnLines (access onLocal onGlobal name) := by
  refine bind_onLines fun v => ?_
  cases PoolVars.slotOf? name v.locals with
  | some slot => exact instrs_onLines _
  | none => exact bind_onLines fun _ => instrs_onLines _

/-- The code for the pool machine is on lines, and its jumps have wide operands. -/
theorem backend_writable : backend.Writable where
  literal v := by
    cases v with
    | bool value => cases value <;> exact plain_onLines _
    | nil => exact plain_onLines _
    | int _ | double _ | string _ => exact bind_onLines fun _ => instrs_onLines _
  fetch name := access_onLines _ _ name
  store name := access_onLines _ _ name
  declare name := by
    refine bind_onLines fun v => ?_
    split
    · refine bind_onLines fun _ => ?_
      exact instrs_onLines []
    · exact bind_onLines fun _ => instrs_onLines _
  jumps := by decide

theorem jumpWriter_serves : jumpWriter.Serves backend where
  jumpIf done s := by
    -- the first jump is closed at once, and the second one is left open
    have hopen : Follows done s (fun operand lead done' _ => operand = (done ++ lead).size + 1 ∧
        done' = done ++ lead ++ [Instr.placeholder jump s.line]) jumpWriter.jumpIf
        (Gen.jumpBy jumpIfFalse (Opcode.width jump) >>= pure) := by
      refine .openJump rfl (.openJump rfl ?_)
      refine (follows_closeJump rfl done [Instr.placeholder jump s.line] (by simp) rfl rfl).bind ?_
      rintro _ lead _ t ⟨rfl, hsize, rfl⟩
      refine follows_pure ⟨?_, rfl⟩
      simp [hsize, Instr.width, Instr.placeholder]
    obtain ⟨_, _, hrun, rfl, rfl⟩ := hopen.eq_ok rfl
    exact hrun
  loopBack front inner s done hdone around haround := by
    refine follows_jumpTo rfl ?_
    have hwidth : Opcode.width backend.loop = 3 := rfl
    rw [hdone, haround, hwidth, Code.size_append]
    omega

end PoolOp

namespace Target

/-- Writing the chunk of a program in one pass leaves no placeholder in it: the chunk is the one whose
jumps were made when their lengths were known. Where one way fails, the other one fails with the same
error. -/
theorem emit_eq_generate (target : Target) (p : Program) : target.emit p = target.generate p := by
  cases target with
  | word =>
    exact Backend.emit_program WordOp.jumpWriter_serves WordOp.backend_writable
      WordOp.backend_lawful p
  | pool =>
    exact Backend.emit_program PoolOp.jumpWriter_serves PoolOp.backend_writable
      PoolOp.backend_lawful p

/-- The same for an expression. -/
theorem emitExpr_eq_generateExpr (target : Target) (e : Expr) :
    target.emitExpr e = target.generateExpr e := by
  cases target with
  | word =>
    exact Backend.emit_expression WordOp.jumpWriter_serves WordOp.backend_writable
      WordOp.backend_lawful e
  | pool =>
    exact Backend.emit_expression PoolOp.jumpWriter_serves PoolOp.backend_writable
      PoolOp.backend_lawful e

end Target

end Scriptlet
