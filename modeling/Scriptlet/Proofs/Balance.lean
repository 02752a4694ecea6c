import Scriptlet.Proofs.Grammar
import Scriptlet.Proofs.WellFormed

/-! # Balanced code

Every instruction takes a number of values from the stack and puts a number of values in their place.
A piece of code is balanced from `x` to `y` if each of its offsets can be given a height, with `x` at
its beginning and `y` at its end, such that every instruction finds its operands, every edge of the
control flow leads from a height to the height that the instruction leaves, and no jump leads out of
the piece.

Balanced pieces are put together to larger ones. Where two of them meet, their heights agree, so one
assignment can be made of both; only the jumps that are added last have to be looked at. The machines
differ in whether a conditional jump takes its condition. What they have in common is stated as laws
of a backend, and from these the code of every expression and every statement is balanced.
-/

namespace Scriptlet

variable {ω ν : Type}

/-! ## Effects of instructions -/

/-- What instructions do to the height of the stack. -/
structure Effects (ω : Type) where
  /-- How many values an instruction takes. -/
  pops : ω → Nat
  /-- How many values it leaves in their place. -/
  pushes : ω → Nat
  /-- Can the next instruction be the one behind it? -/
  continues : ω → Bool

/-- Conditional jumps and stores take a value. -/
def WordOp.effects : Effects WordOp where
  pops
    | .pushWord | .getVar | .jump | .stopScript => 0
    | .setVar | .negate | .not | .pop | .dup | .print | .jumpUnless | .jumpIf => 1
    | .add | .sub | .mul | .div | .eq | .neq | .gt | .ge | .lt | .le => 2
  pushes
    | .setVar | .pop | .print | .jumpUnless | .jumpIf | .jump | .stopScript => 0
    | .pushWord | .getVar | .negate | .not => 1
    | .add | .sub | .mul | .div | .eq | .neq | .gt | .ge | .lt | .le => 1
    | .dup => 2
  continues
    | .jump | .stopScript => false
    | _ => true

/-- Conditional jumps and stores leave their value; a definition takes it. -/
def PoolOp.effects : Effects PoolOp where
  pops
    | .constant | .nil | .true_ | .false_ | .getLocal | .getGlobal => 0
    | .jump | .loop | .return_ => 0
    | .pop | .setLocal | .setGlobal | .defineGlobal | .not | .negate | .print | .jumpIfFalse => 1
    | .equal | .greater | .less | .add | .subtract | .multiply | .divide => 2
  pushes
    | .pop | .defineGlobal | .print | .jump | .loop | .return_ => 0
    | .constant | .nil | .true_ | .false_ | .getLocal | .getGlobal => 1
    | .setLocal | .setGlobal | .not | .negate | .jumpIfFalse => 1
    | .equal | .greater | .less | .add | .subtract | .multiply | .divide => 1
  continues
    | .jump | .loop | .return_ => false
    | _ => true

namespace Effects

variable (fx : Effects ω)

/-- The height behind an instruction. -/
def after (op : ω) (height : Nat) : Nat :=
  height - fx.pops op + fx.pushes op

/-- An instruction that leaves the stack as it is, and never continues behind itself: an unconditional
jump, or the end of a program. -/
structure Diverts (op : ω) : Prop where
  pops : fx.pops op = 0
  pushes : fx.pushes op = 0
  continues : fx.continues op = false

theorem Diverts.after_eq {fx : Effects ω} {op : ω} (hop : fx.Diverts op) (x : Nat) :
    fx.after op x = x := by
  rw [after, hop.pops, hop.pushes]
  rfl

variable [Opcode ω]

/-- An instruction at the offset `here` does what the heights say: it finds its operands, and a slot
of the stack that it names, and it leads to the right heights. `total` is the end of the code. -/
structure Obeys (h : Nat → Nat) (here total : Nat) (i : Instr ω) : Prop where
  operands : fx.pops i.op ≤ h here
  slot : Opcode.layout i.op = .byte → 0 ≤ i.arg ∧ i.arg < h here
  next : fx.continues i.op = true → h (here + i.width) = fx.after i.op (h here)
  jump : (Opcode.layout i.op).isJump = true →
    ∃ target : Nat, ((here + i.width : Nat) : Int) + i.arg = target ∧ target ≤ total ∧
      h target = fx.after i.op (h here)

/-- The instructions of some code that begins at the offset `base` do what the heights say. -/
def Placed (h : Nat → Nat) (base total : Nat) (code : Code ω) : Prop :=
  ∀ front i back, code = front ++ i :: back → fx.Obeys h (base + Code.size front) total i

/-- Code has heights, from `x` at its beginning to `y` at its end. -/
def Balanced (code : Code ω) (x y : Nat) : Prop :=
  ∃ h : Nat → Nat, h 0 = x ∧ h (Code.size code) = y ∧ fx.Placed h 0 (Code.size code) code

variable {fx} {h h' : Nat → Nat} {base total : Nat} {code a b : Code ω} {i : Instr ω}

/-- A jump does what the heights say, if it leads inside the code, to the right height. -/
theorem Obeys.of_jump {here : Nat} (target : Nat) (hjump : (Opcode.layout i.op).isJump = true)
    (hoperands : fx.pops i.op ≤ h here)
    (hnext : fx.continues i.op = true → h (here + i.width) = fx.after i.op (h here))
    (htarget : ((here + i.width : Nat) : Int) + i.arg = target) (hinside : target ≤ total)
    (hheight : h target = fx.after i.op (h here)) : fx.Obeys h here total i where
  operands := hoperands
  slot hlayout := by
    rw [hlayout] at hjump
    cases hjump
  next := hnext
  jump _ := ⟨target, htarget, hinside, hheight⟩

theorem Placed.nil (h : Nat → Nat) (base total : Nat) : fx.Placed h base total [] := by
  intro front i back hcode
  simp at hcode

theorem Placed.single (hi : fx.Obeys h base total i) : fx.Placed h base total [i] := by
  intro front j back hcode
  cases front with
  | nil =>
      cases hcode
      exact hi
  | cons _ front => simp at hcode

/-- Code behind other code obeys from where that one ends. -/
theorem Placed.append (ha : fx.Placed h base total a)
    (hb : fx.Placed h (base + Code.size a) total b) : fx.Placed h base total (a ++ b) := by
  intro front i back hcode
  -- The instruction stands in `a` or in `b`.
  rcases List.append_eq_append_iff.mp hcode with ⟨c, rfl, hb'⟩ | ⟨c, rfl, hc⟩
  · have := hb c i back hb'
    simpa [Nat.add_assoc] using this
  · cases c with
    | nil =>
        have := hb [] i back (by simpa using hc.symm)
        simpa using this
    | cons j c =>
        simp only [List.cons_append, List.cons.injEq] at hc
        rcases hc with ⟨rfl, rfl⟩
        exact ha front i c rfl

/-- A piece keeps its heights wherever it is placed. -/
theorem Placed.shift (hcode : fx.Placed h 0 (Code.size code) code)
    (hagree : ∀ o ≤ Code.size code, h' (base + o) = h o) (hinside : base + Code.size code ≤ total) :
    fx.Placed h' base total code := by
  intro front i back heq
  have hi := hcode front i back heq
  rw [Nat.zero_add] at hi
  have hsize : Code.size code = Code.size front + (i.width + Code.size back) := by
    rw [heq, Code.size_append, Code.size_cons]
  -- only the heights within the code matter, and there the two assignments agree
  have hhere : h' (base + Code.size front) = h (Code.size front) := hagree _ (by omega)
  constructor
  · rw [hhere]
    exact hi.operands
  · rw [hhere]
    exact hi.slot
  · intro hcontinues
    rw [hhere, Nat.add_assoc, hagree _ (by omega)]
    exact hi.next hcontinues
  · intro hjump
    rcases hi.jump hjump with ⟨target, htarget, hle, hheight⟩
    refine ⟨base + target, by omega, by omega, ?_⟩
    rw [hhere, hagree _ hle]
    exact hheight

/-! ## Putting pieces together -/

/-- The heights of two pieces, of which the first one ends at the offset `m`. -/
def glue (m : Nat) (h h' : Nat → Nat) (o : Nat) : Nat :=
  if o < m then h o else h' (o - m)

theorem glue_add (m : Nat) (h h' : Nat → Nat) (o : Nat) : glue m h h' (m + o) = h' o := by
  rw [glue, if_neg (by omega), Nat.add_sub_cancel_left]

/-- Where the heights of two pieces meet, it does not matter to which of them the place belongs. -/
theorem glue_of_le {m : Nat} (hmeet : h m = h' 0) {o : Nat} (ho : o ≤ m) : glue m h h' o = h o := by
  unfold glue
  split
  · rfl
  · have : o = m := by omega
    rw [this, Nat.sub_self, hmeet]

theorem glue_zero {m : Nat} (hm : 0 < m) (h h' : Nat → Nat) : glue m h h' 0 = h 0 :=
  if_pos hm

theorem width_pos (i : Instr ω) : 0 < i.width :=
  Opcode.width_pos i.op

theorem Balanced.nil (x : Nat) : fx.Balanced ([] : Code ω) x x :=
  ⟨fun _ => x, rfl, rfl, .nil _ _ _⟩

/-- Pieces of code are balanced together, if the second starts at the height where the first ends.
-/
theorem Balanced.append {x y z : Nat} (ha : fx.Balanced a x y) (hb : fx.Balanced b y z) :
    fx.Balanced (a ++ b) x z := by
  rcases ha with ⟨h, hx, hy, ha⟩
  rcases hb with ⟨h', hy', hz, hb⟩
  have hmeet : h (Code.size a) = h' 0 := hy.trans hy'.symm
  refine ⟨glue (Code.size a) h h', ?_, ?_, ?_⟩
  · rw [glue_of_le hmeet (Nat.zero_le _), hx]
  · rw [Code.size_append, glue_add, hz]
  · refine .append (ha.shift ?_ ?_) (hb.shift ?_ ?_)
    · intro o ho
      rw [Nat.zero_add, glue_of_le hmeet ho]
    · simp
    · intro o _
      rw [Nat.zero_add, glue_add]
    · simp

/-- An instruction that does not jump. -/
theorem Balanced.single {x y : Nat} (hjump : (Opcode.layout i.op).isJump = false)
    (hoperands : fx.pops i.op ≤ x) (hslot : Opcode.layout i.op = .byte → 0 ≤ i.arg ∧ i.arg < x)
    (hy : fx.after i.op x = y) : fx.Balanced [i] x y := by
  have hpos := width_pos i
  refine ⟨glue i.width (fun _ => x) (fun _ => y), glue_zero hpos .., ?_, .single ?_⟩
  · exact glue_add i.width _ _ 0
  · have hhere : glue i.width (fun _ => x) (fun _ => y) 0 = x := glue_zero hpos ..
    constructor
    · rw [hhere]
      exact hoperands
    · rw [hhere]
      exact hslot
    · intro _
      have hnext : glue i.width (fun _ => x) (fun _ => y) (i.width + 0) = y := glue_add ..
      rw [hhere, hy, Nat.zero_add]
      exact hnext
    · intro h
      rw [hjump] at h
      cases h

/-- A jump over some code: to the end of the code, or into it. -/
theorem Balanced.skip {x y : Nat} (ha : fx.Balanced a y y)
    (hjump : (Opcode.layout i.op).isJump = true) (hoperands : fx.pops i.op ≤ x)
    (hy : fx.after i.op x = y) (harg : i.arg = Code.size a) : fx.Balanced (i :: a) x y := by
  rcases ha with ⟨h, hstart, hend, ha⟩
  -- the jump stands alone in front of the heights of what it skips
  let h' := glue i.width (fun _ => x) h
  have hhere : h' 0 = x := glue_zero (width_pos i) ..
  have hinside (o : Nat) : h' (i.width + o) = h o := glue_add ..
  refine ⟨h', hhere, ?_, ?_⟩
  · rw [Code.size_cons, hinside, hend]
  · refine .append (a := [i]) (.single ?_) (ha.shift ?_ ?_)
    · refine .of_jump (i.width + Code.size a) hjump ?_ ?_ ?_ ?_ ?_
      · rw [hhere]
        exact hoperands
      · intro _
        rw [hhere, hy, Nat.zero_add]
        exact (hinside 0).trans hstart
      · omega
      · simp
      · rw [hhere, hy, hinside, hend]
    · intro o _
      rw [← hinside o]
      simp
    · simp

/-- A jump to one of two pieces, and a jump from the end of the first one to the end of the second
one. -/
theorem Balanced.branch {x y z : Nat} {toElse toEnd : Instr ω} (ha : fx.Balanced a y z)
    (hb : fx.Balanced b y z) (hjumpElse : (Opcode.layout toElse.op).isJump = true)
    (hoperands : fx.pops toElse.op ≤ x) (hy : fx.after toElse.op x = y)
    (htoElse : toElse.arg = Code.size a + toEnd.width)
    (hjumpEnd : (Opcode.layout toEnd.op).isJump = true) (hdiverts : fx.Diverts toEnd.op)
    (htoEnd : toEnd.arg = Code.size b) :
    fx.Balanced (toElse :: (a ++ toEnd :: b)) x z := by
  rcases ha with ⟨h, hstart, hend, ha⟩
  rcases hb with ⟨h', hstart', hend', hb⟩
  -- The heights of the four parts, from the last one to the first.
  let tail := glue toEnd.width (fun _ => z) h'
  let whole := glue toElse.width (fun _ => x) (glue (Code.size a) h tail)
  have htail : tail 0 = z := glue_zero (width_pos toEnd) ..
  have hmeet : h (Code.size a) = tail 0 := hend.trans htail.symm
  have hhere : whole 0 = x := glue_zero (width_pos toElse) ..
  have hyes {o : Nat} (ho : o ≤ Code.size a) : whole (toElse.width + o) = h o :=
    (glue_add ..).trans (glue_of_le hmeet ho)
  have hno (o : Nat) :
      whole (toElse.width + (Code.size a + (toEnd.width + o))) = h' o :=
    (glue_add ..).trans ((glue_add ..).trans (glue_add ..))
  refine ⟨whole, hhere, ?_, ?_⟩
  · rw [Code.size_cons, Code.size_append, Code.size_cons, hno, hend']
  · refine .append (a := [toElse]) (.single ?_)
      (.append (ha.shift ?_ ?_) (.append (a := [toEnd]) (.single ?_) (hb.shift ?_ ?_)))
    · refine .of_jump (toElse.width + (Code.size a + (toEnd.width + 0))) hjumpElse
        ?_ ?_ ?_ ?_ ?_
      · rw [hhere]
        exact hoperands
      · intro _
        rw [hhere, hy, Nat.zero_add]
        exact (hyes (Nat.zero_le _)).trans hstart
      · omega
      · simp only [Code.size_append, Code.size_cons]
        omega
      · rw [hhere, hy, hno, hstart']
    · intro o ho
      rw [← hyes ho]
      simp
    · simp only [Code.size_append, Code.size_cons, Code.size_nil]
      omega
    · -- The jump behind `a` does not continue, so the height of `b` may be another one.
      have hheight : whole (toElse.width + Code.size a) = z := (hyes (Nat.le_refl _)).trans hend
      have hoffset : 0 + Code.size [toElse] + Code.size a = toElse.width + Code.size a := by simp
      rw [hoffset]
      refine .of_jump (toElse.width + (Code.size a + (toEnd.width + Code.size b)))
        hjumpEnd ?_ ?_ ?_ ?_ ?_
      · rw [hdiverts.pops]
        exact Nat.zero_le _
      · intro hcontinues
        rw [hdiverts.continues] at hcontinues
        cases hcontinues
      · omega
      · simp only [Code.size_append, Code.size_cons]
        omega
      · rw [hheight, hdiverts.after_eq, hno, hend']
    · intro o _
      rw [← hno o]
      simp [Nat.add_assoc]
    · simp only [Code.size_append, Code.size_cons, Code.size_nil]
      omega

/-- A jump out of a loop, and a jump from the end of its body back to its beginning. -/
theorem Balanced.cycle {x y z : Nat} {condition : Code ω} {toEnd again : Instr ω}
    (hcondition : fx.Balanced condition x y) (ha : fx.Balanced a z x) (hb : fx.Balanced b z x)
    (hjumpEnd : (Opcode.layout toEnd.op).isJump = true) (hoperands : fx.pops toEnd.op ≤ y)
    (hz : fx.after toEnd.op y = z) (htoEnd : toEnd.arg = Code.size a + again.width)
    (hjumpAgain : (Opcode.layout again.op).isJump = true) (hdiverts : fx.Diverts again.op)
    (hagain : again.arg = -(Code.size condition + toEnd.width + toEnd.arg)) :
    fx.Balanced (condition ++ toEnd :: (a ++ again :: b)) x x := by
  rcases hcondition with ⟨h, hstart, hend, hcondition⟩
  rcases ha with ⟨h', hstart', hend', ha⟩
  rcases hb with ⟨h'', hstart'', hend'', hb⟩
  -- The heights of the five parts, from the last one to the first.
  let tail := glue again.width (fun _ => x) h''
  let inside := glue toEnd.width (fun _ => y) (glue (Code.size a) h' tail)
  let whole := glue (Code.size condition) h inside
  have hinside : inside 0 = y := glue_zero (width_pos toEnd) ..
  have htail : tail 0 = x := glue_zero (width_pos again) ..
  have hmeet : h (Code.size condition) = inside 0 := hend.trans hinside.symm
  have hmeet' : h' (Code.size a) = tail 0 := hend'.trans htail.symm
  have hfront {o : Nat} (ho : o ≤ Code.size condition) : whole o = h o := glue_of_le hmeet ho
  have hbody {o : Nat} (ho : o ≤ Code.size a) :
      whole (Code.size condition + (toEnd.width + o)) = h' o :=
    (glue_add ..).trans ((glue_add ..).trans (glue_of_le hmeet' ho))
  have hrest (o : Nat) :
      whole (Code.size condition + (toEnd.width + (Code.size a + (again.width + o)))) = h'' o :=
    (glue_add ..).trans ((glue_add ..).trans ((glue_add ..).trans (glue_add ..)))
  have hfirst : whole 0 = x := (hfront (Nat.zero_le _)).trans hstart
  refine ⟨whole, hfirst, ?_, ?_⟩
  · simp only [Code.size_append, Code.size_cons]
    rw [hrest, hend'']
  · refine .append (hcondition.shift ?_ ?_) (.append (a := [toEnd]) (.single ?_)
      (.append (ha.shift ?_ ?_) (.append (a := [again]) (.single ?_) (hb.shift ?_ ?_))))
    · intro o ho
      rw [Nat.zero_add, hfront ho]
    · simp
    · rw [Nat.zero_add]
      have hheight : whole (Code.size condition) = y := (hfront (Nat.le_refl _)).trans hend
      refine .of_jump
        (Code.size condition + (toEnd.width + (Code.size a + (again.width + 0))))
        hjumpEnd ?_ ?_ ?_ ?_ ?_
      · rw [hheight]
        exact hoperands
      · intro _
        rw [hheight, hz]
        exact (hbody (Nat.zero_le _)).trans hstart'
      · omega
      · simp only [Code.size_append, Code.size_cons]
        omega
      · rw [hheight, hz, hrest, hstart'']
    · intro o ho
      rw [← hbody ho]
      simp [Nat.add_assoc]
    · simp only [Code.size_append, Code.size_cons, Code.size_nil]
      omega
    · -- The jump back: the body ends at the height with which the condition begins.
      have hheight : whole (Code.size condition + (toEnd.width + Code.size a)) = x :=
        (hbody (Nat.le_refl _)).trans hend'
      have hoffset : 0 + Code.size condition + Code.size [toEnd] + Code.size a
          = Code.size condition + (toEnd.width + Code.size a) := by simp [Nat.add_assoc]
      rw [hoffset]
      refine .of_jump 0 hjumpAgain ?_ ?_ ?_ ?_ ?_
      · rw [hdiverts.pops]
        exact Nat.zero_le _
      · intro hcontinues
        rw [hdiverts.continues] at hcontinues
        cases hcontinues
      · omega
      · exact Nat.zero_le _
      · rw [hheight, hdiverts.after_eq, hfirst]
    · intro o _
      rw [← hrest o]
      simp [Nat.add_assoc]
    · simp only [Code.size_append, Code.size_cons, Code.size_nil]
      omega

/-- An instruction that names a slot, a constant or a number. -/
theorem Balanced.onLine {op : ω} {arg : Int} {line x y : Nat}
    (hjump : (Opcode.layout op).isJump = false) (hoperands : fx.pops op ≤ x)
    (hslot : Opcode.layout op = .byte → 0 ≤ arg ∧ arg < x) (hy : fx.after op x = y) :
    fx.Balanced (Code.onLine line [(op, arg)]) x y :=
  .single hjump hoperands hslot hy

/-- An instruction without operand is balanced. -/
theorem Balanced.plain {op : ω} {line x y : Nat} (hlayout : Opcode.layout op = .none)
    (hoperands : fx.pops op ≤ x) (hy : fx.after op x = y) :
    fx.Balanced (Code.plain line [op]) x y :=
  .onLine (by rw [hlayout]; rfl) hoperands (by simp [hlayout]) hy

end Effects

/-! ## Laws of a backend -/

namespace Backend

variable [Opcode ω]

/-- What the instructions of a backend do to the height of the stack, where `base` is the height
between two statements. -/
structure Balances (b : Backend ω ν) (fx : Effects ω) (Inv : Pool → ν → Prop) (base : ν → Nat) :
    Prop where
  literal {v s code t} : b.literal v s = .ok (code, t) → ∀ x, fx.Balanced code x (x + 1)
  fetch {name s code t} : b.fetch name s = .ok (code, t) → Inv s.pool s.vars →
    ∀ x, base s.vars ≤ x → fx.Balanced code x (x + 1)
  store {name s code t} : b.store name s = .ok (code, t) → Inv s.pool s.vars →
    ∀ x, base s.vars ≤ x → fx.Balanced code (x + 1) (x + 1)
  declare {name s code t} : b.declare name s = .ok (code, t) → Inv s.pool s.vars →
    fx.Balanced code (base s.vars + 1) (base t.vars)
  unset (line x) : fx.Balanced (Code.onLine line [b.unset]) x (x + 1)
  unary (op line x) : fx.Balanced (Code.plain line [b.unary op]) (x + 1) (x + 1)
  binary (op line x) : fx.Balanced (Code.plain line (b.binary op)) (x + 2) (x + 1)
  print (line x) : fx.Balanced (Code.plain line [b.print]) (x + 1) x
  pop (line x) : fx.Balanced (Code.plain line [b.pop]) (x + 1) x
  /-- A conditional jump takes its condition, and `drop` takes what it puts in its place. -/
  jumpUnless : fx.pops b.jumpUnless = 1
  drop (line x) : fx.Balanced (Code.plain line b.drop) (x + fx.pushes b.jumpUnless) x
  jump : fx.Diverts b.jump
  loop : fx.Diverts b.loop
  stop : fx.Diverts b.stop
  /-- Whether or not the right operand of a logical operator is skipped, one value is left. -/
  shortCut (op line x) {skipped : Code ω} : fx.Balanced skipped (x + 1) (x + 1) →
    fx.Balanced (Code.plain line b.keep ++
      (Code.onLine line (b.shortCutLead op ++ [(b.shortCutJump op, (Code.size skipped : Int))])
        ++ skipped)) (x + 1) (x + 1)
  enter (v) : base (b.enter v) = base v
  leave (v) : base v = (b.leave v).1 + base (b.leave v).2

/-- Expressions keep the height between statements, and so does every statement that declares nothing.
`Kept` is what the backend has to know of variables for that. -/
structure Steady (b : Backend ω ν) (Inv : Pool → ν → Prop) (Kept : ν → Prop) (base : ν → Nat) :
    Prop where
  enter {v} : Kept v → Kept (b.enter v)
  expr {s e kind code t} : b.Emits s e kind code t → Inv s.pool s.vars →
    base t.vars = base s.vars ∧ (Kept s.vars → Kept t.vars)
  stmt {s st code t} : b.EmitsStmt s st code t → st.placed = true → Inv s.pool s.vars →
    Kept s.vars → Kept t.vars ∧ (st.declares = false → base t.vars = base s.vars)

namespace Balances

variable {b : Backend ω ν} {fx : Effects ω} {Inv : Pool → ν → Prop} {Kept : ν → Prop}
  {base : ν → Nat}

section

variable (hh : b.Balances fx Inv base)

include hh

/-- The height behind a conditional jump, which takes its condition or leaves it. -/
theorem after_jumpUnless (x : Nat) :
    fx.after b.jumpUnless (x + 1) = x + fx.pushes b.jumpUnless := by
  rw [Effects.after, hh.jumpUnless, Nat.add_sub_cancel]

/-- The end of a block takes off what the block has left on the stack. -/
theorem pops (line count x : Nat) :
    fx.Balanced (Code.plain line (List.replicate count b.pop)) (count + x) x := by
  induction count with
  | zero =>
      rw [Nat.zero_add]
      exact .nil x
  | succ count ih =>
      rw [Nat.succ_add]
      exact (hh.pop line (count + x)).append ih

/-- Both ways through a conditional end at one height. -/
theorem conditional (hb : b.Lawful Inv) {line x y : Nat} {condition drop yes no : Code ω}
    {displacement : Int} (hcondition : fx.Balanced condition x (x + 1)) (hyes : fx.Balanced yes x y)
    (hno : fx.Balanced no x y) (hdrop : drop = Code.plain line b.drop)
    (hdisplacement : displacement = Code.size (drop ++ yes) + Opcode.width b.jump) :
    fx.Balanced [condition, Code.onLine line [(b.jumpUnless, displacement)], drop, yes,
      Code.onLine line [(b.jump, (Code.size (drop ++ no) : Int))], drop, no].flatten x y := by
  have hdrop' : fx.Balanced drop (x + fx.pushes b.jumpUnless) x := by
    rw [hdrop]
    exact hh.drop line x
  let toElse : Instr ω := { op := b.jumpUnless, arg := displacement, line }
  let toEnd : Instr ω := { op := b.jump, arg := Code.size (drop ++ no), line }
  -- whether the condition is still on the stack or not, both branches start by evening it out
  have hbranch : fx.Balanced (toElse :: ((drop ++ yes) ++ toEnd :: (drop ++ no))) (x + 1) y := by
    refine .branch (hdrop'.append hyes) (hdrop'.append hno) (hb.jumps _ (by simp [toElse])).1 ?_
      (hh.after_jumpUnless x) hdisplacement (hb.jumps _ (by simp [toEnd])).1 hh.jump rfl
    rw [hh.jumpUnless]
    exact Nat.le_add_left 1 x
  have hwhole := hcondition.append hbranch
  simpa [Code.onLine, toElse, toEnd] using hwhole

/-- The height at the beginning of a loop is the height at the end of its body. -/
theorem cycle (hb : b.Lawful Inv) {line x inside : Nat} {condition drop body : Code ω}
    (hcondition : fx.Balanced condition x (x + 1)) (hbody : fx.Balanced body x x)
    (hdrop : drop = Code.plain line b.drop)
    (hinside : inside = Code.size (drop ++ body) + Opcode.width b.loop) :
    fx.Balanced [condition, Code.onLine line [(b.jumpUnless, (inside : Int))], drop, body,
      Code.onLine line
        [(b.loop, -((Code.size condition + Opcode.width b.jumpUnless + inside : Nat) : Int))],
      drop].flatten x x := by
  have hdrop' : fx.Balanced drop (x + fx.pushes b.jumpUnless) x := by
    rw [hdrop]
    exact hh.drop line x
  let toEnd : Instr ω := { op := b.jumpUnless, arg := inside, line }
  let again : Instr ω :=
    { op := b.loop, arg := -((Code.size condition + Opcode.width b.jumpUnless + inside : Nat) : Int),
      line }
  -- the loop ends at the height at which it starts, so that the jump back fits
  have hwhole : fx.Balanced (condition ++ toEnd :: ((drop ++ body) ++ again :: drop)) x x := by
    refine .cycle hcondition (hdrop'.append hbody) hdrop' (hb.jumps _ (by simp [toEnd])).1 ?_
      (hh.after_jumpUnless x) ?_ (hb.jumps _ (by simp [again])).1 hh.loop ?_
    · rw [hh.jumpUnless]
      exact Nat.le_add_left 1 x
    · simp only [toEnd, hinside]
      rfl
    · simp [toEnd, again, Instr.width]
  simpa [Code.onLine, toEnd, again] using hwhole

/-- The code of an expression leaves one value, on top of whatever is there. -/
theorem of_emits (hb : b.Lawful Inv) (hk : b.Steady Inv Kept base) {s t : GenState ν} {e : Expr}
    {kind : StaticKind} {code : Code ω} (h : b.Emits s e kind code t) (hs : Inv s.pool s.vars)
    {x : Nat} (hx : base s.vars ≤ x) : fx.Balanced code x (x + 1) := by
  induction h generalizing x with
  | literal _ hcode => exact hh.literal hcode x
  | group _ ih => exact ih hs hx
  | unary _ _ _ ih => exact (ih hs hx).append (hh.unary _ _ x)
  | binary hleft _ _ _ ihLeft ihRight =>
      have ht := (hb.adds_of_emits hleft hs).inv
      have hbase := (hk.expr hleft hs).1
      have hright := ihRight ht (x := x + 1) (by omega)
      exact (ihLeft hs hx).append (hright.append (hh.binary _ _ x))
  | ident _ hcode => exact hh.fetch hcode hs x hx
  | assign hvalue _ hstore ih =>
      have ht := (hb.adds_of_emits hvalue hs).inv
      have hbase := (hk.expr hvalue hs).1
      exact (ih hs hx).append (hh.store hstore ht x (Nat.le_trans (Nat.le_of_eq hbase) hx))
  | @logical _ t _ line op _ _ _ _ _ _ skipped hleft _ _ hskipped _ ihLeft ihRight =>
      have ht := (hb.adds_of_emits hleft hs).inv
      have hbase := (hk.expr hleft hs).1
      have hright := ihRight ht (x := x) (Nat.le_trans (Nat.le_of_eq hbase) hx)
      -- the right operand takes the place of the left one, whose value is popped first
      have hskipped' : fx.Balanced skipped (x + 1) (x + 1) := by
        rw [hskipped]
        exact (hh.pop line x).append hright
      have hwhole := (ihLeft hs hx).append (hh.shortCut op line x hskipped')
      simpa using hwhole

end

mutual

/-- The code of a statement leaves the stack as it was, except for declared variables. -/
theorem of_emitsStmt (hh : b.Balances fx Inv base) (hb : b.Lawful Inv)
    (hk : b.Steady Inv Kept base) {s t : GenState ν} {st : Stmt} {code : Code ω}
    (h : b.EmitsStmt s st code t) (hplaced : st.placed = true) (hs : Inv s.pool s.vars)
    (hkept : Kept s.vars) : fx.Balanced code (base s.vars) (base t.vars) := by
  cases h with
  | @print _ _ line _ _ _ hvalue _ =>
      have hbase := (hk.expr hvalue hs).1
      have hcode := hh.of_emits hb hk hvalue hs (Nat.le_refl _)
      have hprint := hcode.append (hh.print line (base s.vars))
      rw [← hbase] at hprint ⊢
      exact hprint
  | @expression _ _ line _ _ _ hvalue _ =>
      have hbase := (hk.expr hvalue hs).1
      have hcode := hh.of_emits hb hk hvalue hs (Nat.le_refl _)
      have hpop := hcode.append (hh.pop line (base s.vars))
      rw [← hbase] at hpop ⊢
      exact hpop
  | var hvalue _ hdeclare =>
      have hbase := (hk.expr hvalue hs).1
      have ht := (hb.adds_of_emits hvalue hs).inv
      have hdeclared := hh.declare hdeclare ht
      have hcode := hh.of_emits hb hk hvalue hs (Nat.le_refl _)
      rw [← hbase] at hcode ⊢
      exact hcode.append hdeclared
  | @varUnset _ _ line _ _ _ hdeclare =>
      have hdeclared := hh.declare hdeclare hs
      exact (hh.unset line (base s.vars)).append hdeclared
  | @block _ t line _ code hbody _ =>
      rw [Stmt.placed] at hplaced
      have hbody := of_emitsAll hh hb hk hbody hplaced (hb.enter hs) (hk.enter hkept)
      have hpops := hh.pops line (b.leave t.vars).1 (base (b.leave t.vars).2)
      rw [← hh.leave t.vars] at hpops
      have hwhole := hbody.append hpops
      rw [show base (s.withVars (b.enter s.vars)).vars = base s.vars from hh.enter s.vars] at hwhole
      exact hwhole
  | @ifThen _ t u v line _ _ _ _ _ _ _ _ _ hcondition _ hyes hno hdrop hjump _ _ =>
      -- neither branch declares, so both end at the height between statements
      rcases Stmt.placed_ifThen.mp hplaced with ⟨⟨hdeclares, hplacedYes⟩, hplacedNo⟩
      have hcode := hh.of_emits hb hk hcondition hs (Nat.le_refl _)
      have ht := (hb.adds_of_emits hcondition hs).inv
      have hkept := (hk.expr hcondition hs).2 hkept
      have hbase : base (t.onLine line).vars = base s.vars := (hk.expr hcondition hs).1
      have hyesCode := of_emitsStmt hh hb hk hyes hplacedYes ht hkept
      have hu := (hb.adds_of_emitsStmt hyes ht).inv
      rcases hk.stmt hyes hplacedYes ht hkept with ⟨hkeptYes, hbaseYes⟩
      have hbaseYes : base (u.onLine line).vars = base s.vars := (hbaseYes hdeclares).trans hbase
      rcases of_emitsElse hh hb hk hno hplacedNo hu hkeptYes with ⟨hnoCode, hbaseNo⟩
      rw [hbase, show base u.vars = base s.vars from hbaseYes] at hyesCode
      rw [hbaseYes] at hnoCode hbaseNo
      rw [hbaseNo]
      exact hh.conditional hb hcode hyesCode hnoCode hdrop (by rw [hjump])
  | @whileDo _ t u line _ _ _ _ _ _ _ hcondition _ hbody hdrop hinside _ _ =>
      -- the body does not declare, so each round starts at the same height
      rcases Stmt.placed_whileDo.mp hplaced with ⟨hdeclares, hplacedBody⟩
      have hcode := hh.of_emits hb hk hcondition hs (Nat.le_refl _)
      have ht := (hb.adds_of_emits hcondition hs).inv
      have hkept := (hk.expr hcondition hs).2 hkept
      have hbase : base (t.onLine line).vars = base s.vars := (hk.expr hcondition hs).1
      have hbodyCode := of_emitsStmt hh hb hk hbody hplacedBody ht hkept
      have hbaseBody : base (u.onLine line).vars = base s.vars :=
        ((hk.stmt hbody hplacedBody ht hkept).2 hdeclares).trans hbase
      rw [hbase, show base u.vars = base s.vars from hbaseBody] at hbodyCode
      rw [hbaseBody]
      exact hh.cycle hb hcode hbodyCode hdrop hinside

/-- An else branch leaves the height as it found it, whether it is there or not. -/
theorem of_emitsElse (hh : b.Balances fx Inv base) (hb : b.Lawful Inv)
    (hk : b.Steady Inv Kept base) {s t : GenState ν} {line : Nat} {no : Option Stmt}
    {code : Code ω} (h : b.EmitsElse line s no code t)
    (hplaced : ∀ st ∈ no, st.declares = false ∧ st.placed = true) (hs : Inv s.pool s.vars)
    (hkept : Kept s.vars) :
    fx.Balanced code (base s.vars) (base s.vars) ∧ base t.vars = base s.vars := by
  cases h with
  | none => exact ⟨.nil _, rfl⟩
  | some hno =>
      rcases hplaced _ rfl with ⟨hdeclares, hplaced⟩
      have hcode := of_emitsStmt hh hb hk hno hplaced hs hkept
      have hbase := (hk.stmt hno hplaced hs hkept).2 hdeclares
      rw [hbase] at hcode
      exact ⟨hcode, hbase⟩

/-- Statements one behind the other lead from the height before the first to the one behind the
last. -/
theorem of_emitsAll (hh : b.Balances fx Inv base) (hb : b.Lawful Inv)
    (hk : b.Steady Inv Kept base) {s t : GenState ν} {sts : List Stmt} {code : Code ω}
    (h : b.EmitsAll s sts code t) (hplaced : Stmt.allPlaced sts = true) (hs : Inv s.pool s.vars)
    (hkept : Kept s.vars) : fx.Balanced code (base s.vars) (base t.vars) := by
  cases h with
  | nil => exact .nil _
  | cons hfirst hrest =>
      rw [Stmt.allPlaced, Bool.and_eq_true] at hplaced
      have hcode := of_emitsStmt hh hb hk hfirst hplaced.1 hs hkept
      have ht := (hb.adds_of_emitsStmt hfirst hs).inv
      have hkept' := (hk.stmt hfirst hplaced.1 hs hkept).1
      exact hcode.append (of_emitsAll hh hb hk hrest hplaced.2 ht hkept')

end

end Balances

end Backend

end Scriptlet
