import Mathlib.Data.List.Forall2
import Scriptlet.Proofs.Backends

/-! # Two runs of code generation on different lines

Line numbers do not decide anything in code generation: they are checked against the lines that code
can carry, and then only passed on. To say so, two runs are compared, one over a program and one
over the same program with other line numbers. A `Relining` is such a change of line numbers. Two
steps run in parallel if from states that agree they either give results that agree, or fail with
the same error on lines that correspond (`Relining.Parallel`). The comparison is closed under
sequence, so it is carried through the walk over a program step by step.

Before the first line is set, the current lines of the two runs have nothing to do with each other.
So it is part of the comparison whether the current line is known to be a line of the program.
-/

namespace Scriptlet

/-! ## Lines in the text -/

namespace Expr

/-- The lines of the nodes of an expression. No code belongs to a group, so its own line is left
out. -/
def lines : Expr → List Nat
  | literal line _ => [line]
  | group _ inner => inner.lines
  | unary line _ operand => line :: operand.lines
  | binary line _ left right => line :: (left.lines ++ right.lines)
  | ident line _ => [line]
  | assign line _ value => line :: value.lines
  | logical line _ left right => line :: (left.lines ++ right.lines)

/-- The expression with other line numbers. -/
def mapLines (f : Nat → Nat) : Expr → Expr
  | literal line value => literal (f line) value
  | group line inner => group (f line) (inner.mapLines f)
  | unary line op operand => unary (f line) op (operand.mapLines f)
  | binary line op left right => binary (f line) op (left.mapLines f) (right.mapLines f)
  | ident line name => ident (f line) name
  | assign line name value => assign (f line) name (value.mapLines f)
  | logical line op left right => logical (f line) op (left.mapLines f) (right.mapLines f)

end Expr

namespace Stmt

mutual

/-- The lines of the nodes of a statement. -/
def lines : Stmt → List Nat
  | print line value => line :: value.lines
  | expression line value => line :: value.lines
  | var line _ none => [line]
  | var line _ (some initial) => line :: initial.lines
  | block line body => line :: linesOfAll body
  | ifThen line condition yes none => line :: (condition.lines ++ yes.lines)
  | ifThen line condition yes (some no) => line :: (condition.lines ++ (yes.lines ++ no.lines))
  | whileDo line condition body => line :: (condition.lines ++ body.lines)

/-- The lines of the nodes of a sequence of statements. -/
def linesOfAll : List Stmt → List Nat
  | [] => []
  | st :: rest => st.lines ++ linesOfAll rest

end

mutual

/-- The statement with other line numbers. -/
def mapLines (f : Nat → Nat) : Stmt → Stmt
  | print line value => print (f line) (value.mapLines f)
  | expression line value => expression (f line) (value.mapLines f)
  | var line name none => var (f line) name none
  | var line name (some initial) => var (f line) name (some (initial.mapLines f))
  | block line body => block (f line) (mapLinesOfAll f body)
  | ifThen line condition yes none => ifThen (f line) (condition.mapLines f) (yes.mapLines f) none
  | ifThen line condition yes (some no) =>
      ifThen (f line) (condition.mapLines f) (yes.mapLines f) (some (no.mapLines f))
  | whileDo line condition body => whileDo (f line) (condition.mapLines f) (body.mapLines f)

/-- The statements with other line numbers. -/
def mapLinesOfAll (f : Nat → Nat) : List Stmt → List Stmt
  | [] => []
  | st :: rest => st.mapLines f :: mapLinesOfAll f rest

end

end Stmt

/-- The lines of the nodes of a program. -/
def Program.lines (p : Program) : List Nat :=
  Stmt.linesOfAll p

/-- The program with other line numbers. -/
def Program.mapLines (f : Nat → Nat) (p : Program) : Program :=
  Stmt.mapLinesOfAll f p

/-! ## Lines of errors and of code -/

namespace GenError

/-- The line that an error names. -/
def line : GenError → Nat
  | undefinedVariable _ line => line
  | tooManyVariables line => line
  | tooManyLocals line => line
  | invalidOperands _ _ line => line
  | tooManyConstants _ line => line
  | unknownLiteral _ _ line => line
  | unknownLine line => line
  | jumpTooLarge _ line => line
  | chunk _ line => line

/-- The error on another line. -/
def mapLine (f : Nat → Nat) : GenError → GenError
  | undefinedVariable name line => undefinedVariable name (f line)
  | tooManyVariables line => tooManyVariables (f line)
  | tooManyLocals line => tooManyLocals (f line)
  | invalidOperands op found line => invalidOperands op found (f line)
  | tooManyConstants limit line => tooManyConstants limit (f line)
  | unknownLiteral value target line => unknownLiteral value target (f line)
  | unknownLine line => unknownLine (f line)
  | jumpTooLarge distance line => jumpTooLarge distance (f line)
  | chunk e line => chunk e (f line)

end GenError

variable {ω ν : Type}

/-- The code with other line numbers. -/
def Code.mapLines (f : Nat → Nat) (code : Code ω) : Code ω :=
  code.map fun i => { i with line := f i.line.toNat }

/-- The chunk with other line numbers. -/
def Chunk.mapLines (f : Nat → Nat) (c : Chunk) : Chunk :=
  { c with lines := c.lines.map fun line => f line.toNat }

namespace Code

variable [Opcode ω] (f : Nat → Nat)

/-- Sizes do not depend on lines, so jumps over code on other lines are as long. -/
theorem size_mapLines (code : Code ω) : Code.size (Code.mapLines f code) = Code.size code := by
  induction code with
  | nil => rfl
  | cons i code ih => exact congrArg (i.width + ·) ih

/-- Bytes do not tell the line of their instruction. -/
theorem bytes_mapLines (code : Code ω) : Code.bytes (Code.mapLines f code) = Code.bytes code := by
  induction code with
  | nil => rfl
  | cons i code ih => exact congrArg (i.bytes ++ ·) ih

/-- The lines of the bytes change as those of their instructions. -/
theorem lines_mapLines (code : Code ω) :
    Code.lines (Code.mapLines f code) = (Code.lines code).map fun line => (f line.toNat : Int) := by
  induction code with
  | nil => rfl
  | cons i code ih =>
    show List.replicate i.width (f i.line.toNat : Int) ++ Code.lines (Code.mapLines f code)
      = (List.replicate i.width i.line ++ Code.lines code).map _
    rw [List.map_append, List.map_replicate, ih]

end Code

/-- A chunk of code on other lines is the chunk of the code, on other lines. -/
theorem Chunk.ofCode_mapLines [Opcode ω] (f : Nat → Nat) (pool : Pool) (code : Code ω) :
    Chunk.ofCode pool (Code.mapLines f code) = (Chunk.ofCode pool code).mapLines f := by
  simp [Chunk.ofCode, Chunk.mapLines, Code.bytes_mapLines, Code.lines_mapLines]

/-- A change of line numbers. The lines in use and those that they become can all be carried by
code. -/
structure Relining where
  used : Nat → Prop
  map : Nat → Nat
  carries {line : Nat} (h : used line) : Gen.Carries line
  carries_map {line : Nat} (h : used line) : Gen.Carries (map line)

namespace Relining

variable (χ : Relining)

/-- The code is on lines in use, and the other code is the same on the lines that these become. -/
structure Codes (code code' : Code ω) : Prop where
  eq : code' = code.mapLines χ.map
  used : ∀ i ∈ code, ∃ line : Nat, χ.used line ∧ i.line = line

section Codes

variable {χ} {front front' back back' : Code ω}

theorem Codes.nil : χ.Codes ([] : Code ω) [] :=
  ⟨rfl, fun _ hi => absurd hi List.not_mem_nil⟩

/-- Codes that agree can be put one behind the other. -/
theorem Codes.append (h : χ.Codes front front') (h' : χ.Codes back back') :
    χ.Codes (front ++ back) (front' ++ back') := by
  constructor
  · rw [h.eq, h'.eq, Code.mapLines, Code.mapLines, Code.mapLines, List.map_append]
  · intro i hi
    rcases List.mem_append.mp hi with hi | hi
    · exact h.used i hi
    · exact h'.used i hi

/-- Any number of codes that agree can be put one behind the other. -/
theorem Codes.flatten {codes codes' : List (Code ω)} (h : List.Forall₂ χ.Codes codes codes') :
    χ.Codes codes.flatten codes'.flatten := by
  induction h with
  | nil => exact .nil
  | cons hcode _ ih => exact hcode.append ih

/-- Instructions on a line in use agree with the same instructions on the line that it becomes. -/
theorem Codes.onLine {line : Nat} (h : χ.used line) (ops : List (ω × Int)) :
    χ.Codes (Code.onLine line ops) (Code.onLine (χ.map line) ops) := by
  constructor
  · simp [Code.onLine, Code.mapLines]
  · intro i hi
    obtain ⟨⟨op, arg⟩, -, rfl⟩ := List.mem_map.mp hi
    exact ⟨line, h, rfl⟩

/-- Code on lines in use can be written. -/
theorem Codes.line_nonneg (h : χ.Codes front front') : ∀ i ∈ front, 0 ≤ i.line := by
  intro i hi
  obtain ⟨line, -, hline⟩ := h.used i hi
  rw [hline]
  exact Int.natCast_nonneg line

/-- So can the code on the lines that these become. -/
theorem Codes.line_nonneg_map (h : χ.Codes front front') : ∀ i ∈ front', 0 ≤ i.line := by
  intro i hi
  rw [h.eq] at hi
  obtain ⟨j, -, rfl⟩ := List.mem_map.mp hi
  exact Int.natCast_nonneg _

/-- Codes that agree have the same size. -/
theorem Codes.size_eq [Opcode ω] (h : χ.Codes front front') : front'.size = front.size := by
  rw [h.eq]
  exact Code.size_mapLines χ.map front

end Codes

/-- The states agree but for their lines. If the current line is `known`, it is in use and becomes
that of the other state. -/
structure States (known : Prop) (s t : GenState ν) : Prop where
  pool : t.pool = s.pool
  vars : t.vars = s.vars
  line (h : known) : χ.used s.line ∧ t.line = χ.map s.line

/-- Both steps succeed, with results that `R` relates and states that agree, or both fail with the
same error on lines that correspond. -/
inductive Outcomes {α : Type} (known : Prop) (R : α → α → Prop) :
    Except GenError (α × GenState ν) → Except GenError (α × GenState ν) → Prop where
  | ok {a a' : α} {s t : GenState ν} (hresult : R a a') (hstates : χ.States known s t) :
      Outcomes known R (.ok (a, s)) (.ok (a', t))
  | error {e : GenError} (h : χ.used e.line) :
      Outcomes known R (.error e) (.error (e.mapLine χ.map))

/-- From states that agree, the two steps have outcomes that agree. It is said whether the current
line is known before and after them. -/
def Parallel {α : Type} (before after : Prop) (R : α → α → Prop) (m m' : Gen ν α) : Prop :=
  ∀ s t, χ.States before s t → χ.Outcomes after R (m s) (m' t)

section Steps

variable {χ} {α β : Type} {before after known : Prop} {R : α → α → Prop}

theorem States.loosen {s t : GenState ν} (h : χ.States True s t) : χ.States known s t :=
  ⟨h.pool, h.vars, fun _ => h.line trivial⟩

/-- Both runs may remember something else of variables, if it is the same. -/
theorem States.withVars {s t : GenState ν} (h : χ.States known s t) (v : ν) :
    χ.States known (s.withVars v) (t.withVars v) :=
  ⟨h.pool, rfl, h.line⟩

theorem Outcomes.loosen {x y : Except GenError (α × GenState ν)} (h : χ.Outcomes True R x y) :
    χ.Outcomes known R x y := by
  cases h with
  | ok hresult hstates => exact .ok hresult hstates.loosen
  | error herror => exact .error herror

/-- The line may be forgotten. -/
theorem Parallel.loosen {m m' : Gen ν α} (h : χ.Parallel before True R m m') :
    χ.Parallel before known R m m' :=
  fun s t hst => (h s t hst).loosen

theorem pure_parallel {a a' : α} (h : R a a') :
    χ.Parallel known known R (pure a : Gen ν α) (pure a') :=
  fun _ _ hst => .ok h hst

/-- Outcomes that agree are gone on from by steps that run in parallel. -/
theorem Outcomes.bind {Q : β → β → Prop} {x y : Except GenError (α × GenState ν)}
    {g g' : α → Gen ν β} (h : χ.Outcomes known R x y)
    (hg : ∀ a a', R a a' → χ.Parallel known after Q (g a) (g' a')) :
    χ.Outcomes after Q (x >>= fun r => g r.1 r.2) (y >>= fun r => g' r.1 r.2) := by
  cases h with
  | ok hresult hstates => exact hg _ _ hresult _ _ hstates
  | error herror => exact .error herror

/-- Steps in sequence run in parallel, if they do so one by one. -/
theorem Parallel.bind {Q : β → β → Prop} {m m' : Gen ν α} {g g' : α → Gen ν β}
    (hm : χ.Parallel before known R m m')
    (hg : ∀ a a', R a a' → χ.Parallel known after Q (g a) (g' a')) :
    χ.Parallel before after Q (m >>= g) (m' >>= g') :=
  fun s t hst => (hm s t hst).bind hg

theorem vars_parallel : χ.Parallel known known Eq (Gen.vars : Gen ν ν) Gen.vars :=
  fun _ _ hst => .ok hst.vars.symm hst

theorem setVars_parallel (v : ν) :
    χ.Parallel known known Eq (Gen.setVars v) (Gen.setVars v) :=
  fun _ _ hst => .ok rfl (hst.withVars v)

/-- Setting a line in use makes the line known. -/
theorem setLine_parallel {line : Nat} (h : χ.used line) :
    χ.Parallel before True Eq (Gen.setLine line : Gen ν Unit) (Gen.setLine (χ.map line)) := by
  intro s t hst
  have hset : (Gen.setLine line : Gen ν Unit) s = .ok ((), s.onLine line) :=
    Gen.setLine_eq_ok (χ.carries h) s
  have hset' : (Gen.setLine (χ.map line) : Gen ν Unit) t = .ok ((), t.onLine (χ.map line)) :=
    Gen.setLine_eq_ok (χ.carries_map h) t
  rw [hset, hset']
  exact .ok rfl ⟨hst.pool, hst.vars, fun _ => ⟨h, rfl⟩⟩

/-- What is done on a line in use may rely on the line. -/
theorem Parallel.onLine {line : Nat} {m m' : Gen ν α} (h : χ.used line)
    (hm : χ.Parallel True after R m m') :
    χ.Parallel before after R (Gen.setLine line >>= fun _ => m)
      (Gen.setLine (χ.map line) >>= fun _ => m') :=
  (setLine_parallel h).bind fun _ _ _ => hm

/-- Instructions are made on the current line, so this has to be known. -/
theorem instrs_parallel (ops : List (ω × Int)) :
    χ.Parallel True True χ.Codes (Gen.instrs ops : Gen ν (Code ω)) (Gen.instrs ops) := by
  intro s t hst
  obtain ⟨hused, hline⟩ := hst.line trivial
  have hcodes : χ.Codes (Code.onLine s.line ops) (Code.onLine t.line ops) := by
    rw [hline]
    exact .onLine hused ops
  exact .ok hcodes hst

/-- Instructions with an operand that both runs have found. -/
theorem Parallel.bind_instrs {m : Gen ν Nat} (hm : χ.Parallel True True Eq m m)
    (ops : Nat → List (ω × Int)) :
    χ.Parallel True True χ.Codes (m >>= fun n => Gen.instrs (ops n))
      (m >>= fun n => Gen.instrs (ops n)) := by
  refine hm.bind ?_
  rintro n _ rfl
  exact instrs_parallel _

theorem plain_parallel (ops : List ω) :
    χ.Parallel True True χ.Codes (Gen.plain ops : Gen ν (Code ω)) (Gen.plain ops) :=
  instrs_parallel _

/-- An error on a line in use moves with the line. -/
theorem throw_parallel {e : GenError} (h : χ.used e.line) :
    χ.Parallel before after R (throw e : Gen ν α) (throw (e.mapLine χ.map)) :=
  fun _ _ _ => .error h

/-- An error that names the current line moves with it. -/
theorem failHere_parallel {error : Nat → GenError}
    (h : ∀ line, (error line).line = line ∧ (error line).mapLine χ.map = error (χ.map line)) :
    χ.Parallel True after R (Gen.failHere error : Gen ν α) (Gen.failHere error) := by
  intro s t hst
  -- the error is on the current line, which both runs have set alike
  obtain ⟨hused, hline⟩ := hst.line trivial
  have hfail : (Gen.failHere error : Gen ν α) t = .error ((error s.line).mapLine χ.map) := by
    rw [(h s.line).2, ← hline]
    rfl
  rw [hfail]
  refine .error ?_
  rw [(h s.line).1]
  exact hused

/-- A jump fits its operand in both runs or in none, and its error is on the current line. -/
theorem jumpBy_parallel [Opcode ω] (op : ω) (displacement : Int) :
    χ.Parallel True True χ.Codes (Gen.jumpBy op displacement : Gen ν (Code ω))
      (Gen.jumpBy op displacement) := by
  unfold Gen.jumpBy
  dsimp only
  split
  · exact instrs_parallel _
  · exact failHere_parallel fun _ => ⟨rfl, rfl⟩

/-- Both runs have the same constants, and they run out of room together. -/
theorem addConstant_parallel (v : Value) :
    χ.Parallel True True Eq (Gen.addConstant v : Gen ν Nat) (Gen.addConstant v) := by
  intro s t hst
  rw [Gen.addConstant_eq, Gen.addConstant_eq, hst.pool]
  split
  · exact .ok rfl ⟨rfl, hst.vars, hst.line⟩
  · obtain ⟨hused, hline⟩ := hst.line trivial
    rw [hline]
    exact .error (e := .tooManyConstants Pool.limit s.line) hused

end Steps

end Relining

end Scriptlet
