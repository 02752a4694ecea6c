import Scriptlet.Proofs.Failures
import Scriptlet.Proofs.WellFormed

/-! # What a program demands of its backend

The walk over a program leaves constants and variables to its backend: it turns to it for a literal, for
an access to a variable, for a declaration, and at both ends of a block. These demands can be read off
the text of the program (`Stmt.demandsOfAll`), and nothing but them changes the pool and what is known of
variables. So the walk comes through the states that it would come through if the demands were met one
after the other (`Backend.meetAll`), up to the line that the code to come belongs to.

An error of the backend is the error of a demand that it cannot meet, behind demands that it has met. The
invariant of a lawful backend holds there.

## Main statement

* `Backend.Lawful.stopsAt_of_program`: where a backend makes the walk over a program fail, the demands
  stop at one that the backend cannot meet.
-/

namespace Scriptlet

/-- What the walk over a program turns to its backend for. -/
inductive Demand where
  | literal (value : Value)
  | fetch (name : String)
  | store (name : String)
  | declare (name : String)
  | enter
  | leave
deriving DecidableEq, Repr

/-- The demands of an expression with their lines, in the order of the walk. -/
def Expr.demands : Expr → List (Nat × Demand)
  | literal line value => [(line, .literal value)]
  | group _ inner => inner.demands
  | unary _ _ operand => operand.demands
  | binary _ _ left right => left.demands ++ right.demands
  | ident line name => [(line, .fetch name)]
  | assign line name value => value.demands ++ [(line, .store name)]
  | logical _ _ left right => left.demands ++ right.demands

mutual

/-- The demands of a statement. -/
def Stmt.demands : Stmt → List (Nat × Demand)
  | .print _ value => value.demands
  | .expression _ value => value.demands
  | .var line name none => [(line, .declare name)]
  | .var line name (some initial) => initial.demands ++ [(line, .declare name)]
  | .block line body => (line, .enter) :: (Stmt.demandsOfAll body ++ [(line, .leave)])
  | .ifThen _ condition yes none => condition.demands ++ yes.demands
  | .ifThen _ condition yes (some no) => condition.demands ++ (yes.demands ++ no.demands)
  | .whileDo _ condition body => condition.demands ++ body.demands

/-- The demands of a sequence of statements. -/
def Stmt.demandsOfAll : List Stmt → List (Nat × Demand)
  | [] => []
  | st :: rest => st.demands ++ Stmt.demandsOfAll rest

end

/-- Is it an error of a backend, and not of the walk itself? -/
def GenError.ofBackend : GenError → Bool
  | unknownLine _ | invalidOperands _ _ _ | jumpTooLarge _ _ | chunk _ _ => false
  | _ => true

namespace Backend

variable {ω ν : Type} (b : Backend ω ν)

/-- What a backend does for a demand. -/
def meet : Demand → Gen ν (Code ω)
  | .literal value => b.literal value
  | .fetch name => b.fetch name
  | .store name => b.store name
  | .declare name => b.declare name
  | .enter => do
      Gen.setVars (b.enter (← Gen.vars))
      return []
  | .leave => do
      let (count, outer) := b.leave (← Gen.vars)
      Gen.setVars outer
      Gen.plain (List.replicate count b.pop)

/-- Meets demands one after the other, each of them on its line. -/
def meetAll : List (Nat × Demand) → Gen ν (Code ω)
  | [] => return []
  | (line, d) :: rest => do
      modify (·.onLine line)
      let code ← b.meet d
      return code ++ (← meetAll rest)

/-- Demands of the program are met up to one that the backend cannot meet. In front of it are the demands
`front`, which have led to the code `code` and to the state `s`. -/
def StopsAt (p : Program) (error : GenError) (front : List (Nat × Demand)) (code : Code ω)
    (s : GenState ν) : Prop :=
  ∃ line d back, Stmt.demandsOfAll p = front ++ (line, d) :: back ∧
    b.meetAll front b.start = .ok (code, s) ∧ b.meet d (s.onLine line) = .error error

variable {b} {d : Demand} {front back rest : List (Nat × Demand)} {line : Nat}
  {s t u : GenState ν} {code : Code ω} {error : GenError}

/-! ## Demands one after the other -/

theorem meetAll_cons :
    b.meetAll ((line, d) :: rest) s
      = (do let code ← b.meet d; return code ++ (← b.meetAll rest) : Gen ν (Code ω))
          (s.onLine line) :=
  rfl

/-- The first demand is met on its line, and then the others. -/
theorem meetAll_cons_eq_ok :
    b.meetAll ((line, d) :: rest) s = .ok (code, u) ↔
      ∃ first t more, b.meet d (s.onLine line) = .ok (first, t) ∧
        b.meetAll rest t = .ok (more, u) ∧ code = first ++ more := by
  rw [meetAll_cons]
  constructor
  · intro h
    obtain ⟨first, t, hfirst, h⟩ := Gen.bind_eq_ok.mp h
    obtain ⟨more, v, hmore, h⟩ := Gen.bind_eq_ok.mp h
    cases Gen.pure_eq_ok.mp h
    exact ⟨first, t, more, hfirst, hmore, rfl⟩
  · rintro ⟨first, t, more, hfirst, hmore, rfl⟩
    exact Gen.bind_eq_ok.mpr ⟨first, t, hfirst, Gen.bind_eq_ok.mpr ⟨more, u, hmore, rfl⟩⟩

/-- Demands can be met in two parts. -/
theorem meetAll_append (front back : List (Nat × Demand)) :
    b.meetAll (front ++ back)
      = (do let code ← b.meetAll front; return code ++ (← b.meetAll back)) := by
  -- on the demands in front, of which each sets its own line
  induction front with
  | nil => simp [meetAll]
  | cons first rest ih =>
    simp only [List.cons_append, meetAll, ih, bind_assoc, pure_bind, List.append_assoc]

/-- Demands fail at one of them, behind those that are met. -/
theorem meetAll_eq_error {ds : List (Nat × Demand)} (h : b.meetAll ds s = .error error) :
    ∃ front line d back code t, ds = front ++ (line, d) :: back ∧
      b.meetAll front s = .ok (code, t) ∧ b.meet d (t.onLine line) = .error error := by
  induction ds generalizing s with
  | nil => cases h
  | cons first rest ih =>
    obtain ⟨line, d⟩ := first
    rw [meetAll_cons] at h
    rcases Gen.bind_eq_error h with hfirst | ⟨code, t, hfirst, h⟩
    · exact ⟨[], line, d, rest, [], s, rfl, rfl, hfirst⟩
    obtain ⟨front, line', d', back, codes, u, rfl, hfront, hfails⟩ := ih (Gen.map_eq_error h)
    refine ⟨(line, d) :: front, line', d', back, code ++ codes, u, rfl, ?_, hfails⟩
    exact meetAll_cons_eq_ok.mpr ⟨code, t, codes, hfirst, hfront, rfl⟩

/-- From the state `s`, whatever its line, demands can be met, and this leads to the state `t`, up to the
line. -/
def Meets (b : Backend ω ν) (ds : List (Nat × Demand)) (s t : GenState ν) : Prop :=
  ∀ line, ∃ code line', b.meetAll ds (s.onLine line) = .ok (code, t.onLine line')

/-- From the state `s`, whatever its line, demands end in an error. -/
def Denies (b : Backend ω ν) (ds : List (Nat × Demand)) (s : GenState ν) (error : GenError) : Prop :=
  ∀ line, b.meetAll ds (s.onLine line) = .error error

namespace Meets

theorem nil : b.Meets [] s s := by
  intro line
  exact ⟨[], line, rfl⟩

/-- The line behind demands that are met does not matter. -/
theorem onLine (h : b.Meets front s t) (line : Nat) : b.Meets front s (t.onLine line) :=
  h

theorem single (h : b.meet d (s.onLine line) = .ok (code, t)) : b.Meets [(line, d)] s t := by
  intro line'
  exact ⟨code ++ [], t.line, meetAll_cons_eq_ok.mpr ⟨code, t, [], h, rfl, rfl⟩⟩

theorem enter : b.Meets [(line, .enter)] s (s.withVars (b.enter s.vars)) := by
  intro line'
  exact ⟨[], line, rfl⟩

/-- Demands that are met one after the other are met together. -/
theorem append (h : b.Meets front s t) (h' : b.Meets back t u) : b.Meets (front ++ back) s u := by
  intro line
  obtain ⟨code, line₁, hfront⟩ := h line
  obtain ⟨codes, line₂, hback⟩ := h' line₁
  refine ⟨code ++ codes, line₂, ?_⟩
  rw [meetAll_append]
  exact Gen.bind_eq_ok.mpr ⟨code, _, hfront, Gen.bind_eq_ok.mpr ⟨codes, _, hback, rfl⟩⟩

/-- What is denied behind demands that are met is denied in all. -/
theorem denies (h : b.Meets front s t) (hback : b.Denies back t error) :
    b.Denies (front ++ back) s error := by
  intro line
  obtain ⟨code, line', hfront⟩ := h line
  rw [meetAll_append, Gen.bind_eq_of_ok hfront]
  exact Gen.bind_eq_of_error (hback line')

end Meets

namespace Denies

/-- The line in front of demands does not matter, as each of them has its own. -/
theorem of_onLine (h : b.Denies front (s.onLine line) error) : b.Denies front s error :=
  h

theorem single (h : b.meet d (s.onLine line) = .error error) : b.Denies [(line, d)] s error := by
  intro line'
  rw [meetAll_cons]
  exact Gen.bind_eq_of_error h

/-- What comes behind a demand that is denied is never looked at. -/
theorem append (h : b.Denies front s error) (back : List (Nat × Demand)) :
    b.Denies (front ++ back) s error := by
  intro line
  rw [meetAll_append]
  exact Gen.bind_eq_of_error (h line)

end Denies

variable [Opcode ω]

/-! ## Demands that the walk has met -/

/-- An expression that has code has its demands met. -/
theorem meets_of_expr {e : Expr} {kind : StaticKind} (h : b.Emits s e kind code t) :
    b.Meets e.demands s t := by
  induction h with
  | literal _ hcode => exact .single hcode
  | group _ ih => exact ih
  | unary _ _ _ ih => exact ih
  | binary _ _ _ _ ihLeft ihRight => exact ihLeft.append ihRight
  | ident _ hcode => exact .single hcode
  | assign _ _ hstore ih => exact ih.append (.single hstore)
  | logical _ _ _ _ _ ihLeft ihRight => exact ihLeft.append ihRight

mutual

/-- Where the walk over a statement succeeds, it has met the demands of the statement. -/
theorem meets_of_stmt {st : Stmt} {s t : GenState ν} {code : Code ω}
    (h : b.EmitsStmt s st code t) : b.Meets st.demands s t := by
  cases h with
  | print hvalue _ => exact (meets_of_expr hvalue).onLine _
  | expression hvalue _ => exact (meets_of_expr hvalue).onLine _
  | var hvalue _ hdeclare => exact (meets_of_expr hvalue).append (.single hdeclare)
  | varUnset _ hdeclare => exact .single hdeclare
  | block hbody _ =>
    rw [Stmt.demands]
    exact Meets.enter.append ((meets_of_stmts hbody).append (.single rfl))
  | ifThen hcondition _ hyes hno =>
    cases hno with
    | none =>
      rw [Stmt.demands]
      exact ((meets_of_expr hcondition).onLine _).append ((meets_of_stmt hyes).onLine _)
    | some hno =>
      rw [Stmt.demands]
      exact ((meets_of_expr hcondition).onLine _).append
        (((meets_of_stmt hyes).onLine _).append ((meets_of_stmt hno).onLine _))
  | whileDo hcondition _ hbody =>
    rw [Stmt.demands]
    exact ((meets_of_expr hcondition).onLine _).append ((meets_of_stmt hbody).onLine _)

/-- Statements that have code have their demands met. -/
theorem meets_of_stmts {sts : List Stmt} {s t : GenState ν} {code : Code ω}
    (h : b.EmitsAll s sts code t) : b.Meets (Stmt.demandsOfAll sts) s t := by
  cases h with
  | nil => exact .nil
  | cons hfirst hrest =>
    rw [Stmt.demandsOfAll]
    exact (meets_of_stmt hfirst).append (meets_of_stmts hrest)

end

/-! ## Demands that the walk has failed on -/

/-- An expression that fails at itself, for a reason of the backend, fails at its last demand. -/
theorem denies_of_failsAt {e : Expr} (h : b.FailsAt s e error) (herror : error.ofBackend = true) :
    b.Denies e.demands s error := by
  cases h with
  | line | unary | binary | logical => cases herror
  | literal hcode => exact .single hcode
  | ident hcode => exact .single hcode
  | assign hvalue hstore => exact (meets_of_expr hvalue).denies (.single hstore)

/-- An expression that fails for a reason of the backend has its demands denied. -/
theorem denies_of_expr {e : Expr} (h : b.expr e s = .error error)
    (herror : error.ofBackend = true) : b.Denies e.demands s error := by
  -- The induction is on the way to the failing node: operands in front of it have been met, and what is
  -- behind it is never reached.
  have hfails := b.failsIn_of_expr h
  clear h
  induction hfails with
  | here hfails => exact denies_of_failsAt hfails herror
  | group _ ih => exact ih herror
  | unary _ ih => exact ih herror
  | binaryLeft _ ih => exact (ih herror).append _
  | binaryRight hleft _ ih => exact (meets_of_expr hleft).denies (ih herror)
  | assign _ ih => exact (ih herror).append _
  | logicalLeft _ ih => exact (ih herror).append _
  | logicalRight hleft _ ih => exact ((meets_of_expr hleft).onLine _).denies (ih herror)

/-- A walk that goes on behind an expression fails at the demands of the expression or at those to come. -/
theorem denies_of_expr_bind {β : Type} {e : Expr} {f : StaticKind × Code ω → Gen ν β}
    (h : (b.expr e >>= f) s = .error error) (herror : error.ofBackend = true)
    (hback : ∀ x t, f x t = .error error → b.Denies back t error) :
    b.Denies (e.demands ++ back) s error := by
  rcases Gen.bind_eq_error h with hvalue | ⟨⟨kind, code⟩, t, hvalue, h⟩
  · exact (denies_of_expr hvalue herror).append back
  · exact (meets_of_expr (b.emits_of_expr hvalue)).denies (hback _ t h)

/-- An error of a backend does not come from a line. -/
theorem error_behind_setLine {β : Type} {f : Unit → Gen ν β}
    (h : (Gen.setLine line >>= f) s = .error error) (herror : error.ofBackend = true) :
    f () (s.onLine line) = .error error := by
  rcases Gen.setLine_bind_eq_error h with ⟨-, rfl⟩ | h
  · cases herror
  · exact h

/-- An error of a backend does not come from a jump. -/
theorem error_behind_jumpBy {β : Type} {op : ω} {displacement : Int} {f : Code ω → Gen ν β}
    (h : (Gen.jumpBy op displacement >>= f) s = .error error) (herror : error.ofBackend = true) :
    ∃ code, f code s = .error error := by
  rcases Gen.bind_eq_error h with hjump | ⟨code, t, hjump, h⟩
  · obtain ⟨-, rfl⟩ := Gen.jumpBy_eq_error hjump
    cases herror
  · obtain ⟨-, hjump⟩ := Gen.jumpBy_bind_eq_ok (f := pure).mp (by simpa using hjump)
    cases Gen.pure_eq_ok.mp hjump
    exact ⟨_, h⟩

mutual

/-- Where a backend makes the walk over a statement fail, it denies the demands of the statement. -/
theorem denies_of_stmt {st : Stmt} {s : GenState ν} {error : GenError}
    (h : b.stmt st s = .error error) (herror : error.ofBackend = true) :
    b.Denies st.demands s error := by
  match st with
  | .print line value | .expression line value =>
    rcases Gen.bind_eq_error h with hvalue | ⟨⟨_, _⟩, t, -, h⟩
    · exact denies_of_expr hvalue herror
    · cases error_behind_setLine h herror
  | .var line name (some initial) =>
    rw [Stmt.demands]
    refine denies_of_expr_bind h herror fun _ t h => ?_
    exact .single (Gen.map_eq_error (error_behind_setLine h herror))
  | .var line name none =>
    have h := Gen.instrs_bind_eq_error.mp (error_behind_setLine h herror)
    exact .single (Gen.map_eq_error h)
  | .block line body =>
    rw [Stmt.demands]
    have h := Gen.vars_bind_eq_error.mp h
    have h := Gen.setVars_bind_eq_error.mp h
    apply Meets.enter.denies
    rcases Gen.bind_eq_error h with hbody | ⟨code, t, -, h⟩
    · exact (denies_of_stmts hbody herror).append _
    · cases error_behind_setLine h herror
  | .ifThen line condition yes none =>
    rw [Stmt.demands]
    refine denies_of_expr_bind h herror fun _ t h => ?_
    have h := Gen.plain_bind_eq_error.mp (error_behind_setLine h herror)
    rcases Gen.bind_eq_error h with hyes | ⟨code, u, -, h⟩
    · exact (denies_of_stmt hyes herror).of_onLine
    · -- Behind the branch there are only jumps.
      obtain ⟨_, h⟩ := error_behind_jumpBy (error_behind_setLine h herror) herror
      obtain ⟨_, h⟩ := error_behind_jumpBy (Gen.pure_bind_eq_error.mp h) herror
      cases h
  | .ifThen line condition yes (some no) =>
    rw [Stmt.demands]
    refine denies_of_expr_bind h herror fun _ t h => ?_
    have h := Gen.plain_bind_eq_error.mp (error_behind_setLine h herror)
    rcases Gen.bind_eq_error h with hyes | ⟨code, u, hyes, h⟩
    · exact (denies_of_stmt hyes herror).append _
    -- The first branch has been met, so it is the second one that is denied.
    apply Meets.denies (meets_of_stmt (b.emitsStmt_of_stmt hyes))
    obtain ⟨_, h⟩ := error_behind_jumpBy (error_behind_setLine h herror) herror
    rcases Gen.bind_eq_error h with hno | ⟨code, v, -, h⟩
    · exact (denies_of_stmt hno herror).of_onLine
    · have h := error_behind_setLine h herror
      have h := Gen.pure_bind_eq_error.mp h
      obtain ⟨_, h⟩ := error_behind_jumpBy h herror
      cases h
  | .whileDo line condition body =>
    rw [Stmt.demands]
    refine denies_of_expr_bind h herror fun _ t h => ?_
    have h := Gen.plain_bind_eq_error.mp (error_behind_setLine h herror)
    rcases Gen.bind_eq_error h with hbody | ⟨code, u, -, h⟩
    · exact (denies_of_stmt hbody herror).of_onLine
    · obtain ⟨_, h⟩ := error_behind_jumpBy (error_behind_setLine h herror) herror
      obtain ⟨_, h⟩ := error_behind_jumpBy h herror
      cases h

/-- Statements that fail for a reason of the backend have their demands denied. -/
theorem denies_of_stmts {sts : List Stmt} {done : List (Code ω)} {s : GenState ν}
    {error : GenError} (h : b.stmts sts done s = .error error)
    (herror : error.ofBackend = true) : b.Denies (Stmt.demandsOfAll sts) s error := by
  -- along the statements: those in front of the one that fails have their demands met
  match sts with
  | [] => cases h
  | first :: rest =>
    rw [Stmt.demandsOfAll]
    rcases Gen.bind_eq_error h with hfirst | ⟨code, t, hfirst, hrest⟩
    · exact (denies_of_stmt hfirst herror).append _
    · have hmeets := meets_of_stmt (b.emitsStmt_of_stmt hfirst)
      exact hmeets.denies (denies_of_stmts hrest herror)

end

/-! ## Whole programs -/

namespace Lawful

variable {Inv : Pool → ν → Prop}

/-- What keeps a program from becoming a chunk happens on the walk over its statements. -/
theorem stmts_eq_error (hb : b.Lawful Inv) {p : Program} (h : b.program p = .error error) :
    b.stmts p [] b.start = .error error := by
  rcases hstmts : b.stmts p [] b.start with e | ⟨code, t⟩
  · have hp : b.program p = .error e := b.assemble_eq_error hstmts
    rw [h] at hp
    cases hp
    rfl
  · obtain ⟨_, rfl, hemits⟩ := b.emitsAll_of_stmts hstmts
    have hadds := hb.adds_of_emitsAll hemits hb.fresh
    have hp : b.program p = _ :=
      b.assemble_eq_ok hstmts fun i hi => (hadds.inner i hi).valid.line_nonneg
    rw [h] at hp
    cases hp

/-- Where a backend makes the walk over a program fail, the demands of the program stop at one that the
backend cannot meet. -/
theorem stopsAt_of_program (hb : b.Lawful Inv) {p : Program} (h : b.program p = .error error)
    (herror : error.ofBackend = true) : ∃ front code s, b.StopsAt p error front code s := by
  have hdenies := denies_of_stmts (hb.stmts_eq_error h) herror
  obtain ⟨front, line, d, back, code, s, hp, hfront, hd⟩ := meetAll_eq_error (hdenies b.start.line)
  exact ⟨front, code, s, line, d, back, hp, hfront, hd⟩

/-- A demand that is met keeps the invariant of the backend. -/
theorem meet (hb : b.Lawful Inv) (h : b.meet d s = .ok (code, t)) (hs : Inv s.pool s.vars) :
    Inv t.pool t.vars := by
  cases d with
  | literal value => exact (hb.literal h hs).inv
  | fetch name => exact (hb.fetch h hs).inv
  | store name => exact (hb.store h hs).inv
  | declare name => exact (hb.declare h hs).inv
  | enter =>
    cases h
    exact hb.enter hs
  | leave =>
    cases h
    exact hb.leave hs

/-- So do any demands that are met one after the other. -/
theorem meetAll (hb : b.Lawful Inv) {ds : List (Nat × Demand)} (h : b.meetAll ds s = .ok (code, t))
    (hs : Inv s.pool s.vars) : Inv t.pool t.vars := by
  induction ds generalizing s code with
  | nil =>
    cases h
    exact hs
  | cons first rest ih =>
    obtain ⟨_, u, more, hfirst, hrest, -⟩ := meetAll_cons_eq_ok.mp h
    exact ih hrest (hb.meet hfirst hs)

end Lawful

end Backend

end Scriptlet
