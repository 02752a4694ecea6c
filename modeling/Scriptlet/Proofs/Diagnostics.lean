import Scriptlet.Proofs.InvalidTargets
import Scriptlet.Toolchain

/-! # The order of diagnostics

A parser notes an error where it stands, and fails where it stands, so errors come in the order of the
text. The only exception are targets that are no variables: such an error is noted when the value has been
read, behind those in the value.

`Parse.Orderly` carries the lines along, on tokens whose lines do not decrease: what a parser notes stands
between the line that it starts on and the line that it stops on, and it fails on the line that it stops on.
So what one statement notes is not above what the statements in front of it have noted.

## Main statement

* `diagnostics_in_source_order`: syntax errors come in the order of their lines, except for targets in the
  values of others.
-/

namespace Scriptlet

open Relation

/-! ## Lines -/

/-- Errors in the order of their lines, or out of order because one is in the value of the other. -/
def InSourceOrder (ts : List Token) (e e' : SyntaxError) : Prop :=
  e.line ≤ e'.line ∨ InValueOf ts e e'

/-- Errors stay in order when more tokens are around them. -/
theorem InSourceOrder.extend {ts : List Token} {e e' : SyntaxError} (h : InSourceOrder ts e e')
    (front back : List Token) : InSourceOrder (front ++ ts ++ back) e e' := by
  rcases h with hline | hvalue
  · exact .inl hline
  · exact .inr (hvalue.extend front back)

namespace Cursor

variable {read read' : List Token} {new new' : List SyntaxError} {c c₁ c' : Cursor} {t : Token}

/-- The lines of the tokens that are left do not decrease, up to the line on which the input ends. -/
structure Sorted (c : Cursor) : Prop where
  lines : c.rest.Pairwise fun t t' => t.line ≤ t'.line
  end_le : ∀ t ∈ c.rest, t.line ≤ c.endLine

namespace Sorted

/-- Behind tokens that were read, the rest is still sorted. -/
theorem passes (hc : c.Sorted) (h : Passes read new c c') : c'.Sorted := by
  have hlines := hc.lines
  rw [h.rest_eq] at hlines
  refine ⟨(List.pairwise_append.mp hlines).2.1, ?_⟩
  intro t ht
  rw [h.endLine_eq]
  apply hc.end_le
  rw [h.rest_eq]
  exact List.mem_append_right _ ht

/-- No token stands above the line of the next one. -/
theorem current_le (hc : c.Sorted) (ht : t ∈ c.rest) : c.current.line ≤ t.line := by
  obtain ⟨_ | ⟨u, rest⟩, line, n, es⟩ := c
  · cases ht
  · rcases List.mem_cons.mp ht with rfl | ht
    · exact Nat.le_refl _
    · exact List.rel_of_pairwise_cons hc.lines ht

/-- No token that was passed over stands below the line of the next one. -/
theorem le_current (hc : c.Sorted) (h : Passes read new c c') (ht : t ∈ read) :
    t.line ≤ c'.current.line := by
  have hlines := hc.lines
  have hend := hc.end_le t (by rw [h.rest_eq]; exact List.mem_append_left _ ht)
  rw [h.rest_eq] at hlines
  rw [← h.endLine_eq] at hend
  obtain ⟨_ | ⟨u, rest⟩, line, n, es⟩ := c'
  · exact hend
  · exact (List.pairwise_append.mp hlines).2.2 t ht u List.mem_cons_self

/-- On sorted tokens, the line of the next token does not decrease. -/
theorem current_mono (hc : c.Sorted) (h : Passes read new c c') :
    c.current.line ≤ c'.current.line := by
  cases read with
  | nil =>
    have hcurrent : c'.current = c.current := by
      rw [current, current, h.rest_eq, h.endLine_eq]
      rfl
    rw [hcurrent]
  -- the first token read is no later than the next one, and the cursor has passed it
  | cons u read =>
    have hu : u ∈ u :: read := List.mem_cons_self
    have hrest : u ∈ c.rest := by
      rw [h.rest_eq]
      exact List.mem_append_left _ hu
    exact Nat.le_trans (hc.current_le hrest) (hc.le_current h hu)

end Sorted

/-- From `c` to `c'`, what is noted is in order, and stands between the lines of these places. -/
structure Reports (read : List Token) (new : List SyntaxError) (c c' : Cursor) :
    Prop extends Passes read new c c' where
  order : new.Pairwise (InSourceOrder read)
  above : ∀ e ∈ new, c.current.line ≤ e.line
  below : ∀ e ∈ new, e.line ≤ c'.current.line

namespace Reports

theorem of_passes (h : Passes read [] c c') : Reports read [] c c' :=
  ⟨h, .nil, fun _ he => absurd he List.not_mem_nil, fun _ he => absurd he List.not_mem_nil⟩

/-- An error on the current line may be noted. -/
theorem note {e : SyntaxError} (h : e.line = c.current.line) : Reports [] [e] c (c.record e) := by
  refine ⟨.note e c, List.pairwise_singleton _ _, ?_, ?_⟩
  · intro e' he'
    cases List.mem_singleton.mp he'
    exact Nat.le_of_eq h.symm
  · intro e' he'
    cases List.mem_singleton.mp he'
    exact Nat.le_of_eq h

/-- What is noted on the way there and on the way from there is in order together. -/
theorem trans (hc : c.Sorted) (h : Reports read new c c₁) (h' : Reports read' new' c₁ c') :
    Reports (read ++ read') (new ++ new') c c' := by
  have hmono := hc.current_mono h.toPasses
  have hmono' := (hc.passes h.toPasses).current_mono h'.toPasses
  refine ⟨h.toPasses.trans h'.toPasses, List.pairwise_append.mpr ⟨?_, ?_, ?_⟩, ?_, ?_⟩
  · refine h.order.imp fun horder => ?_
    have hextend := horder.extend [] read'
    exact hextend
  · refine h'.order.imp fun horder => ?_
    have hextend := horder.extend read []
    rwa [List.append_nil] at hextend
  · -- The place in between separates what is noted on the two parts of the way.
    intro e he e' he'
    exact .inl (Nat.le_trans (h.below e he) (h'.above e' he'))
  · intro e he
    rcases List.mem_append.mp he with he | he
    · exact h.above e he
    · exact Nat.le_trans hmono (h'.above e he)
  · intro e he
    rcases List.mem_append.mp he with he | he
    · exact Nat.le_trans (h.below e he) hmono'
    · exact h'.below e he

/-- In an expression, errors are out of order only for the value of an assignment. -/
theorem of_confined {depth : Nat} (hc : c.Sorted) (h : Confined read new depth c c') :
    Reports read new c c' := by
  have hlines := hc.lines
  rw [h.rest_eq] at hlines
  have hlines := (List.pairwise_append.mp hlines).1
  refine ⟨h.toPasses, ?_, ?_, ?_⟩
  · refine h.targets.order.imp ?_
    rintro e e' (⟨between, front, t, t', back, rfl, -, -, rfl, rfl⟩ | hvalue)
    · -- Errors in the order of their signs are in the order of the lines of these.
      have hbehind := (List.pairwise_append.mp hlines).2.1
      exact .inl (List.rel_of_pairwise_cons hbehind (by simp))
    · exact .inr hvalue
  · intro e he
    obtain ⟨front, t, back, hread, -, rfl⟩ := h.targets.sign he
    exact hc.current_le (by rw [h.rest_eq, hread]; simp)
  · intro e he
    obtain ⟨front, t, back, hread, -, rfl⟩ := h.targets.sign he
    exact hc.le_current h.toPasses (by rw [hread]; simp)

end Reports

end Cursor

/-! ## Statements -/

namespace Parse

variable {α β : Type} {p : Parse α} {f : α → Parse β}

/-- On sorted tokens, the parser notes errors in order, between the lines that it starts and stops on. If
it fails, it fails on the line that it stops on. -/
structure Orderly (p : Parse α) : Prop where
  ok {c c' : Cursor} {a : α} (hc : c.Sorted) (h : p c = .ok a c') :
    ∃ read new, Cursor.Reports read new c c'
  error {c c' : Cursor} {e : SyntaxError} (hc : c.Sorted) (h : p c = .error e c') :
    e.line = c'.current.line ∧ ∃ read new, Cursor.Reports read new c c'

/-- A parser that notes errors on the tokens it reads, in order, is orderly. -/
theorem Confined.orderly (h : p.Confined) : p.Orderly := by
  constructor
  · intro c c' a hc hp
    obtain ⟨read, new, hread⟩ := h.ok hp
    exact ⟨read, new, .of_confined hc hread⟩
  · intro c c' e hc hp
    obtain ⟨hline, read, new, depth, hread⟩ := h.error hp
    exact ⟨hline, read, new, .of_confined hc hread⟩

theorem Orderly.pure (a : α) : (Pure.pure a : Parse α).Orderly :=
  (Confined.pure a).orderly

/-- Orderly parsers in sequence are orderly. -/
theorem Orderly.bind (hp : p.Orderly) (hf : ∀ a, (f a).Orderly) : (p >>= f).Orderly := by
  constructor
  · intro c c' b hc h
    obtain ⟨a, c₁, hfirst, hsecond⟩ := EStateM.bind_eq_ok h
    obtain ⟨read, new, hread⟩ := hp.ok hc hfirst
    obtain ⟨read', new', hread'⟩ := (hf a).ok (hc.passes hread.toPasses) hsecond
    exact ⟨_, _, hread.trans hc hread'⟩
  · intro c c' e hc h
    rcases EStateM.bind_eq_error h with hfirst | ⟨a, c₁, hfirst, hsecond⟩
    · exact hp.error hc hfirst
    -- the second parser fails, on the way that the first one has begun
    · obtain ⟨read, new, hread⟩ := hp.ok hc hfirst
      obtain ⟨hline, read', new', hread'⟩ := (hf a).error (hc.passes hread.toPasses) hsecond
      exact ⟨hline, _, _, hread.trans hc hread'⟩

/-- A parser that only reads notes nothing. -/
theorem Orderly.of_reads (hp : p.Within Cursor.Read)
    (hline : ∀ {c c' : Cursor} {e : SyntaxError}, p c = .error e c' → e.line = c'.current.line) :
    p.Orderly := by
  constructor
  · intro c c' a _ h
    have hreads := hp c
    rw [cursorAfter_ok h] at hreads
    obtain ⟨read, hpasses⟩ := Cursor.Passes.of_reads hreads
    exact ⟨read, [], .of_passes hpasses⟩
  · intro c c' e _ h
    have hreads := hp c
    rw [cursorAfter_error h] at hreads
    obtain ⟨read, hpasses⟩ := Cursor.Passes.of_reads hreads
    exact ⟨hline h, read, [], .of_passes hpasses⟩

/-- Looking at a token notes nothing. -/
theorem peek_orderly : peek.Orderly := by
  refine .of_reads peek_within ?_
  intro c c' e h
  cases h

theorem advance_orderly : advance.Orderly := by
  refine .of_reads advance_reads ?_
  intro c c' e h
  cases h

/-- An optional token notes nothing. -/
theorem take?_orderly (kind : TokenKind) : (take? kind).Orderly := by
  refine .of_reads (take?_reads kind) ?_
  intro c c' e h
  rcases take?_cases kind c with hnone | ⟨_, _, -, -, hsome⟩
  · cases hnone.symm.trans h
  · cases hsome.symm.trans h

/-- A token that is missing is an error on the line where it is expected. -/
theorem expect_orderly (kind : TokenKind) {error : String → Nat → SyntaxError}
    (herror : ∀ found line, (error found line).line = line) : (expect kind error).Orderly := by
  refine .of_reads (expect_reads kind error) ?_
  intro c c' e h
  rcases expect_cases kind error c with hfails | ⟨_, _, -, -, hok⟩
  · cases hfails.symm.trans h
    exact herror _ _
  · cases hok.symm.trans h

theorem expression_orderly (bound : Nat) : (expression bound).Orderly :=
  (expression_confined bound).orderly

theorem semicolon_orderly (after : Clause) : (semicolon after).Orderly :=
  (expect_orderly _ fun _ _ => rfl).bind fun _ => .pure ()

theorem condition_orderly (bound : Nat) (keyword : Keyword) : (condition bound keyword).Orderly := by
  refine (expect_orderly _ fun _ _ => rfl).bind fun _ => (expression_orderly bound).bind fun e => ?_
  exact (expect_orderly _ fun _ _ => rfl).bind fun _ => .pure e

/-- A declaration notes errors in order. -/
theorem varDeclaration_orderly (bound : Nat) : (varDeclaration bound).Orderly := by
  refine peek_orderly.bind fun keyword => advance_orderly.bind fun _ => ?_
  refine (expect_orderly _ fun _ _ => rfl).bind fun name => (take?_orderly _).bind fun o => ?_
  have hclose : ∀ initial, (semicolon .variableDeclaration >>= fun _ =>
      pure (Stmt.var keyword.line name.lexeme initial)).Orderly :=
    fun _ => (semicolon_orderly _).bind fun _ => .pure _
  split
  · rw [map_eq_pure_bind, bind_assoc]
    exact (expression_orderly bound).bind fun e => hclose (some e)
  · exact hclose none

variable {inner : Parse Stmt}

/-- What a declaration reads notes errors in order, whatever its first token is. -/
theorem item_orderly (h : inner.Orderly) (bound : Nat) (first : Token) :
    (item bound inner first).Orderly := by
  unfold item
  split
  · exact varDeclaration_orderly bound
  · exact h

/-- What a declaration fails with is noted on the line where it fails, and then tokens are skipped. -/
theorem declaration_orderly (h : inner.Orderly) (bound : Nat) : (declaration bound inner).Orderly := by
  constructor
  · intro c c' o hc hdecl
    have hitem := item_orderly h bound c.current
    cases hread : item bound inner c.current c with
    | ok s c₁ =>
      cases (declaration_ok hread).symm.trans hdecl
      exact hitem.ok hc hread
    | error e c₁ =>
      cases (declaration_error hread).symm.trans hdecl
      obtain ⟨hline, read, new, hreports⟩ := hitem.error hc hread
      -- the error is noted where the item has failed, and skipping notes nothing
      have hreports := hreports.trans hc (.note hline)
      have hskips : ReflTransGen Cursor.Read (c₁.record e) (resumed c.position (c₁.record e)) :=
        skipToBoundary_reads _ _ _ _ _
      obtain ⟨skipped, hpasses⟩ := Cursor.Passes.of_reads hskips
      exact ⟨_, _, hreports.trans hc (.of_passes hpasses)⟩
  · intro c c' e _ hdecl
    cases hread : item bound inner c.current c with
    | ok s c₁ => cases (declaration_ok hread).symm.trans hdecl
    | error e c₁ => cases (declaration_error hread).symm.trans hdecl

/-- Declarations note errors in order, each of them behind the ones before it. -/
theorem declarations_orderly {decl : Parse (Option Stmt)} (h : decl.Orderly)
    (stops : TokenKind → Bool) (bound : Nat) (found : List Stmt) :
    (declarations stops decl bound found).Orderly := by
  -- on the bound, as the loop runs
  induction bound generalizing found with
  | zero => exact .pure _
  | succ bound ih =>
    refine peek_orderly.bind fun next => ?_
    split
    · exact .pure _
    · exact h.bind fun o => ih _

/-- A statement notes errors in order, if the statements in it do. -/
theorem statementAround_orderly (h : inner.Orderly) (bound : Nat) :
    (statementAround inner bound).Orderly := by
  refine peek_orderly.bind fun first => ?_
  -- by the first token, as the statement is read
  split
  · -- `print`
    refine advance_orderly.bind fun _ => (expression_orderly bound).bind fun e => ?_
    exact (semicolon_orderly _).bind fun _ => .pure _
  · -- `if`
    refine advance_orderly.bind fun _ => (condition_orderly bound _).bind fun e => ?_
    refine h.bind fun yes => (take?_orderly _).bind fun o => ?_
    split
    · exact h.bind fun no => .pure _
    · exact .pure _
  · -- `while`
    refine advance_orderly.bind fun _ => (condition_orderly bound _).bind fun e => ?_
    exact h.bind fun body => .pure _
  · -- a block
    refine advance_orderly.bind fun _ => ?_
    refine (declarations_orderly (declaration_orderly h bound) _ bound []).bind fun body => ?_
    exact (expect_orderly _ fun _ _ => rfl).bind fun _ => .pure _
  · -- an expression statement
    refine (expression_orderly bound).bind fun e => ?_
    exact (semicolon_orderly _).bind fun _ => .pure _

/-- A statement notes errors in order, to any depth. -/
theorem statement_orderly (bound : Nat) : (statement bound).Orderly := by
  induction bound with
  | zero => exact noExpression_confined.orderly
  | succ bound ih =>
    rw [statement_succ]
    exact statementAround_orderly ih (bound + 1)

theorem program_orderly (bound : Nat) : (program bound).Orderly :=
  declarations_orderly (declaration_orderly (statement_orderly bound) bound) _ bound []

end Parse

/-! ## Programs -/

/-- Where the lines of the tokens do not decrease, the input ends on the last line. -/
theorem Cursor.sorted_ofTokens {ts : List Token} (h : ts.Pairwise fun t t' => t.line ≤ t'.line) :
    (ofTokens ts).Sorted := by
  have hsplit : bodyOf ts ++ ts.dropWhile (·.kind ≠ .endOfInput) = ts :=
    List.takeWhile_append_dropWhile
  rw [← hsplit] at h
  obtain ⟨hbody, -, hbehind⟩ := List.pairwise_append.mp h
  refine ⟨hbody, ?_⟩
  intro t ht
  have ht : t ∈ bodyOf ts := ht
  unfold ofTokens
  cases hmarks : ts.dropWhile (·.kind ≠ .endOfInput) with
  | cons mark rest => exact hbehind t ht mark (by rw [hmarks]; exact List.mem_cons_self)
  | nil =>
    -- Without an end mark, the last token says where the input ends.
    show t.line ≤ ((bodyOf ts).getLast?.map Token.line).getD 1
    rcases List.eq_nil_or_concat (bodyOf ts) with hnil | ⟨init, last, hlast⟩
    · rw [hnil] at ht
      cases ht
    · rw [List.concat_eq_append] at hlast
      rw [hlast] at hbody ht ⊢
      rw [List.getLast?_concat]
      rcases List.mem_append.mp ht with ht | ht
      · exact (List.pairwise_append.mp hbody).2.2 t ht last List.mem_cons_self
      · rw [List.mem_singleton.mp ht]
        exact Nat.le_refl _

/-- What is noted from the start of the tokens on is in source order. -/
theorem Cursor.Reports.inSourceOrder {ts read : List Token} {new : List SyntaxError} {c : Cursor}
    (h : Reports read new (ofTokens ts) c) : c.errors.toList.Pairwise (InSourceOrder ts) := by
  have herrors : c.errors.toList = new := by
    rw [h.errors_eq]
    rfl
  -- the tokens read are a part of all tokens, in which the errors stand in the same order
  have hread : read ++ (c.rest ++ ts.dropWhile (·.kind ≠ .endOfInput)) = ts := by
    rw [← List.append_assoc, ← h.rest_eq]
    exact List.takeWhile_append_dropWhile
  rw [herrors]
  refine h.order.imp fun horder => ?_
  have hextend := horder.extend [] (c.rest ++ ts.dropWhile (·.kind ≠ .endOfInput))
  rwa [List.nil_append, hread] at hextend

/-- On sorted tokens, the parser notes errors in source order. -/
theorem parseProgram_inSourceOrder {ts : List Token}
    (h : ts.Pairwise fun t t' => t.line ≤ t'.line) :
    (parseProgram ts).errors.Pairwise (InSourceOrder ts) := by
  have hc := Cursor.sorted_ofTokens h
  have horderly := Parse.program_orderly (ts.length + 1)
  unfold parseProgram
  cases hp : Parse.program (ts.length + 1) (.ofTokens ts) with
  | ok program c =>
    obtain ⟨read, new, hreports⟩ := horderly.ok hc hp
    exact hreports.inSourceOrder
  | error e c =>
    obtain ⟨hline, read, new, hreports⟩ := horderly.error hc hp
    exact (hreports.trans hc (.note hline)).inSourceOrder

/-- A program is refused for all the errors of its tokens, and for one at least. -/
theorem parseTokens_descent_eq_error {ts : List Token} {es : List SyntaxError}
    (h : Strategy.descent.parseTokens ts = .error (.syntactic es)) :
    (parseProgram ts).errors = es ∧ es ≠ [] := by
  have h : (parseProgram ts).toExcept.mapError CompileError.syntactic = .error (.syntactic es) := h
  unfold Parsed.toExcept at h
  split at h
  · cases h
  · next hsome =>
    cases h
    exact ⟨rfl, by simpa using hsome⟩

/-- The message counts the errors and shows the first one. -/
theorem message_syntactic (first : SyntaxError) (rest : List SyntaxError) :
    (CompileError.syntactic (first :: rest)).message
      = toString (first :: rest).length ++ " syntax error(s), first: " ++ first.message := by
  have hlength : ((first :: rest).map SyntaxError.message).length = (first :: rest).length :=
    List.length_map _
  have hwords : " " ++ ("syntax" ++ " error(s), first: ") = " syntax error(s), first: " := by
    decide +kernel
  show toString ((first :: rest).map SyntaxError.message).length ++ " " ++ "syntax"
    ++ " error(s), first: " ++ first.message = _
  rw [hlength, ← hwords]
  simp only [String.append_assoc]

/-- Syntax errors come in the order of their lines, on all tokens whose lines do not decrease, except that
an invalid target is reported behind those in the value that is assigned to it. So the error that a
message shows as the first one is on the earliest line of all, unless it is for an invalid target in the
value of another one. -/
theorem diagnostics_in_source_order {ts : List Token}
    (h : ts.Pairwise fun t t' => t.line ≤ t'.line) :
    (parseProgram ts).errors.Pairwise (fun e e' => e.line ≤ e'.line ∨ InValueOf ts e e') ∧
      ∀ es, Strategy.descent.parseTokens ts = .error (.syntactic es) →
        ∃ first rest, es = first :: rest ∧
          (CompileError.syntactic es).message
            = toString es.length ++ " syntax error(s), first: " ++ first.message ∧
          ∀ e ∈ rest, first.line ≤ e.line ∨ InValueOf ts first e := by
  have horder := parseProgram_inSourceOrder h
  refine ⟨horder, ?_⟩
  intro es hes
  obtain ⟨herrors, hsome⟩ := parseTokens_descent_eq_error hes
  obtain ⟨first, rest, rfl⟩ := List.exists_cons_of_ne_nil hsome
  rw [herrors] at horder
  exact ⟨first, rest, rfl, message_syntactic first rest, (List.pairwise_cons.mp horder).1⟩

/-- The target on line 2 encloses the one on line 3, and is reported behind it. -/
theorem diagnostics_in_source_order_assignments :
    (parseProgram (scan "(1 =\n2) =\n3 =\n4;\nvar;").tokens).errors
        = [.invalidAssignment 1, .invalidAssignment 3, .invalidAssignment 2,
          .missingVariableName ";" 5] ∧
      (parseProgram (scan "(1 =\n2) =\n3 =\n4;\nvar;").tokens).errors.Pairwise fun e e' =>
        e.line ≤ e'.line ∨ InValueOf (scan "(1 =\n2) =\n3 =\n4;\nvar;").tokens e e' := by
  have hsorted : (scan "(1 =\n2) =\n3 =\n4;\nvar;").tokens.Pairwise
      fun t t' => t.line ≤ t'.line := by decide +kernel
  exact ⟨by decide +kernel, (diagnostics_in_source_order hsorted).1⟩

/-- In a value with an invalid target of its own, the later line is reported first. -/
theorem enclosing_target_reported_last :
    (scan "1 =\n2 =\n3;").tokens.Pairwise (fun t t' => t.line ≤ t'.line) ∧
      (parseProgram (scan "1 =\n2 =\n3;").tokens).errors
        = [.invalidAssignment 2, .invalidAssignment 1] ∧
      ¬ (parseProgram (scan "1 =\n2 =\n3;").tokens).errors.Pairwise
        (fun e e' => e.line ≤ e'.line) := by
  refine ⟨by decide +kernel, by decide +kernel, by decide +kernel⟩

end Scriptlet
