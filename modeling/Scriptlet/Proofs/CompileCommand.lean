import Scriptlet.CommandLine
import Scriptlet.Proofs.WellFormed

/-! # Compiling from the command line is all or nothing

The heading of a listing is written before the chunk is read back, so a chunk that cannot be read would
leave a heading without a listing behind it. There is no such chunk: what is generated always reads back
(`Target.exists_lists`). What is left is to see in which stage the work ends. Arguments that make no
sense, an input that cannot be read, a text that is refused and a program that fails all end it before
anything is written, each with an exit status of its own; otherwise all of the listing is there.

A program that is checked runs first, and what it prints goes nowhere: the outcome with the check, where
it passes, is the one without it.

## Main statement

* `compile_all_or_nothing`: the outcome of arguments that ask for a compilation, by the stage in which it
  ends.
-/

namespace Scriptlet

open Text

/-! ## Listings of generated chunks -/

section Listings

variable {ω : Type} [Opcode ω]

namespace Record

/-- What stands behind the name of an instruction: its slot, index or displacement, the constant that it
names or the number that stands in the code, and where a jump leads. -/
structure Detailed (r : Record ω) (details : String) : Prop where
  plain : Opcode.layout r.op = .none → details = ""
  operand {n : Int} : r.operand? = some n → ∃ front back, details = front ++ toString n ++ back
  constant {v : Value} : Opcode.layout r.op = .immediate ∨ Opcode.layout r.op = .constant →
    r.constant = some v → ∃ front back, details = front ++ v.text ++ back
  target {offset : Nat} : r.target? = some offset →
    ∃ front, details = front ++ " -> " ++ toString offset

/-- What a line of a listing shows of an instruction below one of the source line `above`: the offset,
the source line or a bar where it is the same as above, the name, and the details. -/
def ShownAs (r : Record ω) (above : Option Int) (text : String) : Prop :=
  ∃ details, r.Detailed details ∧
    text = padLeft 4 '0' (toString r.offset) ++ " "
      ++ (if above = some r.line then "   |" else padLeft 4 ' ' (toString r.line)) ++ " "
      ++ (Opcode.name r.op ++ details)

/-- The description of an instruction is its name and the details. -/
theorem exists_describe_eq (r : Record ω) :
    ∃ details, r.Detailed details ∧ r.describe = Opcode.name r.op ++ details := by
  obtain ⟨gap, hname⟩ : ∃ gap, r.nameColumn = Opcode.name r.op ++ gap := ⟨_, rfl⟩
  obtain ⟨fill, harg⟩ : ∃ fill, r.argColumn = fill ++ toString r.instr.arg := ⟨_, rfl⟩
  unfold describe
  -- by the layout of the operand, which decides what stands behind the name
  cases hlayout : Opcode.layout r.op with
  | none =>
    refine ⟨"", ?_, by simp⟩
    constructor <;> simp [operand?, target?, hlayout, Layout.isJump]
  | immediate =>
    refine ⟨gap ++ " " ++ r.constantText, ?_, by simp [hname, String.append_assoc]⟩
    constructor
    case constant =>
      intro v _ hv
      exact ⟨gap ++ " ", "", by simp [constantText, hv]⟩
    all_goals simp [operand?, target?, hlayout, Layout.isJump]
  | constant =>
    refine ⟨gap ++ " " ++ r.argColumn ++ " '" ++ r.constantText ++ "'", ?_,
      by simp [hname, String.append_assoc]⟩
    constructor
    case operand =>
      intro n hn
      obtain rfl : r.instr.arg = n := by simpa [operand?, hlayout] using hn
      exact ⟨gap ++ " " ++ fill, " '" ++ r.constantText ++ "'", by simp [harg, String.append_assoc]⟩
    case constant =>
      intro v _ hv
      exact ⟨gap ++ " " ++ r.argColumn ++ " '", "'", by simp [constantText, hv]⟩
    all_goals simp [target?, hlayout, Layout.isJump]
  | byte | word =>
    refine ⟨gap ++ " " ++ r.argColumn, ?_, by simp [hname, String.append_assoc]⟩
    constructor
    case operand =>
      intro n hn
      obtain rfl : r.instr.arg = n := by simpa [operand?, hlayout] using hn
      exact ⟨gap ++ " " ++ fill, "", by simp [harg, String.append_assoc]⟩
    all_goals simp [target?, hlayout, Layout.isJump]
  | relativeJump | forwardJump | backwardJump =>
    refine ⟨gap ++ " " ++ r.argColumn ++ " -> " ++ (r.target?.map toString).getD "?", ?_, ?_⟩
    · constructor
      case operand =>
        intro n hn
        obtain rfl : r.instr.arg = n := by simpa [operand?, hlayout] using hn
        exact ⟨gap ++ " " ++ fill, " -> " ++ (r.target?.map toString).getD "?",
          by simp [harg, String.append_assoc]⟩
      case target =>
        intro offset htarget
        exact ⟨gap ++ " " ++ r.argColumn, by simp [htarget]⟩
      all_goals simp [hlayout]
    · cases r.target? <;> simp [hname, String.append_assoc]

/-- A line of a listing shows its instruction. -/
theorem listingLine_shows (r : Record ω) (above : Option Int) :
    r.ShownAs above (r.listingLine above) := by
  obtain ⟨details, hdetails, hdescribe⟩ := r.exists_describe_eq
  refine ⟨details, hdetails, ?_⟩
  rw [← hdescribe]
  rfl

end Record

theorem length_listing (records : List (Record ω)) : (listing records).length = records.length := by
  simp [listing]

/-- The line of an instruction stands behind those of the instructions in front of it, and is set off
against the last one of these. -/
theorem getElem?_listing (front : List (Record ω)) (r : Record ω) (back : List (Record ω)) :
    (listing (front ++ r :: back))[front.length]?
      = some (r.listingLine (front.getLast?.map Record.line)) := by
  have hhere : (front ++ r :: back)[front.length]? = some r := by simp
  have habove : (none :: (front ++ r :: back).map fun r => some r.line)[front.length]?
      = some (front.getLast?.map Record.line) := by
    rcases List.eq_nil_or_concat front with rfl | ⟨init, last, rfl⟩
    · rfl
    · simp
  rw [listing, List.getElem?_zipWith, habove, hhere]

/-- The lines list the chunk: there is one for each of its instructions, from its first byte to its
last one, and it shows the instruction. -/
structure Chunk.Lists (c : Chunk) (records : List (Record ω)) (lines : List String) : Prop where
  decodes : c.decode = .ok records
  tiles : Record.Tile 0 records c.size
  listing : lines = listing records
  length : lines.length = records.length
  shows (front : List (Record ω)) (r : Record ω) (back : List (Record ω)) :
    records = front ++ r :: back →
      ∃ text, lines[front.length]? = some text ∧ r.ShownAs (front.getLast?.map Record.line) text

/-- The listing of a well-formed chunk lists it. -/
theorem Chunk.WellFormed.lists {stop : ω} {c : Chunk} {records : List (Record ω)}
    (h : c.WellFormed stop records) : c.Lists records (Scriptlet.listing records) := by
  refine ⟨h.decodes, h.tiles, rfl, length_listing records, ?_⟩
  rintro front r back rfl
  exact ⟨_, getElem?_listing front r back, r.listingLine_shows _⟩

end Listings

namespace Target

/-- The lines list the chunk, read with the instruction set of the target. -/
def Lists : Target → Chunk → List String → Prop
  | .word, c, lines => ∃ records : List (Record WordOp), c.Lists records lines
  | .pool, c, lines => ∃ records : List (Record PoolOp), c.Lists records lines

/-- The lines that list a chunk are what disassembling gives. -/
theorem Lists.disassemble_eq {target : Target} {c : Chunk} {lines : List String}
    (h : target.Lists c lines) : target.disassemble c = .ok lines := by
  cases target with
  | word | pool =>
    obtain ⟨records, hlists⟩ := h
    simp only [disassemble, hlists.decodes, hlists.listing]
    rfl

/-- Whatever is generated can be listed. -/
theorem exists_lists {target : Target} {p : Program} {c : Chunk} (h : target.generate p = .ok c) :
    ∃ lines, target.Lists c lines := by
  cases target with
  | word =>
    rcases WordOp.backend_lawful.program_cases p with ⟨c', records, hc', hwell⟩ | ⟨e, he, -⟩
    · cases hc'.symm.trans h
      exact ⟨_, records, hwell.lists⟩
    · cases he.symm.trans h
  | pool =>
    rcases PoolOp.backend_lawful.program_cases p with ⟨c', records, hc', hwell⟩ | ⟨e, he, -⟩
    · cases hc'.symm.trans h
      exact ⟨_, records, hwell.lists⟩
    · cases he.symm.trans h

end Target

/-! ## What compiling can come to -/

theorem exists_of_mapError {α ε ε' : Type} {f : ε → ε'} {r : Except ε α} {e : ε'}
    (h : r.mapError f = .error e) : ∃ cause, e = f cause := by
  cases r with
  | ok a => cases h
  | error cause =>
    cases h
    exact ⟨cause, rfl⟩

/-- Only lexical errors keep a text from becoming tokens. -/
theorem tokenize_error {source : String} {e : CompileError} (h : tokenize source = .error e) :
    ∃ es, e = .lexical es := by
  simp only [tokenize] at h
  split at h
  · cases h
  · cases h
    exact ⟨_, rfl⟩

namespace Strategy

/-- Only syntax errors keep tokens from becoming a program. -/
theorem parseTokens_error {strategy : Strategy} {ts : List Token} {e : CompileError}
    (h : strategy.parseTokens ts = .error e) : ∃ es, e = .syntactic es := by
  cases strategy with
  | descent => exact exists_of_mapError h
  | climbing =>
    cases hexpr : (parseExpression ts).toExpr.mapError CompileError.syntactic with
    | ok e' => simp [parseTokens, hexpr, Except.map] at h
    | error e' =>
      simp only [parseTokens, hexpr, Except.map] at h
      cases h
      exact exists_of_mapError hexpr

/-- Parsing a text fails with lexical errors or with syntax errors. -/
theorem parse_error {strategy : Strategy} {source : String} {e : CompileError}
    (h : strategy.parse source = .error e) : (∃ es, e = .lexical es) ∨ ∃ es, e = .syntactic es := by
  unfold parse at h
  cases htokens : tokenize source with
  | error e' =>
    rw [htokens] at h
    cases h
    exact .inl (tokenize_error htokens)
  | ok ts =>
    rw [htokens] at h
    exact .inr (parseTokens_error h)

end Strategy

namespace Config

variable {config : Config} {bound : Nat} {source : String}

/-- What is compiled has been generated, and without a check it would have been the same. -/
theorem compile_eq_ok {c : Chunk} (h : config.compile bound source = some (.ok c)) :
    (∃ p, config.target.generate p = .ok c) ∧
      ({ config with check := false } : Config).compile bound source = some (.ok c) := by
  unfold compile at h ⊢
  cases hparse : config.strategy.parse source with
  | error e => simp [hparse] at h
  | ok p =>
    -- with a check or without one, the code comes from the target
    have hcode : config.target.compile p = .ok c := by
      simp only [hparse] at h
      split at h
      · split at h
        · cases h
        · cases h
        · exact Option.some.inj h
      · exact Option.some.inj h
    have hgenerate : config.target.generate p = .ok c := by
      unfold Target.compile at hcode
      cases hg : config.target.generate p with
      | ok c' =>
        rw [hg] at hcode
        cases hcode
        rfl
      | error e =>
        rw [hg] at hcode
        cases hcode
    exact ⟨⟨p, hgenerate⟩, congrArg some hcode⟩

/-- Compiling never fails because of a chunk that cannot be read. -/
theorem compile_eq_error {e : CompileError} (h : config.compile bound source = some (.error e)) :
    ∀ cause, e ≠ .disassembly cause := by
  rintro cause rfl
  unfold compile at h
  cases hparse : config.strategy.parse source with
  | error e =>
    simp only [hparse, Option.some.injEq, Except.error.injEq] at h
    rcases Strategy.parse_error hparse with ⟨es, rfl⟩ | ⟨es, rfl⟩ <;> cases h
  | ok p =>
    -- the errors of generation are wrapped as such
    have hnone : config.target.compile p ≠ .error (.disassembly cause) := by
      intro hcode
      obtain ⟨_, hcause⟩ := exists_of_mapError hcode
      cases hcause
    simp only [hparse] at h
    split at h
    · split at h
      · cases h
      · cases h
      · exact hnone (Option.some.inj h)
    · exact hnone (Option.some.inj h)

end Config

namespace CommandLine

variable {bound : Nat} {read : String → Except ReadError String} {args : List String}

/-! ## The stage in which the work ends -/

/-- How the work on arguments that ask for a compilation can end. -/
inductive Course where
  /-- The arguments make no sense. -/
  | misused (e : UsageError)
  /-- The file cannot be read. -/
  | unreadable (path : String) (e : ReadError)
  /-- The text cannot be compiled. -/
  | refused (e : CompileError)
  /-- The text is compiled to a chunk. -/
  | compiled (target : Target) (c : Chunk)

/-- The text that an input gives, if there is one. -/
inductive Input.Gives (read : String → Except ReadError String) : Input → String → Prop where
  | inline (source : String) : Gives read (.inline source) source
  | file {path source : String} (h : read path = .ok source) : Gives read (.file path) source

/-- The work on the arguments ends so. -/
inductive Takes (bound : Nat) (read : String → Except ReadError String) (args : List String) :
    Course → Prop where
  | misused {e : UsageError} (hparse : parse args = .error e) : Takes bound read args (.misused e)
  | unreadable {options : Options} {path : String} {e : ReadError}
      (hparse : parse args = .ok (.process options)) (hinput : options.input = .file path)
      (hread : read path = .error e) : Takes bound read args (.unreadable path e)
  | refused {options : Options} {source : String} {e : CompileError}
      (hparse : parse args = .ok (.process options)) (hgives : options.input.Gives read source)
      (hcompile : options.config.compile bound source = some (.error e)) :
      Takes bound read args (.refused e)
  | compiled {options : Options} {source : String} {c : Chunk}
      (hparse : parse args = .ok (.process options)) (hgives : options.input.Gives read source)
      (hcompile : options.config.compile bound source = some (.ok c)) :
      Takes bound read args (.compiled options.config.target c)

/-- What is written in the end, and the exit status. -/
def Course.outcome : Course → Outcome
  | misused e => CommandLine.misused e
  | unreadable path e => CommandLine.unreadable path e
  | refused e => failed .empty e
  | compiled target c => listed target c

/-- The arguments ask neither for a run nor for help nor for the version. They may make no sense. -/
def AsksToCompile (args : List String) : Prop :=
  ∀ request, parse args = .ok request → ∃ options, request = .process options ∧ options.run = false

section Stages

variable {options : Options} {source : String} {o : Outcome}

/-- Arguments that ask to compile do not ask to run. -/
theorem AsksToCompile.run_eq (h : AsksToCompile args) (hparse : parse args = .ok (.process options)) :
    options.run = false := by
  obtain ⟨_, heq, hrun⟩ := h _ hparse
  cases heq
  exact hrun

/-- Arguments that make sense are worked on as the request says. -/
theorem outcome_of_parse {request : Request} (hparse : parse args = .ok request) :
    outcome bound read args = request.outcome bound read := by
  simp only [outcome, hparse]

/-- With the text there, the work on a request is the work on the text. -/
theorem outcome_of_gives (h : options.input.Gives read source) :
    (Request.process options).outcome bound read = options.process bound source := by
  obtain ⟨input, config, run⟩ := options
  cases h with
  | inline => rfl
  | file h => simp only [Request.outcome, h]

/-- Without the text, the work ends with the file that could not be read. -/
theorem outcome_of_unreadable {path : String} {e : ReadError} (hinput : options.input = .file path)
    (hread : read path = .error e) :
    (Request.process options).outcome bound read = some (unreadable path e) := by
  simp only [Request.outcome, hinput, hread]

/-- A compilation that fails is reported and writes no listing. -/
theorem process_of_error {e : CompileError} (hrun : options.run = false)
    (h : options.config.compile bound source = some (.error e)) :
    options.process bound source = some (failed .empty e) := by
  simp [Options.process, hrun, h]

/-- A compilation that succeeds is listed. -/
theorem process_of_ok {c : Chunk} (hrun : options.run = false)
    (h : options.config.compile bound source = some (.ok c)) :
    options.process bound source = some (listed options.config.target c) := by
  simp [Options.process, hrun, h]

/-- The way in which the work ends settles the outcome. -/
theorem Takes.outcome_eq {course : Course} (h : Takes bound read args course)
    (hasks : AsksToCompile args) : outcome bound read args = some course.outcome := by
  cases h with
  | misused hparse => simp only [outcome, hparse, Course.outcome]
  | unreadable hparse hinput hread =>
    rw [outcome_of_parse hparse, outcome_of_unreadable hinput hread, Course.outcome]
  | refused hparse hgives hcompile =>
    rw [outcome_of_parse hparse, outcome_of_gives hgives,
      process_of_error (hasks.run_eq hparse) hcompile, Course.outcome]
  | compiled hparse hgives hcompile =>
    rw [outcome_of_parse hparse, outcome_of_gives hgives,
      process_of_ok (hasks.run_eq hparse) hcompile, Course.outcome]

/-- The way in which the work ends decides what is written. -/
theorem Takes.eq_outcome {course : Course} (htakes : Takes bound read args course)
    (hasks : AsksToCompile args) (h : outcome bound read args = some o) : o = course.outcome :=
  Option.some.inj (h.symm.trans (htakes.outcome_eq hasks))

/-- With the text there, the work ends in one of the ways. -/
theorem exists_takes_of_gives (hparse : parse args = .ok (.process options))
    (hrun : options.run = false) (hgives : options.input.Gives read source)
    (h : options.process bound source = some o) : ∃ course, Takes bound read args course := by
  cases hcompile : options.config.compile bound source with
  | none => simp [Options.process, hrun, hcompile] at h
  | some result =>
    cases result with
    | error e => exact ⟨_, .refused hparse hgives hcompile⟩
    | ok c => exact ⟨_, .compiled hparse hgives hcompile⟩

/-- Where there is an outcome, the work has ended in one of the ways. -/
theorem exists_takes (hasks : AsksToCompile args) (h : outcome bound read args = some o) :
    ∃ course, Takes bound read args course := by
  cases hparse : parse args with
  | error e => exact ⟨_, .misused hparse⟩
  | ok request =>
    -- what is asked for is to process a text, and not to run it
    obtain ⟨options, rfl, hrun⟩ := hasks request hparse
    rw [outcome_of_parse hparse] at h
    cases hinput : options.input with
    | inline source =>
      have hgives : options.input.Gives read source := hinput ▸ .inline source
      rw [outcome_of_gives hgives] at h
      exact exists_takes_of_gives hparse hrun hgives h
    | file path =>
      cases hread : read path with
      | error e => exact ⟨_, .unreadable hparse hinput hread⟩
      | ok source =>
        have hgives : options.input.Gives read source := hinput ▸ .file hread
        rw [outcome_of_gives hgives] at h
        exact exists_takes_of_gives hparse hrun hgives h

end Stages

/-! ## Exit status and output by stage -/

/-- The heading of a listing and the lines of it. -/
def listingText (target : Target) (lines : List String) : ByteArray :=
  (unlines (("== " ++ target.name ++ " ==") :: lines)).toUTF8

/-- What is written of a chunk is its listing under a heading. -/
theorem listed_eq {target : Target} {c : Chunk} {lines : List String} (h : target.Lists c lines) :
    listed target c = { exit := 0, stdout := listingText target lines, stderr := "" } := by
  simp [listed, h.disassemble_eq, listingText, unlines]

/-- The chunk that comes out in the end can be listed. -/
theorem Takes.lists {target : Target} {c : Chunk} (h : Takes bound read args (.compiled target c)) :
    ∃ lines, target.Lists c lines := by
  cases h with
  | compiled hparse hgives hcompile =>
    obtain ⟨⟨p, hgenerate⟩, -⟩ := Config.compile_eq_ok hcompile
    exact Target.exists_lists hgenerate

/-- A generated chunk can always be listed, so no compilation ends for that reason. -/
theorem Takes.ne_disassembly {e : CompileError} (h : Takes bound read args (.refused e)) :
    ∀ cause, e ≠ .disassembly cause := by
  cases h with
  | refused hparse hgives hcompile => exact Config.compile_eq_error hcompile

namespace Course

/-- The exit status by the way in which the work ends. -/
def exit : Course → Nat
  | misused _ => 64
  | unreadable _ _ => 66
  | refused e => exitStatus e
  | compiled _ _ => 0

/-- There are five ways to exit. -/
theorem exit_mem (course : Course) : course.exit ∈ [0, 64, 65, 66, 70] := by
  cases course with
  | misused | unreadable | compiled => simp [exit]
  | refused e => cases e <;> simp [exit, exitStatus]

/-- Nothing is written unless the text is compiled. -/
theorem stdout_eq_empty {course : Course} (h : course.exit ≠ 0) : course.outcome.stdout = .empty := by
  cases course with
  | misused | unreadable | refused => rfl
  | compiled => exact absurd rfl h

end Course

/-- The exit status of an outcome is that of the way that led to it. -/
theorem Takes.exit_eq {course : Course} (h : Takes bound read args course) :
    course.outcome.exit = course.exit := by
  cases course with
  | misused | unreadable | refused => rfl
  | compiled target c =>
    obtain ⟨lines, hlines⟩ := h.lists
    rw [Course.outcome, listed_eq hlines, Course.exit]

/-- The exit status tells in which way the work has ended. -/
theorem Takes.exit_of_outcome {course : Course} {o : Outcome} (htakes : Takes bound read args course)
    (hasks : AsksToCompile args) (h : outcome bound read args = some o) : o.exit = course.exit := by
  rw [htakes.eq_outcome hasks h, htakes.exit_eq]

/-- The table of exit statuses: each belongs to some ways in which the work can end, and to no others. -/
theorem exit_eq_iff {o : Outcome} (hasks : AsksToCompile args)
    (h : outcome bound read args = some o) {status : Nat} :
    o.exit = status ↔
      (status = 0 ∧ ∃ target c, Takes bound read args (.compiled target c)) ∨
      (status = 64 ∧ ∃ e, Takes bound read args (.misused e)) ∨
      (status = 65 ∧ ((∃ es, Takes bound read args (.refused (.lexical es))) ∨
        ∃ es, Takes bound read args (.refused (.syntactic es)))) ∨
      (status = 66 ∧ ∃ path e, Takes bound read args (.unreadable path e)) ∨
      (status = 70 ∧ ((∃ e, Takes bound read args (.refused (.runtime e))) ∨
        ∃ e, Takes bound read args (.refused (.codegen e)))) := by
  constructor
  · rintro rfl
    obtain ⟨course, htakes⟩ := exists_takes hasks h
    rw [htakes.exit_of_outcome hasks h]
    -- each way has its own status, except that two kinds of errors share one
    cases course with
    | compiled target c => exact .inl ⟨rfl, target, c, htakes⟩
    | misused e => exact .inr (.inl ⟨rfl, e, htakes⟩)
    | unreadable path e => exact .inr (.inr (.inr (.inl ⟨rfl, path, e, htakes⟩)))
    | refused e =>
      cases e with
      | lexical es => exact .inr (.inr (.inl ⟨rfl, .inl ⟨es, htakes⟩⟩))
      | syntactic es => exact .inr (.inr (.inl ⟨rfl, .inr ⟨es, htakes⟩⟩))
      | runtime e => exact .inr (.inr (.inr (.inr ⟨rfl, .inl ⟨e, htakes⟩⟩)))
      | codegen e => exact .inr (.inr (.inr (.inr ⟨rfl, .inr ⟨e, htakes⟩⟩)))
      | disassembly cause => exact absurd rfl (htakes.ne_disassembly cause)
  · rintro (⟨rfl, target, c, htakes⟩ | ⟨rfl, e, htakes⟩ | ⟨rfl, ⟨es, htakes⟩ | ⟨es, htakes⟩⟩ |
      ⟨rfl, path, e, htakes⟩ | ⟨rfl, ⟨e, htakes⟩ | ⟨e, htakes⟩⟩)
    all_goals exact htakes.exit_of_outcome hasks h

/-- The same request without a check. -/
def Options.unchecked (options : Options) : Options :=
  { options with config := { options.config with check := false } }

/-- Without the check, a compilation that succeeds has the same listing. -/
theorem Takes.unchecked {target : Target} {c : Chunk} {options : Options}
    (h : Takes bound read args (.compiled target c)) (hparse : parse args = .ok (.process options))
    (hrun : options.run = false) :
    (Request.process options.unchecked).outcome bound read = some (listed target c) := by
  cases h with
  | compiled hparse' hgives hcompile =>
    -- the arguments are parsed to one request only
    cases hparse.symm.trans hparse'
    obtain ⟨-, hunchecked⟩ := Config.compile_eq_ok hcompile
    have hgives : options.unchecked.input.Gives read _ := hgives
    rw [outcome_of_gives hgives]
    exact process_of_ok hrun hunchecked

/-- The outcome is that of a compilation that has come to its end with all of its output, or of one that
has failed and written nothing, and the exit status says which and why. -/
structure AllOrNothing (bound : Nat) (read : String → Except ReadError String) (args : List String)
    (o : Outcome) : Prop where
  status : o.exit ∈ [0, 64, 65, 66, 70]
  all : o.exit = 0 → ∃ target c lines, Takes bound read args (.compiled target c) ∧
    target.Lists c lines ∧ o.stdout = listingText target lines
  nothing : o.exit ≠ 0 → o.stdout = .empty
  compiled : o.exit = 0 ↔ ∃ target c, Takes bound read args (.compiled target c)
  misused : o.exit = 64 ↔ ∃ e, Takes bound read args (.misused e)
  refused : o.exit = 65 ↔ (∃ es, Takes bound read args (.refused (.lexical es))) ∨
    ∃ es, Takes bound read args (.refused (.syntactic es))
  unreadable : o.exit = 66 ↔ ∃ path e, Takes bound read args (.unreadable path e)
  failed : o.exit = 70 ↔ (∃ e, Takes bound read args (.refused (.runtime e))) ∨
    ∃ e, Takes bound read args (.refused (.codegen e))
  unchecked : o.exit = 0 → ∀ options, parse args = .ok (.process options) →
    (Request.process options.unchecked).outcome bound read = some o

/-- Compiling from the command line is all or nothing. Whatever the arguments are, if they ask neither for
a run nor for help nor for the version, whatever a file gives that is read, and whenever the program
ends: the exit status is 0, and the output is the heading of the target with a line for every
instruction of the chunk; or the output is empty, and the exit status is 64 for arguments that make no
sense, 66 for a file that cannot be read, 65 exactly for lexical and syntax errors, and 70 exactly for
errors of the check and of code generation. A check that passes changes nothing.

Arguments are Unicode strings here, and the output takes all that is written to it: arguments that are no
text, and an output that fails, are not covered. A line shows a string constant as it is, so a line break
in the constant is one in the line too. -/
theorem compile_all_or_nothing {o : Outcome} (hasks : AsksToCompile args)
    (h : outcome bound read args = some o) : AllOrNothing bound read args o := by
  -- all parts but two are about the exit status, and follow from one equivalence
  have hstatus (status : Nat) := @exit_eq_iff bound read args o hasks h status
  have hcompiled : o.exit = 0 ↔ ∃ target c, Takes bound read args (.compiled target c) :=
    (hstatus 0).trans (by simp)
  obtain ⟨course, htakes⟩ := exists_takes hasks h
  have hexit := htakes.exit_of_outcome hasks h
  exact
    { status := hexit ▸ course.exit_mem
      all := by
        intro hzero
        obtain ⟨target, c, hc⟩ := hcompiled.mp hzero
        obtain ⟨lines, hlines⟩ := hc.lists
        refine ⟨target, c, lines, hc, hlines, ?_⟩
        rw [hc.eq_outcome hasks h, Course.outcome, listed_eq hlines]
      nothing := by
        intro hnonzero
        rw [htakes.eq_outcome hasks h]
        exact Course.stdout_eq_empty (hexit ▸ hnonzero)
      compiled := hcompiled
      misused := (hstatus 64).trans (by simp)
      refused := (hstatus 65).trans (by simp)
      unreadable := (hstatus 66).trans (by simp)
      failed := (hstatus 70).trans (by simp)
      unchecked := by
        intro hzero options hparse
        obtain ⟨target, c, hc⟩ := hcompiled.mp hzero
        rw [hc.unchecked hparse (hasks.run_eq hparse), hc.eq_outcome hasks h, Course.outcome] }

/-- A program that prints before it fails, first compiled with a check and then without one. -/
theorem compile_all_or_nothing_division :
    let read := fun _ => .error .notFound
    let args := ["-e", "print 1; print 1 / 0;"]
    let lines :=
      ["== Target-B ==",
        "0000    1 CONSTANT            0 '1'",
        "0002    | PRINT",
        "0003    | CONSTANT            1 '1'",
        "0005    | CONSTANT            2 '0'",
        "0007    | DIVIDE",
        "0008    | PRINT",
        "0009    | RETURN"]
    (∃ o, outcome 9 read ("--check" :: args) = some o ∧ o.exit = 70 ∧ o.stdout = .empty ∧
      AllOrNothing 9 read ("--check" :: args) o) ∧
    ∃ o, outcome 9 read args = some o ∧ o.exit = 0 ∧ o.stdout = (unlines lines).toUTF8 ∧
      AllOrNothing 9 read args o := by
  intro read args lines
  have hchecked : parse ("--check" :: args) = .ok (.process
      { input := .inline "print 1; print 1 / 0;", config := { check := true }, run := false }) := rfl
  have hparse : parse args = .ok (.process
      { input := .inline "print 1; print 1 / 0;", config := {}, run := false }) := rfl
  have hasks (args : List String) (options : Options) (hrun : options.run = false)
      (hparse : parse args = .ok (.process options)) : AsksToCompile args := by
    intro request hrequest
    cases hparse.symm.trans hrequest
    exact ⟨options, rfl, hrun⟩
  constructor
  · have hresult : (outcome 9 read ("--check" :: args)).map (fun o => (o.exit, o.stdout))
        = some (70, .empty) := by decide +kernel
    obtain ⟨o, ho, hresult⟩ := Option.map_eq_some_iff.mp hresult
    obtain ⟨hexit, hstdout⟩ := Prod.mk.inj hresult
    exact ⟨o, ho, hexit, hstdout, compile_all_or_nothing (hasks _ _ rfl hchecked) ho⟩
  · have hresult : (outcome 9 read args).map (fun o => (o.exit, o.stdout))
        = some (0, (unlines lines).toUTF8) := by decide +kernel
    obtain ⟨o, ho, hresult⟩ := Option.map_eq_some_iff.mp hresult
    obtain ⟨hexit, hstdout⟩ := Prod.mk.inj hresult
    exact ⟨o, ho, hexit, hstdout, compile_all_or_nothing (hasks _ _ rfl hparse) ho⟩

end CommandLine

end Scriptlet
