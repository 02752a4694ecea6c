import Scriptlet.Proofs.Following

/-! # A bounded sink only cuts the output off

What a program prints does not depend on where it goes. An execution is described here without any sink
(`Executes`): by the print statements that are executed, each with its line and its value, by the way it
ends, and by the variables that it leaves. The interpreter hands these prints on, one after the other,
and stops at the first one that the sink does not take as a whole (`Sink.deliver`). That this is all a
sink can do to a run is proved for every kind of step (`Exec.Delivers`), and once that is known, how much
of the output a bounded sink holds is a matter of counting bytes.

The interpreter gives up on loops that go on for too long. So a run to start from is one that has ended,
on a sink that takes everything, and the description is read off that run (`Exec.Logs`).

## Main statement

* `bounded_sink_truncates`: with a limit, a run has the same output and result if the output fits, and
  otherwise it fails at the print that does not fit, behind as much of the output as does.
-/

namespace Scriptlet

/-! ## Executions without a sink -/

/-- The execution of a print statement: the line of the statement, and the value that it prints. -/
structure Print where
  line : Nat
  value : Value

namespace Print

/-- The bytes of a print: the text of the value and a line end. -/
def bytes (p : Print) : ByteArray :=
  (p.value.text ++ "\n").toUTF8

/-- The bytes of some prints, one after the other. -/
def output : List Print → ByteArray
  | [] => .empty
  | p :: prints => p.bytes ++ output prints

end Print

/-- The expression that a statement evaluates first, if it begins with one. -/
def Stmt.first? : Stmt → Option Expr
  | .print _ value => some value
  | .expression _ value => some value
  | .var _ _ initial => initial
  | .block _ _ => none
  | .ifThen _ condition _ _ => some condition
  | .whileDo _ condition _ => some condition

mutual

/-- From the scopes `s`, executing a statement makes some prints, ends with a result, and leads to the
scopes `t`. -/
inductive Executes : Stmt → (s : Scopes Value) → List Print → Except RuntimeError Unit →
    (t : Scopes Value) → Prop
  | print {line value v s t} :
      value.eval s = .ok v t →
      Executes (.print line value) s [{ line, value := v }] (.ok ()) t
  | expression {line value v s t} :
      value.eval s = .ok v t →
      Executes (.expression line value) s [] (.ok ()) t
  | varUnset {line name s} :
      Executes (.var line name none) s [] (.ok ()) (s.define name .nil)
  | var {line name initial v s t} :
      initial.eval s = .ok v t →
      Executes (.var line name (some initial)) s [] (.ok ()) (t.define name v)
  | block {line body s prints r t} :
      ExecutesAll body s.enter prints r t →
      Executes (.block line body) s prints r t.leave
  | yes {line condition yes no v s t prints r u} :
      condition.eval s = .ok v t →
      v.truthy = true →
      Executes yes t prints r u →
      Executes (.ifThen line condition yes no) s prints r u
  | no {line condition yes no v s t prints r u} :
      condition.eval s = .ok v t →
      v.truthy = false →
      Executes no t prints r u →
      Executes (.ifThen line condition yes (some no)) s prints r u
  | noElse {line condition yes v s t} :
      condition.eval s = .ok v t →
      v.truthy = false →
      Executes (.ifThen line condition yes none) s [] (.ok ()) t
  -- A loop is done, or goes through a round and starts again, or is broken by a round that fails.
  | done {line condition body v s t} :
      condition.eval s = .ok v t →
      v.truthy = false →
      Executes (.whileDo line condition body) s [] (.ok ()) t
  | round {line condition body v s t prints u prints' r w} :
      condition.eval s = .ok v t →
      v.truthy = true →
      Executes body t prints (.ok ()) u →
      Executes (.whileDo line condition body) u prints' r w →
      Executes (.whileDo line condition body) s (prints ++ prints') r w
  | broken {line condition body v s t prints e u} :
      condition.eval s = .ok v t →
      v.truthy = true →
      Executes body t prints (.error e) u →
      Executes (.whileDo line condition body) s prints (.error e) u
  -- What a statement evaluates first comes before all that it prints.
  | fails {st e error s t} :
      st.first? = some e →
      e.eval s = .error error t →
      Executes st s [] (.error error) t

/-- From the scopes `s`, executing statements one after the other makes some prints, ends with a result,
and leads to the scopes `t`. -/
inductive ExecutesAll : List Stmt → (s : Scopes Value) → List Print → Except RuntimeError Unit →
    (t : Scopes Value) → Prop
  | nil {s} : ExecutesAll [] s [] (.ok ()) s
  | cons {st rest s prints t prints' r u} :
      Executes st s prints (.ok ()) t →
      ExecutesAll rest t prints' r u →
      ExecutesAll (st :: rest) s (prints ++ prints') r u
  | broken {st rest s prints e t} :
      Executes st s prints (.error e) t →
      ExecutesAll (st :: rest) s prints (.error e) t

end

/-! ## Delivery -/

namespace Sink

/-- Writes prints one after the other, up to the first one that the sink does not take as a whole. Gives
the line of that one, if there is one. -/
def deliver (sink : Sink) : List Print → Option Nat × Sink
  | [] => (none, sink)
  | p :: prints =>
      match sink.write p.bytes with
      | (true, sink) => sink.deliver prints
      | (false, sink) => (some p.line, sink)

variable {sink sink' : Sink} {prints : List Print} {line : Nat}

/-- Prints behind others that were all delivered go on from there. -/
theorem deliver_append_whole (h : sink.deliver prints = (none, sink')) (more : List Print) :
    sink.deliver (prints ++ more) = sink'.deliver more := by
  induction prints generalizing sink with
  | nil =>
    cases h
    rfl
  | cons p prints ih =>
    rw [deliver] at h
    rw [List.cons_append, deliver]
    rcases hwrite : sink.write p.bytes with ⟨_ | _, next⟩
    · rw [hwrite] at h
      cases h
    · rw [hwrite] at h
      exact ih h

/-- Prints behind one that was cut are not delivered. -/
theorem deliver_append_cut (h : sink.deliver prints = (some line, sink')) (more : List Print) :
    sink.deliver (prints ++ more) = (some line, sink') := by
  induction prints generalizing sink with
  | nil => cases h
  | cons p prints ih =>
    rw [deliver] at h
    rw [List.cons_append, deliver]
    rcases hwrite : sink.write p.bytes with ⟨_ | _, next⟩
    · rw [hwrite] at h
      exact h
    · rw [hwrite] at h
      exact ih h

/-- A sink without a limit takes everything. -/
theorem deliver_unlimited (bytes : ByteArray) (prints : List Print) :
    Sink.deliver { bytes, limit := none } prints
      = (none, { bytes := bytes ++ Print.output prints, limit := none }) := by
  induction prints generalizing bytes with
  | nil =>
    rw [deliver, Print.output, ByteArray.append_empty]
  | cons p prints ih =>
    have hrest := ih (bytes ++ p.bytes)
    rw [ByteArray.append_assoc] at hrest
    exact hrest

/-- A text that fits is written. -/
theorem write_of_fits {bytes text : ByteArray} {limit : Nat} (h : bytes.size + text.size ≤ limit) :
    Sink.write { bytes, limit := some limit } text
      = (true, { bytes := bytes ++ text, limit := some limit }) := by
  have hroom : text.size ≤ limit - bytes.size := by omega
  simp only [write, if_pos hroom]

/-- A text that does not fit is cut at the limit. -/
theorem write_of_exceeds {bytes text : ByteArray} {limit : Nat}
    (h : limit < bytes.size + text.size) (hbytes : bytes.size ≤ limit) :
    Sink.write { bytes, limit := some limit } text
      = (false, { bytes := bytes ++ text.extract 0 (limit - bytes.size), limit := some limit }) := by
  have hroom : ¬ text.size ≤ limit - bytes.size := by omega
  simp only [write, if_neg hroom]

/-- Output within the limit is taken. -/
theorem deliver_of_fits {bytes : ByteArray} {limit : Nat} {prints : List Print}
    (h : bytes.size + (Print.output prints).size ≤ limit) :
    Sink.deliver { bytes, limit := some limit } prints
      = (none, { bytes := bytes ++ Print.output prints, limit := some limit }) := by
  induction prints generalizing bytes with
  | nil =>
    rw [deliver, Print.output, ByteArray.append_empty]
  | cons p prints ih =>
    rw [Print.output, ByteArray.size_append] at h
    have hfirst : bytes.size + p.bytes.size ≤ limit := by omega
    have hrest : (bytes ++ p.bytes).size + (Print.output prints).size ≤ limit := by
      rw [ByteArray.size_append]
      omega
    rw [deliver, write_of_fits hfirst]
    exact (ih hrest).trans (by rw [Print.output, ByteArray.append_assoc])

theorem extract_append_of_le {a b : ByteArray} {n : Nat} (h : n ≤ a.size) :
    (a ++ b).extract 0 n = a.extract 0 n := by
  rw [ByteArray.extract_append, Nat.zero_sub, Nat.sub_eq_zero_of_le h]
  simp

theorem extract_append_of_ge {a b : ByteArray} {n : Nat} (h : a.size ≤ n) :
    (a ++ b).extract 0 n = a ++ b.extract 0 (n - a.size) := by
  have ha : a.extract 0 n = a := by
    apply ByteArray.ext
    rw [ByteArray.data_extract]
    exact Array.extract_eq_self_of_le h
  rw [ByteArray.extract_append, ha, Nat.zero_sub]

/-- Output beyond the limit is cut off at the limit, and the print in which that happens is the last one
to be written. -/
theorem deliver_of_exceeds {bytes : ByteArray} {limit : Nat} {prints : List Print}
    (hbytes : bytes.size ≤ limit) (h : limit < bytes.size + (Print.output prints).size) :
    ∃ front p back, prints = front ++ p :: back ∧
      bytes.size + (Print.output front).size ≤ limit ∧
      limit < bytes.size + (Print.output (front ++ [p])).size ∧
      Sink.deliver { bytes, limit := some limit } prints
        = (some p.line,
          { bytes := bytes ++ (Print.output prints).extract 0 (limit - bytes.size)
            limit := some limit }) := by
  -- on the prints: the first one that exceeds the limit is cut
  induction prints generalizing bytes with
  | nil =>
    have hempty : (Print.output []).size = 0 := rfl
    omega
  | cons p prints ih =>
    rw [Print.output, ByteArray.size_append] at h
    rcases Nat.lt_or_ge limit (bytes.size + p.bytes.size) with hexceeds | hfits
    · -- the first print does not fit
      refine ⟨[], p, prints, rfl, hbytes, ?_, ?_⟩
      · simpa [Print.output, ByteArray.append_empty] using hexceeds
      · have hcut : (Print.output (p :: prints)).extract 0 (limit - bytes.size)
            = p.bytes.extract 0 (limit - bytes.size) := extract_append_of_le (by omega)
        rw [deliver, write_of_exceeds hexceeds hbytes, hcut]
    · -- it fits, and the limit is reached behind it
      have hsize : (bytes ++ p.bytes).size = bytes.size + p.bytes.size := ByteArray.size_append
      have hrest : limit < (bytes ++ p.bytes).size + (Print.output prints).size := by omega
      obtain ⟨front, q, back, rfl, hfront, hback, hdeliver⟩ := ih (hsize ▸ hfits) hrest
      refine ⟨p :: front, q, back, rfl, ?_, ?_, ?_⟩
      · rw [Print.output, ByteArray.size_append]
        omega
      · rw [List.cons_append, Print.output, ByteArray.size_append]
        omega
      · have hcut : (Print.output (p :: (front ++ q :: back))).extract 0 (limit - bytes.size)
            = p.bytes ++ (Print.output (front ++ q :: back)).extract 0
              (limit - (bytes ++ p.bytes).size) := by
          rw [Print.output, extract_append_of_ge (by omega), hsize, Nat.sub_sub]
        rw [deliver, write_of_fits hfits, hcut, ← ByteArray.append_assoc]
        exact hdeliver

end Sink

/-! ## Steps that deliver -/

namespace Exec

variable {α β : Type}

/-- The end of a step that has not been stopped. -/
def ended (r : Except RuntimeError α) (session : Session) : EStateM.Result Halt Session α :=
  match r with
  | .ok a => .ok a session
  | .error e => .error (.error e) session

/-- From the scopes `s`, the step delivers some prints, whatever the sink is. If the sink takes them all,
the step ends with a result and in the scopes `t`; otherwise it fails where the sink is full. -/
structure Delivers (step : Exec α) (s : Scopes Value) (prints : List Print)
    (r : Except RuntimeError α) (t : Scopes Value) : Prop where
  whole {sink sink' : Sink} (h : sink.deliver prints = (none, sink')) :
    step { scopes := s, sink } = ended r { scopes := t, sink := sink' }
  cut {sink sink' : Sink} {line : Nat} (h : sink.deliver prints = (some line, sink')) :
    ∃ u, step { scopes := s, sink } = .error (.error (.sinkFull line)) { scopes := u, sink := sink' }

namespace Delivers

variable {step : Exec α} {f : α → Exec β} {s t u : Scopes Value} {prints prints' : List Print}

/-- A step that has nothing to do with the sink. -/
theorem silent {r : Except RuntimeError α}
    (h : ∀ sink, step { scopes := s, sink } = ended r { scopes := t, sink }) :
    step.Delivers s [] r t := by
  constructor
  · intro sink sink' hdeliver
    cases hdeliver
    exact h sink
  · intro sink sink' line hdeliver
    cases hdeliver

/-- The prints of a step and of what follows it are delivered in this order. -/
theorem bind {a : α} {r : Except RuntimeError β} (h : step.Delivers s prints (.ok a) t)
    (h' : (f a).Delivers t prints' r u) : (step >>= f).Delivers s (prints ++ prints') r u := by
  constructor
  · intro sink sink' hdeliver
    -- were the prints of the first step all delivered?
    rcases hfirst : sink.deliver prints with ⟨_ | line, next⟩
    · rw [Sink.deliver_append_whole hfirst] at hdeliver
      rw [EStateM.bind_of_ok (h.whole hfirst)]
      exact h'.whole hdeliver
    · rw [Sink.deliver_append_cut hfirst] at hdeliver
      cases hdeliver
  · intro sink sink' line hdeliver
    rcases hfirst : sink.deliver prints with ⟨_ | line', next⟩
    · rw [Sink.deliver_append_whole hfirst] at hdeliver
      rw [EStateM.bind_of_ok (h.whole hfirst)]
      exact h'.cut hdeliver
    · -- what follows is not executed
      rw [Sink.deliver_append_cut hfirst] at hdeliver
      cases hdeliver
      obtain ⟨v, hcut⟩ := h.cut hfirst
      exact ⟨v, EStateM.bind_of_error hcut⟩

/-- What follows a failed step prints nothing. -/
theorem bind_error {e : RuntimeError} (h : step.Delivers s prints (.error e) t) :
    (step >>= f).Delivers s prints (.error e) t := by
  constructor
  · intro sink sink' hdeliver
    exact EStateM.bind_of_error (h.whole hdeliver)
  · intro sink sink' line hdeliver
    obtain ⟨v, hcut⟩ := h.cut hdeliver
    exact ⟨v, EStateM.bind_of_error hcut⟩

/-- A block prints what its body prints. -/
theorem inScope {r : Except RuntimeError α} (h : step.Delivers s.enter prints r t) :
    (Exec.inScope step).Delivers s prints r t.leave := by
  constructor
  · intro sink sink' hdeliver
    cases r with
    | ok a => simp only [Exec.inScope, h.whole hdeliver, ended]
    | error e => simp only [Exec.inScope, h.whole hdeliver, ended]
  · intro sink sink' line hdeliver
    obtain ⟨v, hcut⟩ := h.cut hdeliver
    exact ⟨v.leave, by simp only [Exec.inScope, hcut]⟩

/-- One print is delivered as a whole, or is cut itself. -/
theorem printLine (line : Nat) (v : Value) (s : Scopes Value) :
    (Exec.printLine line v).Delivers s [{ line, value := v }] (.ok ()) s := by
  constructor
  · intro sink sink' hdeliver
    rcases hwrite : sink.write (v.text ++ "\n").toUTF8 with ⟨_ | _, next⟩
    · simp only [Sink.deliver, Print.bytes, hwrite] at hdeliver
      cases hdeliver
    · simp only [Sink.deliver, Print.bytes, hwrite] at hdeliver
      cases hdeliver
      simp only [Exec.printLine, hwrite, ended]
  · intro sink sink' line' hdeliver
    rcases hwrite : sink.write (v.text ++ "\n").toUTF8 with ⟨_ | _, next⟩
    · simp only [Sink.deliver, Print.bytes, hwrite] at hdeliver
      cases hdeliver
      exact ⟨s, by simp only [Exec.printLine, hwrite]⟩
    · simp only [Sink.deliver, Print.bytes, hwrite] at hdeliver
      cases hdeliver

theorem define (name : String) (v : Value) (s : Scopes Value) :
    (Exec.define name v).Delivers s [] (.ok ()) (s.define name v) :=
  silent fun _ => rfl

theorem pure (a : α) (s : Scopes Value) : (Pure.pure a : Exec α).Delivers s [] (.ok a) s :=
  silent fun _ => rfl

theorem ofEval_ok {m : Eval α} {a : α} (h : m s = .ok a t) :
    (Exec.ofEval m).Delivers s [] (.ok a) t :=
  silent fun _ => by simp only [Exec.ofEval, h, ended]

theorem ofEval_error {m : Eval α} {e : RuntimeError} (h : m s = .error e t) :
    (Exec.ofEval m).Delivers s [] (.error e) t :=
  silent fun _ => by simp only [Exec.ofEval, h, ended]

end Delivers

/-! ## Reading the prints off a run -/

/-- A run that finishes has ended, well or not. -/
theorem finish_eq_some_iff {step : Exec α} {session session' : Session} {r : Except RuntimeError α} :
    step.finish session = some (r, session') ↔ step session = ended r session' := by
  unfold finish
  rcases step session with ⟨a, t⟩ | ⟨e | _, t⟩ <;> rcases r with e' | a' <;> simp [ended]

theorem ended_inj {r r' : Except RuntimeError α} {session session' : Session} :
    ended r session = ended r' session' ↔ r = r' ∧ session = session' := by
  rcases r with e | a <;> rcases r' with e' | a' <;> simp [ended]

/-- A step ends, or has run out of rounds. -/
theorem ended_or_unfinished (step : Exec α) (session : Session) :
    (∃ r session', step session = ended r session') ∨
      ∃ session', step session = .error .unfinished session' := by
  rcases step session with ⟨a, t⟩ | ⟨e | _, t⟩
  · exact .inl ⟨.ok a, t, rfl⟩
  · exact .inl ⟨.error e, t, rfl⟩
  · exact .inr ⟨t, rfl⟩

theorem ended_ne_unfinished {r : Except RuntimeError α} {session session' : Session} :
    ended r session ≠ .error .unfinished session' := by
  rcases r with e | a <;> simp [ended]

/-- Which courses a step may take: from which scopes it starts, what it prints, and how and in which
scopes it ends. -/
abbrev Course (α : Type) :=
  Scopes Value → List Print → Except RuntimeError α → Scopes Value → Prop

/-- Whenever the step ends, on a sink without a limit, it has delivered the prints of one of the given
courses. -/
def Logs (step : Exec α) (R : Course α) : Prop :=
  ∀ (s : Scopes Value) (bytes : ByteArray) (r : Except RuntimeError α) (session : Session),
    step { scopes := s, sink := { bytes, limit := none } } = ended r session →
    ∃ prints, R s prints r session.scopes ∧ step.Delivers s prints r session.scopes

namespace Logs

variable {step : Exec α} {f : α → Exec β} {R S : Course α} {T : Course β}

theorem mono (h : step.Logs R) (hS : ∀ {s prints r t}, R s prints r t → S s prints r t) :
    step.Logs S := by
  intro s bytes r session hrun
  obtain ⟨prints, hlogged, hdelivers⟩ := h _ _ _ _ hrun
  exact ⟨prints, hS hlogged, hdelivers⟩

/-- The session in which a delivery to a sink without a limit ends. -/
theorem session_eq {s t : Scopes Value} {bytes : ByteArray} {prints : List Print}
    {r r' : Except RuntimeError α} {session : Session} (h : step.Delivers s prints r t)
    (hrun : step { scopes := s, sink := { bytes, limit := none } } = ended r' session) :
    r' = r ∧
      session = { scopes := t, sink := { bytes := bytes ++ Print.output prints, limit := none } } := by
  rw [h.whole (Sink.deliver_unlimited bytes prints), ended_inj] at hrun
  exact ⟨hrun.1.symm, hrun.2.symm⟩

/-- A step that makes the same prints in all scopes. -/
theorem of_delivers {prints : List Print} {a : α} {next : Scopes Value → Scopes Value}
    (h : ∀ s, step.Delivers s prints (.ok a) (next s)) (hR : ∀ s, R s prints (.ok a) (next s)) :
    step.Logs R := by
  intro s bytes r session hrun
  obtain ⟨rfl, rfl⟩ := session_eq (h s) hrun
  exact ⟨prints, hR s, h s⟩

/-- Each of two steps has its prints, and together they have both. -/
theorem bind (h : step.Logs R)
    (hbroken : ∀ {s prints e t}, R s prints (.error e) t → T s prints (.error e) t)
    (hf : ∀ a, (f a).Logs fun t prints' r u =>
      ∀ {s prints}, R s prints (.ok a) t → T s (prints ++ prints') r u) :
    (step >>= f).Logs T := by
  intro s bytes r session hrun
  rcases ended_or_unfinished step { scopes := s, sink := { bytes, limit := none } } with
    ⟨result, ⟨t, sink⟩, hended⟩ | ⟨t, hunfinished⟩
  · obtain ⟨prints, hR, hdelivers⟩ := h _ _ _ _ hended
    cases result with
    | ok a =>
      -- the sink has no limit after the first step either, so the second one logs as well
      obtain ⟨-, hsession⟩ := session_eq hdelivers hended
      cases hsession
      rw [EStateM.bind_of_ok hended] at hrun
      obtain ⟨prints', hT, hdelivers'⟩ := hf a _ _ _ _ hrun
      exact ⟨prints ++ prints', hT hR, hdelivers.bind hdelivers'⟩
    | error e =>
      obtain ⟨rfl, rfl⟩ := session_eq hdelivers.bind_error hrun
      exact ⟨prints, hbroken hR, hdelivers.bind_error⟩
  · rw [EStateM.bind_of_error hunfinished] at hrun
    exact absurd hrun.symm ended_ne_unfinished

/-- The prints of a block are those of its body. -/
theorem inScope (h : step.Logs R)
    (hS : ∀ {s prints r t}, R s.enter prints r t → S s prints r t.leave) :
    (Exec.inScope step).Logs S := by
  intro s bytes r session hrun
  rcases ended_or_unfinished step { scopes := s.enter, sink := { bytes, limit := none } } with
    ⟨result, ⟨t, sink⟩, hended⟩ | ⟨t, hunfinished⟩
  · obtain ⟨prints, hR, hdelivers⟩ := h _ _ _ _ hended
    obtain ⟨rfl, rfl⟩ := session_eq hdelivers.inScope hrun
    exact ⟨prints, hS hR, hdelivers.inScope⟩
  · simp only [Exec.inScope, hunfinished] at hrun
    exact absurd hrun.symm ended_ne_unfinished

/-- A step that begins with the value of an expression. -/
theorem eval_bind {e : Expr} {f : Value → Exec β}
    (hfails : ∀ {s error t}, e.eval s = .error error t → T s [] (.error error) t)
    (hf : ∀ v, (f v).Logs fun t prints r u => ∀ {s}, e.eval s = .ok v t → T s prints r u) :
    (Exec.ofEval e.eval >>= f).Logs T := by
  intro s bytes r session hrun
  -- evaluation prints nothing, so the sink is the same behind it
  rcases heval : e.eval s with ⟨v, t⟩ | ⟨error, t⟩
  · have hvalue : Exec.ofEval e.eval { scopes := s, sink := { bytes, limit := none } }
        = .ok v { scopes := t, sink := { bytes, limit := none } } := by
      simp only [Exec.ofEval, heval]
    rw [EStateM.bind_of_ok hvalue] at hrun
    obtain ⟨prints, hT, hdelivers⟩ := hf v _ _ _ _ hrun
    exact ⟨prints, hT heval, (Delivers.ofEval_ok heval).bind hdelivers⟩
  · have hdelivers : (Exec.ofEval e.eval >>= f).Delivers s [] (.error error) t :=
      (Delivers.ofEval_error heval).bind_error
    obtain ⟨rfl, rfl⟩ := session_eq hdelivers hrun
    exact ⟨[], hfails heval, hdelivers⟩

/-- A condition prints nothing, and what follows depends on its value. -/
theorem holds_bind {e : Expr} {f : Bool → Exec β}
    (hfails : ∀ {s error t}, e.eval s = .error error t → T s [] (.error error) t)
    (hf : ∀ v, (f v.truthy).Logs fun t prints r u => ∀ {s}, e.eval s = .ok v t → T s prints r u) :
    (Exec.holds e >>= f).Logs T := by
  rw [Exec.holds, bind_assoc]
  exact eval_bind hfails hf

/-- A loop executes its rounds one after the other, up to the bound. -/
theorem repeatWhile {line : Nat} {condition : Expr} {body : Stmt} {step : Exec Unit}
    (h : step.Logs (Executes body)) (bound : Nat) :
    (Exec.repeatWhile (Exec.holds condition) step bound).Logs
      (Executes (.whileDo line condition body)) := by
  induction bound with
  | zero =>
    -- no rounds are left, so this is not an end
    intro s bytes r session hrun
    exact absurd hrun.symm ended_ne_unfinished
  | succ bound ih =>
    -- a round is the condition, the body and a loop with one round less
    rw [Exec.repeatWhile]
    refine holds_bind (fun hfail => .fails rfl hfail) fun v => ?_
    cases htruthy : v.truthy with
    | false =>
      exact of_delivers (Delivers.pure ()) fun _ _ heval => .done heval htruthy
    | true =>
      refine bind h (fun hbody _ heval => .broken heval htruthy hbody) fun _ => ?_
      exact ih.mono fun hloop _ _ hbody _ heval => .round heval htruthy hbody hloop

end Logs

mutual

/-- What the interpreter does with a statement is an execution of it. -/
theorem logs_exec (bound : Nat) : (st : Stmt) → (st.exec bound).Logs (Executes st)
  | .print line value => by
      rw [Stmt.exec]
      refine Logs.eval_bind (fun hfail => .fails rfl hfail) fun v => ?_
      exact Logs.of_delivers (Delivers.printLine line v) fun _ _ heval => .print heval
  | .expression line value => by
      rw [Stmt.exec]
      refine Logs.eval_bind (fun hfail => .fails rfl hfail) fun v => ?_
      exact Logs.of_delivers (Delivers.pure ()) fun _ _ heval => .expression heval
  | .var line name none => by
      rw [Stmt.exec]
      exact Logs.of_delivers (Delivers.define name .nil) fun _ => .varUnset
  | .var line name (some initial) => by
      rw [Stmt.exec]
      refine Logs.eval_bind (fun hfail => .fails rfl hfail) fun v => ?_
      exact Logs.of_delivers (Delivers.define name v) fun _ _ heval => .var heval
  | .block line body => by
      rw [Stmt.exec]
      exact (logs_execAll bound body).inScope fun hbody => .block hbody
  | .ifThen line condition yes no => by
      rw [exec_ifThen]
      refine Logs.holds_bind (fun hfail => .fails rfl hfail) fun v => ?_
      cases htruthy : v.truthy with
      | true => exact (logs_exec bound yes).mono fun hyes _ heval => .yes heval htruthy hyes
      | false =>
        match no with
        | none => exact Logs.of_delivers (Delivers.pure ()) fun _ _ heval => .noElse heval htruthy
        | some no => exact (logs_exec bound no).mono fun hno _ heval => .no heval htruthy hno
  | .whileDo line condition body => by
      rw [Stmt.exec]
      exact (logs_exec bound body).repeatWhile bound

/-- What the interpreter does with a sequence of statements is an execution of the sequence. -/
theorem logs_execAll (bound : Nat) :
    (sts : List Stmt) → (Stmt.execAll bound sts).Logs (ExecutesAll sts)
  | [] => by
      rw [Stmt.execAll]
      exact Logs.of_delivers (Delivers.pure ()) fun _ => .nil
  | st :: rest => by
      rw [Stmt.execAll]
      refine (logs_exec bound st).bind (fun hbroken => .broken hbroken) fun _ => ?_
      exact (logs_execAll bound rest).mono fun hrest _ _ hst => .cons hst hrest

end

end Exec

/-! ## Runs on a bounded sink -/

/-- A program that comes to an end on a sink without a limit executes some print statements, and its
output is theirs. On a sink with a limit, the run is the same if the output fits. If it does not, the sink
is left with the first bytes of the output, as many as it takes, and the run fails: on the line of the
print statement in whose execution the limit is passed. -/
theorem bounded_sink_truncates {p : Program} {bound : Nat} {r : Except RuntimeError Unit}
    {session : Session} (hrun : (Session.start .unlimited).run bound p = some (r, session)) :
    ∃ prints : List Print,
      ExecutesAll p .empty prints r session.scopes ∧
      session.sink.bytes = Print.output prints ∧
      ∀ limit : Nat,
        (session.sink.bytes.size ≤ limit →
          ∃ bounded, (Session.start (.limited limit)).run bound p = some (r, bounded) ∧
            bounded.scopes = session.scopes ∧ bounded.sink.bytes = session.sink.bytes) ∧
        (limit < session.sink.bytes.size →
          ∃ bounded front print back,
            prints = front ++ print :: back ∧
            (Print.output front).size ≤ limit ∧ limit < (Print.output (front ++ [print])).size ∧
            (Session.start (.limited limit)).run bound p
              = some (.error (.sinkFull print.line), bounded) ∧
            bounded.sink.bytes = session.sink.bytes.extract 0 limit) := by
  -- The prints are those of the run without a limit. Every other run delivers the same ones.
  have hended := Exec.finish_eq_some_iff.mp hrun
  obtain ⟨prints, hexecutes, hdelivers⟩ := Exec.logs_execAll bound p _ _ _ _ hended
  obtain ⟨-, hsession⟩ := Exec.Logs.session_eq hdelivers hended
  have hbytes : session.sink.bytes = Print.output prints := by
    rw [hsession, ByteArray.empty_append]
  refine ⟨prints, hexecutes, hbytes, fun limit => ?_⟩
  rw [hbytes]
  constructor
  · intro hfits
    have hwhole : (Sink.limited limit).deliver prints = (none, _) :=
      Sink.deliver_of_fits (by simpa using hfits)
    exact ⟨_, Exec.finish_eq_some_iff.mpr (hdelivers.whole hwhole), rfl, ByteArray.empty_append⟩
  · intro hexceeds
    have hstart : ByteArray.empty.size ≤ limit := Nat.zero_le limit
    obtain ⟨front, print, back, hprints, hfront, hprint, hcut⟩ :=
      Sink.deliver_of_exceeds hstart (by simpa using hexceeds)
    obtain ⟨scopes, hfails⟩ := hdelivers.cut hcut
    refine ⟨_, front, print, back, hprints, ?_, ?_, Exec.finish_eq_some_iff.mpr hfails, ?_⟩
    · simpa using hfront
    · simpa using hprint
    · simp

/-- Two rounds of a loop print eight bytes before the program fails. A limit of eight makes no difference
to that; a limit of six ends the output in the middle of a character of the second round. -/
theorem bounded_sink_truncates_inside_character :
    let p : Program :=
      [.var 1 "i" (some (.literal 1 (.int 0))),
        .whileDo 2 (.binary 2 .less (.ident 2 "i") (.literal 2 (.int 2)))
          (.block 2
            [.print 3 (.literal 3 (.string "né")),
              .expression 4 (.assign 4 "i" (.binary 4 .add (.ident 4 "i") (.literal 4 (.int 1))))]),
        .print 6 (.binary 6 .divide (.ident 6 "i") (.literal 6 (.int 0)))]
    (∃ session, (Session.start .unlimited).run 9 p = some (.error (.divisionByZero 6), session) ∧
      session.sink.bytes = "né\nné\n".toUTF8) ∧
    (∃ bounded, (Session.start (.limited 8)).run 9 p = some (.error (.divisionByZero 6), bounded) ∧
      bounded.sink.bytes = "né\nné\n".toUTF8) ∧
    ∃ bounded, (Session.start (.limited 6)).run 9 p = some (.error (.sinkFull 3), bounded) ∧
      bounded.sink.bytes.data = #[0x6e, 0xc3, 0xa9, 0x0a, 0x6e, 0xc3] := by
  intro p
  have hfull : ((Session.start .unlimited).run 9 p).map (fun r => (r.1, r.2.sink.bytes))
      = some (.error (.divisionByZero 6), "né\nné\n".toUTF8) := rfl
  obtain ⟨⟨r, session⟩, hrun, hr⟩ := Option.map_eq_some_iff.mp hfull
  obtain ⟨rfl, hbytes⟩ := Prod.mk.inj hr
  have hsize : "né\nné\n".toUTF8.size = 8 := by decide +kernel
  obtain ⟨prints, -, -, hlimit⟩ := bounded_sink_truncates hrun
  refine ⟨⟨session, hrun, hbytes⟩, ?_, ?_⟩
  · obtain ⟨bounded, hbounded, -, hsame⟩ := (hlimit 8).1 (Nat.le_of_eq (by rw [hbytes, hsize]))
    exact ⟨bounded, hbounded, hsame.trans hbytes⟩
  · obtain ⟨bounded, _, print, _, _, _, _, hbounded, hcut⟩ :=
      (hlimit 6).2 (by rw [hbytes, hsize]; decide)
    have hfails : ((Session.start (.limited 6)).run 9 p).map Prod.fst
        = some (.error (.sinkFull 3)) := rfl
    have hline : print.line = 3 := by simpa [hbounded] using hfails
    rw [hline] at hbounded
    exact ⟨bounded, hbounded, by rw [hcut, hbytes]; decide +kernel⟩

end Scriptlet
