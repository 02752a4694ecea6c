import Scriptlet.Proofs.Lexical
import Scriptlet.Token.Scan

/-! # Scanning splits a text

A text falls into lexemes and the gaps around them, and nothing of it is lost. A gap is as long as it
can be: no lexeme begins with a space or with the two strokes of a comment. So where a gap ends is no
matter of choice, and where a lexeme ends is settled by taking the longest one.

The scanner walks over a gap character by character and has no gap in its hands; the invariant of its
walk (`Scan.go_partition`) carries the part of the gap that lies behind it.

## Main statement

* `scan_partitions`: every text is split into gaps and longest lexemes, each with its reading and the
  line on which it begins.
-/

namespace Scriptlet

/-! ## Gaps and pieces -/

/-- A gap in front of `rest`: spaces, and comments that run to the end of their line. -/
inductive Gap : List Char → List Char → Prop where
  | nil (rest : List Char) : Gap [] rest
  | space {c : Char} {gap rest : List Char} (hc : IsSpace c) (h : Gap gap rest) : Gap (c :: gap) rest
  | comment {body gap rest : List Char} (hbody : '\n' ∉ body)
      (hend : ∀ c ∈ (gap ++ rest).head?, c = '\n') (h : Gap gap rest) :
      Gap ('/' :: '/' :: body ++ gap) rest

/-- The text goes on with a gap. -/
def StartsGap (text : List Char) : Prop :=
  (∃ c ∈ text.head?, IsSpace c) ∨ ['/', '/'] <+: text

/-- A lexeme with its reading, and the gap in front of it. -/
structure Piece where
  gap : List Char
  text : List Char
  reading : Reading

/-- The text that is made up of the pieces. -/
def covered (pieces : List Piece) : List Char :=
  pieces.flatMap fun p => p.gap ++ p.text

/-- The pieces, in front of a last gap, are those into which their text has to be split. -/
inductive Partition : List Piece → List Char → Prop where
  | last {gap : List Char} (h : Gap gap []) : Partition [] gap
  | piece {p : Piece} {pieces : List Piece} {last : List Char}
      (hgap : Gap p.gap (p.text ++ (covered pieces ++ last)))
      (hstart : ¬ StartsGap (p.text ++ (covered pieces ++ last)))
      (hlongest : Longest Spells (p.text ++ (covered pieces ++ last)) p.text p.reading)
      (h : Partition pieces last) : Partition (p :: pieces) last

@[simp]
theorem covered_cons (p : Piece) (pieces : List Piece) :
    covered (p :: pieces) = p.gap ++ p.text ++ covered pieces :=
  rfl

/-- The number of line ends in a text. -/
def lineEnds (text : List Char) : Nat :=
  text.count '\n'

/-- The lexemes of the pieces of a text that begins on the given line. -/
def lexemesFrom (line : Nat) : List Piece → List Lexeme
  | [] => []
  | p :: pieces =>
      { text := String.ofList p.text, line := line + lineEnds p.gap, reading := p.reading } ::
        lexemesFrom (line + lineEnds p.gap + lineEnds p.text) pieces

@[simp]
theorem lineEnds_append (s t : List Char) : lineEnds (s ++ t) = lineEnds s + lineEnds t :=
  List.count_append

/-- Two gaps in a row are a gap. -/
theorem Gap.append {gap₁ gap₂ rest : List Char} (h₁ : Gap gap₁ (gap₂ ++ rest))
    (h₂ : Gap gap₂ rest) : Gap (gap₁ ++ gap₂) rest := by
  generalize hbehind : gap₂ ++ rest = behind at h₁
  induction h₁ with
  | nil => exact h₂
  | space hc _ ih => exact .space hc (ih hbehind)
  | @comment body gap _ hbody hend _ ih =>
    subst hbehind
    rw [List.append_assoc]
    refine .comment hbody ?_ (ih rfl)
    rwa [List.append_assoc]

/-! ## The walk of the scanner -/

namespace Scan

/-- Space is a line end or a blank. -/
theorem isSpace_iff {c : Char} : IsSpace c ↔ c = '\n' ∨ isBlank c = true := by
  simp [IsSpace, isBlank]
  tauto

/-- What stops a comment is the end of its line. -/
theorem head_behind_comment {rest : List Char} {c : Char}
    (h : c ∈ (rest.dropWhile (· ≠ '\n')).head?) : c = '\n' := by
  cases hdrop : rest.dropWhile (· ≠ '\n') with
  | nil =>
    rw [hdrop] at h
    cases h
  | cons d behind =>
    rw [hdrop] at h
    cases h
    simpa using head_of_dropWhile hdrop

theorem not_mem_comment (rest : List Char) : '\n' ∉ rest.takeWhile (· ≠ '\n') := by
  intro hmem
  simpa using @List.mem_takeWhile_imp _ (fun c => decide (c ≠ '\n')) _ _ hmem

/-- A comment in front of what follows its line is a gap. -/
theorem gap_comment (rest : List Char) :
    Gap ('/' :: '/' :: rest.takeWhile (· ≠ '\n')) (rest.dropWhile (· ≠ '\n')) := by
  have hend : ∀ c ∈ ([] ++ rest.dropWhile (· ≠ '\n')).head?, c = '\n' :=
    fun c hc => head_behind_comment hc
  have h := Gap.comment (not_mem_comment rest) hend (.nil _)
  rwa [List.append_nil] at h

theorem lineEnds_eq_zero {text : List Char} (h : '\n' ∉ text) : lineEnds text = 0 :=
  List.count_eq_zero.mpr h

/-- With `gap` behind it on the way, the scanner splits what lies before it. -/
theorem go_partition {current line : Nat} {cs gap : List Char} (found : List Lexeme)
    (hcurrent : current = line + lineEnds gap) (hgap : Gap gap cs) :
    ∃ pieces last, gap ++ cs = covered pieces ++ last ∧ Partition pieces last ∧
      go current cs found =
        { lexemes := found.reverse ++ lexemesFrom line pieces
          endLine := line + lineEnds (gap ++ cs) } := by
  fun_induction go current cs found generalizing line gap with
  | case1 current found =>
    refine ⟨[], gap, by simp [covered], .last hgap, ?_⟩
    simp [lexemesFrom, hcurrent]
  | case2 current found rest ih =>
    -- the end of a line
    have hspace : Gap ['\n'] rest := .space (by simp [IsSpace]) (.nil rest)
    have hlines : current + 1 = line + lineEnds (gap ++ ['\n']) := by
      rw [lineEnds_append, hcurrent]
      rfl
    have h := ih hlines (hgap.append hspace)
    rwa [List.append_assoc] at h
  | case3 current found c rest hc hblank ih =>
    -- another space
    have hspace : Gap [c] rest := .space (isSpace_iff.mpr (.inr hblank)) (.nil rest)
    have hnone : lineEnds [c] = 0 := lineEnds_eq_zero (by simpa using Ne.symm hc)
    have hlines : current = line + lineEnds (gap ++ [c]) := by
      rw [lineEnds_append, hnone, hcurrent, Nat.add_zero]
    have h := ih hlines (hgap.append hspace)
    rwa [List.append_assoc] at h
  | case4 current found c rest hc hblank hcomment ih =>
    -- a comment
    obtain ⟨rfl, hrest⟩ := hcomment
    cases rest with
    | nil => cases hrest
    | cons d rest =>
      cases hrest
      have hdrop : ('/' :: rest).dropWhile (· ≠ '\n') = rest.dropWhile (· ≠ '\n') := by simp
      have hsplit : ('/' :: '/' :: rest.takeWhile (· ≠ '\n')) ++ rest.dropWhile (· ≠ '\n') =
          '/' :: '/' :: rest := by
        rw [List.cons_append, List.cons_append, List.takeWhile_append_dropWhile]
      have hnone : lineEnds ('/' :: '/' :: rest.takeWhile (· ≠ '\n')) = 0 :=
        lineEnds_eq_zero (by simpa using not_mem_comment rest)
      have hlines : current = line + lineEnds (gap ++ '/' :: '/' :: rest.takeWhile (· ≠ '\n')) := by
        rw [lineEnds_append, hnone, hcurrent, Nat.add_zero]
      rw [hdrop] at ih ⊢
      rw [← hsplit] at hgap
      have h := ih hlines (hgap.append (gap_comment rest))
      rwa [List.append_assoc, hsplit] at h
  | case5 current found c rest hc hblank hcomment cut lexeme =>
    rename_i ih
    -- a lexeme, with which the gap behind the scanner becomes a piece
    have hspace : ¬ IsSpace c := by
      intro h
      rcases isSpace_iff.mp h with hline | hblank'
      · exact hc hline
      · exact hblank hblank'
    have hlongest : Longest Spells (c :: rest) cut.text cut.reading := Cut.read_longest hspace
    have hcut : cut.text ++ cut.rest = c :: rest := Cut.text_append_rest c rest
    obtain ⟨pieces, last, htext, hpartition, hgo⟩ :=
      @ih (current + lineEnds cut.text) [] rfl (.nil cut.rest)
    have hbehind : cut.text ++ (covered pieces ++ last) = c :: rest := by
      rw [← htext, List.nil_append, hcut]
    have hstart : ¬ StartsGap (c :: rest) := by
      rintro (⟨d, hd, hspace'⟩ | ⟨behind, hstrokes⟩)
      · cases hd
        exact hspace hspace'
      · cases hstrokes
        exact hcomment ⟨rfl, rfl⟩
    rw [← hbehind] at hgap hstart hlongest
    refine ⟨⟨gap, cut.text, cut.reading⟩ :: pieces, last, ?_,
      .piece hgap hstart hlongest hpartition, ?_⟩
    · rw [covered_cons, ← hbehind]
      simp
    · subst hcurrent
      have hends : lineEnds (gap ++ c :: rest) =
          lineEnds gap + (lineEnds cut.text + lineEnds ([] ++ cut.rest)) := by
        rw [List.nil_append, lineEnds_append, ← hcut, lineEnds_append]
      refine hgo.trans ?_
      rw [hends, lexemesFrom, List.reverse_cons, List.append_assoc]
      simp only [Nat.add_assoc, List.singleton_append]
      rfl

end Scan

/-! ## The split of a whole text -/

section Whole

variable {front back : List Piece} {p : Piece} {last : List Char}

/-- Every piece of a partition is the one that has to come at its place. -/
theorem Partition.at_piece (h : Partition (front ++ p :: back) last) :
    Gap p.gap (p.text ++ (covered back ++ last)) ∧
      ¬ StartsGap (p.text ++ (covered back ++ last)) ∧
      Longest Spells (p.text ++ (covered back ++ last)) p.text p.reading := by
  induction front with
  | nil =>
    cases h with
    | piece hgap hstart hlongest _ => exact ⟨hgap, hstart, hlongest⟩
  | cons q front ih =>
    cases h with
    | piece _ _ _ h => exact ih h

/-- What is behind the last piece is a gap. -/
theorem Partition.last_gap {pieces : List Piece} (h : Partition pieces last) : Gap last [] := by
  induction h with
  | last h => exact h
  | piece _ _ _ _ ih => exact ih

theorem length_lexemesFrom (line : Nat) (pieces : List Piece) :
    (lexemesFrom line pieces).length = pieces.length := by
  induction pieces generalizing line with
  | nil => rfl
  | cons q pieces ih => simp [lexemesFrom, ih]

/-- The lexeme of a piece is on the line of the text in front of it. -/
theorem lexemesFrom_at_piece (line : Nat) (front : List Piece) (p : Piece) (back : List Piece) :
    (lexemesFrom line (front ++ p :: back))[front.length]? =
      some ⟨String.ofList p.text, line + lineEnds (covered front ++ p.gap), p.reading⟩ := by
  induction front generalizing line with
  | nil => simp [lexemesFrom, covered]
  | cons q front ih =>
    rw [List.cons_append, lexemesFrom, List.length_cons, List.getElem?_cons_succ, ih, covered_cons]
    simp only [lineEnds_append, Nat.add_assoc]

end Whole

/-- No lexeme is read as the end of the input. -/
theorem Spells.kind_ne_endOfInput {text : List Char} {kind : TokenKind} {literal : Option Value}
    (h : Spells text (.token kind literal)) : kind ≠ .endOfInput := by
  cases h with
  | symbol h =>
    cases h
    exact TokenKind.noConfusion
  | quoted h =>
    cases h
    exact TokenKind.noConfusion
  | numeral h => cases h <;> exact TokenKind.noConfusion
  | word h => cases h <;> exact TokenKind.noConfusion

/-- Nothing follows a string that is not closed: it could be continued by whatever did. -/
theorem Longest.rest_of_unterminated {text rest : List Char}
    (h : Longest Spells (text ++ rest) text .unterminated) : rest = [] := by
  cases rest with
  | nil => rfl
  | cons c rest =>
    -- one more character would be part of the string too
    have hlonger : ∃ r, Spells (text ++ [c]) r := by
      cases h.isAllowed with
      | symbol h => cases h
      | word h => cases h
      | numeral h => cases h
      | quoted h =>
        cases h with
        | @unclosed body hbody =>
          by_cases hc : c = '"'
          · subst hc
            exact ⟨_, .quoted (.closed hbody)⟩
          · have hmore : '"' ∉ body ++ [c] := by simpa [hbody] using Ne.symm hc
            exact ⟨_, .quoted (.unclosed hmore)⟩
    obtain ⟨r, hr⟩ := hlonger
    have hfront : text ++ [c] <+: text ++ c :: rest := ⟨rest, by simp⟩
    rcases h.longest hfront hr with hlt | ⟨heq, -⟩
    · simp at hlt
    · simp at heq

/-- The lexemes of a partition are texts of the grammar, with the readings that it gives them. -/
theorem Partition.spells_text {pieces : List Piece} {last : List Char} (h : Partition pieces last)
    (line : Nat) : ∀ l ∈ lexemesFrom line pieces, Spells l.text.toList l.reading := by
  induction h generalizing line with
  | last => simp [lexemesFrom]
  | @piece p pieces last _ _ hlongest _ ih =>
    intro l hl
    rcases List.mem_cons.mp hl with rfl | hmem
    · rw [String.toList_ofList]
      exact hlongest.isAllowed
    · exact ih _ l hmem

/-- Each piece is a lexeme with its reading. -/
theorem Partition.spells {pieces : List Piece} {last : List Char} (h : Partition pieces last)
    (line : Nat) : ∀ l ∈ lexemesFrom line pieces, ∃ text, Spells text l.reading :=
  fun l hl => ⟨_, h.spells_text line l hl⟩

/-- A lexeme is a token or an error, and never both. -/
theorem Lexeme.token?_xor_error? (l : Lexeme) : l.token?.isSome = !l.error?.isSome := by
  obtain ⟨text, line, reading⟩ := l
  cases reading <;> rfl

/-- Scanning splits a text into gaps and lexemes and loses nothing of it.

The pieces, each a gap and the lexeme behind it, and a last gap make up the text. Every gap consists of
spaces and comments and is as long as it can be, and every lexeme is the longest one that the grammar
allows in front of the text that is left; a string that is not closed runs to the end. The lexemes are,
in order, those of the scan, with their readings and with one more than the number of line ends in
front of them as their lines. Each of them is a token or an error. Behind the tokens stands the one mark
for the end of the input, on the last line. -/
theorem scan_partitions (source : String) :
    ∃ (pieces : List Piece) (last : List Char),
      source.toList = covered pieces ++ last ∧ Gap last [] ∧
      (scan source).lexemes.length = pieces.length ∧
      (∀ (front : List Piece) (p : Piece) (back : List Piece), pieces = front ++ p :: back →
        Gap p.gap (p.text ++ (covered back ++ last)) ∧
        ¬ StartsGap (p.text ++ (covered back ++ last)) ∧
        Longest Spells (p.text ++ (covered back ++ last)) p.text p.reading ∧
        (p.reading = .unterminated → covered back ++ last = []) ∧
        (scan source).lexemes[front.length]? =
          some ⟨String.ofList p.text, 1 + lineEnds (covered front ++ p.gap), p.reading⟩) ∧
      (∀ l ∈ (scan source).lexemes, l.token?.isSome = !l.error?.isSome) ∧
      (scan source).errors = (scan source).lexemes.filterMap Lexeme.error? ∧
      (scan source).tokens = (scan source).lexemes.filterMap Lexeme.token? ++
        [Token.atEnd (1 + lineEnds source.toList)] ∧
      ∀ t ∈ (scan source).lexemes.filterMap Lexeme.token?, t.kind ≠ .endOfInput := by
  obtain ⟨pieces, last, htext, hpartition, hgo⟩ :=
    @Scan.go_partition 1 1 source.toList [] [] rfl (.nil _)
  have hlexemes : (scan source).lexemes = lexemesFrom 1 pieces := by rw [scan, hgo]; rfl
  have hendLine : (scan source).endLine = 1 + lineEnds source.toList := by rw [scan, hgo]; rfl
  refine ⟨pieces, last, htext, hpartition.last_gap, ?_, ?_, ?_, rfl, ?_, ?_⟩
  · rw [hlexemes, length_lexemesFrom]
  · rintro front p back rfl
    obtain ⟨hgap, hstart, hlongest⟩ := hpartition.at_piece
    refine ⟨hgap, hstart, hlongest, ?_, ?_⟩
    · intro hreading
      rw [hreading] at hlongest
      exact hlongest.rest_of_unterminated
    · rw [hlexemes]
      exact lexemesFrom_at_piece 1 front p back
  · intro l _
    exact l.token?_xor_error?
  · rw [← hendLine]
    rfl
  · intro t ht
    obtain ⟨l, hl, htoken⟩ := List.mem_filterMap.mp ht
    rw [hlexemes] at hl
    obtain ⟨text, hspells⟩ := hpartition.spells 1 l hl
    obtain ⟨ltext, line, reading⟩ := l
    cases reading with
    | token kind literal =>
      cases htoken
      exact hspells.kind_ne_endOfInput
    | unexpected c => cases htoken
    | unterminated => cases htoken
    | tooLarge => cases htoken

end Scriptlet
