import Scriptlet.Proofs.Scanning

/-! # Scanning line by line

A text that is put together from two, with a line end between them, is scanned as the two are: first the
one, then the other, which begins on a later line. What this rests on is that a space ends a lexeme just
as the end of the text does. Lexemes are read with up to two characters of lookahead, and no space is
what any of them looks for (`Cut.read_before_stop`); a comment goes on to the line end and no further.

A string that is not closed is the exception. It would go on in the second text, so the first one must
have none.

## Main statement

* `scan_distributes`: the tokens and errors of two texts joined by a line end are those of the texts.
-/

namespace Scriptlet

/-! ## Lexemes in front of a space -/

section Rows

variable {α : Type} {p : α → Bool} {stop : α}

/-- A row that ends at a character ends there whatever is behind it. -/
theorem takeWhile_before (h : p stop = false) (row behind : List α) :
    (row ++ stop :: behind).takeWhile p = row.takeWhile p := by
  induction row with
  | nil => simp [h]
  | cons x row ih =>
    cases hx : p x <;> simp [hx, ih]

/-- What is behind such a row has the character in it. -/
theorem dropWhile_before (h : p stop = false) (row behind : List α) :
    (row ++ stop :: behind).dropWhile p = row.dropWhile p ++ stop :: behind := by
  induction row with
  | nil => simp [h]
  | cons x row ih =>
    cases hx : p x <;> simp [hx, ih]

end Rows

/-- A character that goes on with no name and no number, and that no lexeme looks for behind it. -/
structure Stops (stop : Char) : Prop where
  isNameChar_eq : isNameChar stop = false
  isDigit_eq : stop.isDigit = false
  ne_equals : stop ≠ '='
  ne_point : stop ≠ '.'

theorem IsSpace.stops {stop : Char} (h : IsSpace stop) : Stops stop := by
  rcases h with rfl | rfl | rfl | rfl <;> constructor <;> decide +kernel

namespace Cut

/-- The same lexeme, with more text behind it. -/
def before (cut : Cut) (behind : List Char) : Cut :=
  { cut with rest := cut.rest ++ behind }

variable {stop : Char}

theorem oneOrTwo_of_ne {d : Char} (hd : d ≠ '=') (c : Char) (rest : List Char)
    (alone followed : Symbol) :
    oneOrTwo c (d :: rest) alone followed = one c (d :: rest) alone := by
  unfold oneOrTwo
  split
  · next h => exact absurd (List.cons.inj h).1 hd
  · rfl

/-- A symbol does not depend on what is behind a character that stops it. -/
theorem oneOrTwo_before_stop (hstop : Stops stop) (c : Char) (rest behind : List Char)
    (alone followed : Symbol) :
    oneOrTwo c (rest ++ stop :: behind) alone followed
      = (oneOrTwo c rest alone followed).before (stop :: behind) := by
  cases rest with
  | nil =>
    rw [List.nil_append, oneOrTwo_of_ne hstop.ne_equals]
    rfl
  | cons d rest =>
    by_cases hd : d = '='
    · subst hd
      rfl
    · rw [List.cons_append, oneOrTwo_of_ne hd, oneOrTwo_of_ne hd]
      rfl

/-- A string ends at the next quote. -/
theorem readString_closed {body : List Char} (hbody : '"' ∉ body) (rest : List Char) :
    readString (body ++ '"' :: rest)
      = { text := '"' :: body ++ ['"']
          rest
          reading := .token .string (some (.string (String.ofList body))) } := by
  have htake : (body ++ '"' :: rest).takeWhile (· ≠ '"') = body := by
    rw [List.takeWhile_append_of_pos (not_quote_iff.mpr hbody)]
    simp
  have hdrop : (body ++ '"' :: rest).dropWhile (· ≠ '"') = '"' :: rest := by
    rw [List.dropWhile_append_of_pos (not_quote_iff.mpr hbody)]
    simp
  unfold readString
  rw [htake, hdrop]

/-- A string is closed by the first quote behind it. -/
theorem readString_cases (rest : List Char) :
    (readString rest).reading = .unterminated ∨
      ∃ body behind, '"' ∉ body ∧ rest = body ++ '"' :: behind := by
  have hbody : '"' ∉ rest.takeWhile (· ≠ '"') :=
    not_quote_iff.mp fun c hc => @List.mem_takeWhile_imp _ (fun c => decide (c ≠ '"')) _ _ hc
  have hsplit := List.takeWhile_append_dropWhile (p := (· ≠ '"')) (l := rest)
  cases hdrop : rest.dropWhile (· ≠ '"') with
  | nil =>
    left
    simp only [readString, hdrop]
  | cons quote behind =>
    obtain rfl : quote = '"' := by simpa using head_of_dropWhile hdrop
    rw [hdrop] at hsplit
    exact .inr ⟨_, behind, hbody, hsplit.symm⟩

/-- A string that is closed ends at the same quote, whatever follows. -/
theorem readString_before (rest behind : List Char)
    (h : (readString rest).reading ≠ .unterminated) :
    readString (rest ++ behind) = (readString rest).before behind := by
  rcases readString_cases rest with hopen | ⟨body, tail, hbody, rfl⟩
  · exact absurd hopen h
  · rw [List.append_assoc, List.cons_append, readString_closed hbody, readString_closed hbody]
    rfl

/-- The character is neither a digit nor a point, so no digit comes to stand behind a point. -/
theorem readNumber_before_stop (hstop : Stops stop) (c : Char) (rest behind : List Char) :
    readNumber c (rest ++ stop :: behind) = (readNumber c rest).before (stop :: behind) := by
  have htake : (rest ++ stop :: behind).takeWhile Char.isDigit = rest.takeWhile Char.isDigit :=
    takeWhile_before hstop.isDigit_eq rest behind
  have hdrop : (rest ++ stop :: behind).dropWhile Char.isDigit
      = rest.dropWhile Char.isDigit ++ stop :: behind :=
    dropWhile_before hstop.isDigit_eq rest behind
  -- is there a fraction behind the digits?
  by_cases hfraction : ∃ d tail, rest.dropWhile Char.isDigit = '.' :: d :: tail ∧ d.isDigit = true
  · obtain ⟨d, tail, hpoint, hd⟩ := hfraction
    have hpoint' : (rest ++ stop :: behind).dropWhile Char.isDigit
        = '.' :: d :: (tail ++ stop :: behind) := by
      rw [hdrop, hpoint]
      rfl
    rw [readNumber_fraction hpoint' hd, readNumber_fraction hpoint hd, htake,
      takeWhile_before hstop.isDigit_eq, dropWhile_before hstop.isDigit_eq]
    rfl
  -- the character that stops the number cannot begin a fraction either
  · have hinteger : ¬ ∃ d tail, (rest ++ stop :: behind).dropWhile Char.isDigit = '.' :: d :: tail ∧
        d.isDigit = true := by
      rintro ⟨d, tail, hpoint, hd⟩
      rw [hdrop] at hpoint
      rcases hrest : rest.dropWhile Char.isDigit with _ | ⟨x, _ | ⟨y, tail'⟩⟩ <;> rw [hrest] at hpoint
      · -- it would be the point
        exact hstop.ne_point (List.cons.inj hpoint).1
      · -- it would be the digit
        obtain ⟨-, hpoint⟩ := List.cons.inj hpoint
        rw [← (List.cons.inj hpoint).1, hstop.isDigit_eq] at hd
        cases hd
      · obtain ⟨rfl, rfl, -⟩ : x = '.' ∧ y = d ∧ tail' ++ stop :: behind = tail := by
          simpa using hpoint
        exact hfraction ⟨y, tail', hrest, hd⟩
    rw [readNumber_integer hinteger, readNumber_integer hfraction, htake, hdrop]
    rfl

/-- A word does not depend on what is behind a character that stops it. -/
theorem readWord_before_stop (hstop : Stops stop) (c : Char) (rest behind : List Char) :
    readWord c (rest ++ stop :: behind) = (readWord c rest).before (stop :: behind) := by
  simp only [readWord, before, takeWhile_before hstop.isNameChar_eq,
    dropWhile_before hstop.isNameChar_eq]

/-- A character that stops lexemes ends one as the end of the text does, unless the lexeme is a string
that is not closed. -/
theorem read_before_stop (hstop : Stops stop) (c : Char) (rest behind : List Char)
    (h : (read c rest).reading ≠ .unterminated) :
    read c (rest ++ stop :: behind) = (read c rest).before (stop :: behind) := by
  unfold read at h ⊢
  split
  case h_12 | h_13 | h_14 | h_15 => exact oneOrTwo_before_stop hstop _ rest behind _ _
  case h_16 => exact readString_before rest _ h
  case h_17 =>
    split
    · exact readNumber_before_stop hstop c rest behind
    · split
      · exact readWord_before_stop hstop c rest behind
      · rfl
  all_goals rfl

end Cut

/-! ## The walk over the first text -/

namespace Scan

/-- Lexemes found earlier stay in front. -/
theorem go_append_found (line : Nat) (cs : List Char) (found earlier : List Lexeme) :
    go line cs (found ++ earlier)
      = { lexemes := earlier.reverse ++ (go line cs found).lexemes
          endLine := (go line cs found).endLine } := by
  fun_induction go line cs found with
  | case1 line found => simp [go]
  | case2 line found rest ih => rw [go, if_pos rfl, ih]
  | case3 line found c rest hc hblank ih => rw [go, if_neg hc, if_pos hblank, ih]
  | case4 line found c rest hc hblank hcomment ih =>
    rw [go, if_neg hc, if_neg hblank, if_pos hcomment, ih]
  | case5 line found c rest hc hblank hcomment cut _ lexeme ih =>
    rw [go, if_neg hc, if_neg hblank, if_neg hcomment]
    exact ih

/-- What was found stays found. -/
theorem mem_go_of_mem {l : Lexeme} {found : List Lexeme} (h : l ∈ found) (line : Nat)
    (cs : List Char) : l ∈ (go line cs found).lexemes := by
  have hfound := go_append_found line cs [] found
  rw [List.nil_append] at hfound
  rw [hfound]
  exact List.mem_append_left _ (List.mem_reverse.mpr h)

/-- The last line is as many lines down as there are line ends. -/
theorem endLine_go (line : Nat) (cs : List Char) (found : List Lexeme) :
    (go line cs found).endLine = line + lineEnds cs := by
  obtain ⟨_, _, -, -, hgo⟩ := @go_partition line line cs [] found rfl (.nil cs)
  rw [hgo]
  rfl

theorem isSpace_newline : IsSpace '\n' :=
  .inr (.inr (.inr rfl))

/-- One stroke at the end of a line begins no comment. -/
theorem strokes_before_newline (c : Char) (rest behind : List Char) :
    (c = '/' ∧ (rest ++ '\n' :: behind).head? = some '/') ↔ (c = '/' ∧ rest.head? = some '/') := by
  cases rest with
  | nil => simp
  | cons d rest => rfl

/-- Behind a line end, the scanner goes on as it stood at the end of the text in front of it. -/
theorem go_before_newline (line : Nat) (cs behind : List Char) (found : List Lexeme)
    (hclosed : ∀ l ∈ (go line cs found).lexemes, l.reading ≠ .unterminated) :
    go line (cs ++ '\n' :: behind) found
      = go ((go line cs found).endLine + 1) behind (go line cs found).lexemes.reverse := by
  fun_induction go line cs found with
  | case1 line found =>
    -- the first text is over, and the line end counts
    rw [List.nil_append, go, if_pos rfl, List.reverse_reverse]
  | case2 line found rest ih => rw [List.cons_append, go, if_pos rfl, ih hclosed]
  | case3 line found c rest hc hblank ih =>
    rw [List.cons_append, go, if_neg hc, if_pos hblank, ih hclosed]
  | case4 line found c rest hc hblank hcomment ih =>
    -- the comment ends with the first text, if not before
    have hdrop : (rest ++ '\n' :: behind).dropWhile (· ≠ '\n')
        = rest.dropWhile (· ≠ '\n') ++ '\n' :: behind :=
      dropWhile_before (by decide) rest behind
    rw [List.cons_append, go, if_neg hc, if_neg hblank,
      if_pos ((strokes_before_newline c rest behind).mpr hcomment), hdrop, ih hclosed]
  | case5 line found c rest hc hblank hcomment cut _ lexeme ih =>
    -- what is read here is among the lexemes in the end, so it is no open string
    have hreading : cut.reading ≠ .unterminated :=
      hclosed lexeme (mem_go_of_mem List.mem_cons_self _ _)
    have hcut : Cut.read c (rest ++ '\n' :: behind) = cut.before ('\n' :: behind) :=
      Cut.read_before_stop isSpace_newline.stops c rest behind hreading
    rw [List.cons_append, go, if_neg hc, if_neg hblank,
      if_neg ((strokes_before_newline c rest behind).not.mpr hcomment)]
    simp only [hcut]
    exact ih hclosed

end Scan

/-! ## The second text, on later lines -/

/-- The token, some lines further down. -/
def Token.shift (k : Nat) (t : Token) : Token :=
  { t with line := t.line + k }

/-- The error, some lines further down. -/
def LexicalError.shift (k : Nat) : LexicalError → LexicalError
  | unexpectedChar c line => unexpectedChar c (line + k)
  | unterminatedString line => unterminatedString (line + k)
  | invalidNumber text line => invalidNumber text (line + k)

namespace Lexeme

/-- The lexeme, some lines further down. -/
def shift (k : Nat) (l : Lexeme) : Lexeme :=
  { l with line := l.line + k }

/-- The token of a lexeme moves with it. -/
theorem token?_shift (k : Nat) (l : Lexeme) : (l.shift k).token? = l.token?.map (Token.shift k) := by
  obtain ⟨text, line, reading⟩ := l
  cases reading <;> rfl

theorem error?_shift (k : Nat) (l : Lexeme) :
    (l.shift k).error? = l.error?.map (LexicalError.shift k) := by
  obtain ⟨text, line, reading⟩ := l
  cases reading <;> rfl

/-- Lexemes further down have their tokens further down. -/
theorem tokens_map_shift (k : Nat) (ls : List Lexeme) :
    (ls.map (shift k)).filterMap token? = (ls.filterMap token?).map (Token.shift k) := by
  have hshift : token? ∘ shift k = fun l => l.token?.map (Token.shift k) := funext (token?_shift k)
  rw [List.filterMap_map, hshift, List.map_filterMap]

/-- They have their errors further down too. -/
theorem errors_map_shift (k : Nat) (ls : List Lexeme) :
    (ls.map (shift k)).filterMap error? = (ls.filterMap error?).map (LexicalError.shift k) := by
  have hshift : error? ∘ shift k = fun l => l.error?.map (LexicalError.shift k) :=
    funext (error?_shift k)
  rw [List.filterMap_map, hshift, List.map_filterMap]

end Lexeme

/-- Lines are counted from the line of the first character, and play no other part. -/
theorem Scan.go_shift (k line : Nat) (cs : List Char) (found : List Lexeme) :
    go (line + k) cs (found.map (Lexeme.shift k))
      = { lexemes := (go line cs found).lexemes.map (Lexeme.shift k)
          endLine := (go line cs found).endLine + k } := by
  fun_induction go line cs found with
  | case1 line found => simp [go]
  | case2 line found rest ih => rw [go, if_pos rfl, ← ih, Nat.add_right_comm]
  | case3 line found c rest hc hblank ih => rw [go, if_neg hc, if_pos hblank, ih]
  | case4 line found c rest hc hblank hcomment ih =>
    rw [go, if_neg hc, if_neg hblank, if_pos hcomment, ih]
  | case5 line found c rest hc hblank hcomment cut _ lexeme ih =>
    rw [go, if_neg hc, if_neg hblank, if_neg hcomment, ← ih, Nat.add_right_comm]
    rfl

/-! ## Both texts -/

/-- Two texts joined by a line end are scanned one after the other: the lexemes of the first, then those
of the second on later lines. -/
theorem scan_join {s t : String} (hclosed : ∀ l ∈ (scan s).lexemes, l.reading ≠ .unterminated) :
    scan (s ++ "\n" ++ t)
      = { lexemes := (scan s).lexemes
            ++ (scan t).lexemes.map (Lexeme.shift (1 + lineEnds s.toList))
          endLine := (scan t).endLine + (1 + lineEnds s.toList) } := by
  have htext : (s ++ "\n" ++ t).toList = s.toList ++ '\n' :: t.toList := by simp
  -- the second text begins behind the line ends of the first and the one between them
  have hline : (scan s).endLine + 1 = 1 + (1 + lineEnds s.toList) := by
    rw [scan, Scan.endLine_go]
    omega
  have hshift := Scan.go_shift (1 + lineEnds s.toList) 1 t.toList []
  have hfound := Scan.go_append_found (1 + (1 + lineEnds s.toList)) t.toList []
    (scan s).lexemes.reverse
  calc scan (s ++ "\n" ++ t)
      = Scan.go ((scan s).endLine + 1) t.toList (scan s).lexemes.reverse := by
        rw [scan, htext]
        exact Scan.go_before_newline 1 s.toList t.toList [] hclosed
    _ = _ := by
        rw [hline]
        rw [List.nil_append, List.reverse_reverse] at hfound
        rw [List.map_nil] at hshift
        rw [hfound, hshift]
        rfl

/-- Scanning goes over two texts joined by a line end as over the texts themselves. Unless the first one
leaves a string open, its tokens come first, without the mark for the end of the input, and those of
the second one follow, with their lines moved down by the lines of the first; and so do the errors. -/
theorem scan_distributes (s t : String)
    (hclosed : ∀ line, LexicalError.unterminatedString line ∉ (scan s).errors) :
    (scan (s ++ "\n" ++ t)).tokens
        = (scan s).tokens.dropLast
          ++ (scan t).tokens.map (Token.shift (1 + s.toList.count '\n')) ∧
      (scan (s ++ "\n" ++ t)).errors
        = (scan s).errors
          ++ (scan t).errors.map (LexicalError.shift (1 + s.toList.count '\n')) := by
  have hlexemes : ∀ l ∈ (scan s).lexemes, l.reading ≠ .unterminated := by
    rintro ⟨text, line, reading⟩ hl rfl
    exact hclosed line (List.mem_filterMap.mpr ⟨_, hl, rfl⟩)
  rw [scan_join hlexemes]
  constructor
  · simp only [Scan.tokens, List.filterMap_append, Lexeme.tokens_map_shift, List.map_append,
      List.dropLast_concat, List.append_assoc]
    rfl
  · simp only [Scan.errors, List.filterMap_append, Lexeme.errors_map_shift]
    rfl

/-- A string that goes over a line end, a point behind a number, and a sign at the end of the first text
that the second one, joined without a line end, would have continued. -/
theorem scan_distributes_split_sign :
    let s := "\"a\nb\" 12. <"
    let t := "= 5 @"
    (∀ line, LexicalError.unterminatedString line ∉ (scan s).errors) ∧
      (scan (s ++ "\n" ++ t)).tokens.map (fun u => (u.lexeme, u.line))
        = [("\"a\nb\"", 1), ("12", 2), (".", 2), ("<", 2), ("=", 3), ("5", 3), ("", 3)] ∧
      (scan (s ++ "\n" ++ t)).errors = [.unexpectedChar '@' 3] := by
  intro s t
  have hnone : (scan s).errors = [] := by decide +kernel
  have hclosed : ∀ line, LexicalError.unterminatedString line ∉ (scan s).errors := by
    intro line
    rw [hnone]
    exact List.not_mem_nil
  obtain ⟨htokens, herrors⟩ := scan_distributes s t hclosed
  refine ⟨hclosed, ?_, ?_⟩
  · rw [htokens]
    decide +kernel
  · rw [herrors]
    decide +kernel

end Scriptlet
