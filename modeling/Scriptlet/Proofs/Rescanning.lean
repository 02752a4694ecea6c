import Scriptlet.Proofs.LineWise

/-! # Scanning lexemes again

The lexeme of a token is all there is to know about it. Written out with a blank behind each of them,
the lexemes of a text are scanned to the same tokens, whatever stood between them before and whatever
was wrong with the text.

Two things have to be seen for this. What a lexeme is read as depends on its own characters and not on
those that followed it: alone, it is the longest lexeme of itself (`Cut.read_alone`). And a blank behind
it does not change where it ends, since no token looks for one; that is known from
`Cut.read_before_stop`. The errors of the first scan have no tokens, so nothing of them comes back.

## Main statement

* `lexemes_rescan`: the lexemes of a text, each with a blank behind it, are scanned without errors and
  to the same tokens, apart from their lines.
-/

namespace Scriptlet

/-! ## One lexeme and what stops it -/

section Beginnings

variable {c : Char} {text : List Char} {r : Reading}

/-- No space begins a lexeme. -/
theorem Spells.head_not_space (h : Spells (c :: text) r) : ¬ IsSpace c := by
  intro hspace
  cases h with
  | symbol h =>
    obtain ⟨s, hs⟩ := h.head
    rcases hspace with rfl | rfl | rfl | rfl <;> (cases s <;> exact absurd hs (by decide))
  | quoted h =>
    rw [h.head] at hspace
    rcases hspace with hc | hc | hc | hc <;> exact absurd hc (by decide)
  | numeral h =>
    have hdigit := hspace.stops.isDigit_eq
    rw [h.head] at hdigit
    cases hdigit
  | word h =>
    have hname : isNameStart c = false := by
      rcases hspace with rfl | rfl | rfl | rfl <;> decide +kernel
    rw [h.head] at hname
    cases hname
  | unexpected h => exact h.space hspace

/-- A stroke that begins a lexeme is all of it, so no lexeme begins like a comment. -/
theorem Spells.text_of_stroke (h : Spells ('/' :: text) r) : text = [] := by
  -- the stroke is the longest lexeme there is
  have hlongest : Longest Spells ('/' :: text) ['/'] (.token (.symbol .slash) none) :=
    Cut.read_longest h.head_not_space
  rcases hlongest.longest (List.prefix_refl _) h with hlt | ⟨htext, -⟩
  · simp at hlt
  · exact (List.cons.inj htext).2

theorem stops_blank : Stops ' ' :=
  IsSpace.stops (.inl rfl)

namespace Cut

/-- A lexeme that nothing follows is read as what it is. -/
theorem read_alone (h : Spells (c :: text) r) : read c text = ⟨c :: text, [], r⟩ := by
  have hlongest := @read_longest c text h.head_not_space
  have happend := text_append_rest c text
  -- nothing that is cut off the lexeme can be longer than the lexeme
  have hle := hlongest.isPrefix.length_le
  rcases hlongest.longest (List.prefix_refl _) h with hlt | ⟨htext, hreading⟩
  · omega
  · have hrest : (read c text).rest = [] := by
      rw [← htext] at happend
      exact List.append_right_eq_self.mp happend
    cases hcut : read c text with
    | mk cutText rest reading =>
      rw [hcut] at htext hreading hrest
      cases htext
      cases hreading
      cases hrest
      rfl

/-- A token ends where a character follows that stops lexemes. -/
theorem read_stopped {kind : TokenKind} {literal : Option Value} {stop : Char}
    (h : Spells (c :: text) (.token kind literal)) (hstop : Stops stop) (behind : List Char) :
    read c (text ++ stop :: behind) = ⟨c :: text, stop :: behind, .token kind literal⟩ := by
  have halone := read_alone h
  have hclosed : (read c text).reading ≠ .unterminated := by
    rw [halone]
    exact Reading.noConfusion
  rw [read_before_stop hstop c text behind hclosed, halone]
  rfl

end Cut

end Beginnings

/-! ## Tokens and their lexemes -/

namespace Token

/-- What a token is, wherever it stands. -/
def form (t : Token) : TokenKind × String × Option Value :=
  (t.kind, t.lexeme, t.literal)

/-- The grammar reads the lexeme of the token as the token. -/
def Spelled (t : Token) : Prop :=
  Spells t.lexeme.toList (.token t.kind t.literal)

/-- The lexeme at its place that is the token. -/
def toLexeme (t : Token) : Lexeme :=
  { text := t.lexeme, line := t.line, reading := .token t.kind t.literal }

/-- The tokens on the lines on which they stand when each of them has a blank behind it and the first
one is on the given line. -/
def placedFrom (line : Nat) : List Token → List Token
  | [] => []
  | t :: ts => { t with line } :: placedFrom (line + lineEnds t.lexeme.toList) ts

/-- Tokens keep their form wherever they are placed. -/
theorem map_form_placedFrom (line : Nat) (ts : List Token) :
    (placedFrom line ts).map form = ts.map form := by
  induction ts generalizing line with
  | nil => rfl
  | cons t ts ih => rw [placedFrom, List.map_cons, List.map_cons, ih]; rfl

theorem tokens_map_toLexeme (ts : List Token) :
    (ts.map toLexeme).filterMap Lexeme.token? = ts := by
  have hid : Lexeme.token? ∘ toLexeme = some := rfl
  rw [List.filterMap_map, hid, List.filterMap_some]

theorem errors_map_toLexeme (ts : List Token) :
    (ts.map toLexeme).filterMap Lexeme.error? = [] := by
  rw [List.filterMap_map, List.filterMap_eq_nil_iff]
  exact fun _ _ => rfl

end Token

/-- The lexemes of a scan are texts of the grammar. -/
theorem scan_spells (source : String) :
    ∀ l ∈ (scan source).lexemes, Spells l.text.toList l.reading := by
  obtain ⟨pieces, last, -, hpartition, hgo⟩ :=
    @Scan.go_partition 1 1 source.toList [] [] rfl (.nil _)
  have hlexemes : (scan source).lexemes = lexemesFrom 1 pieces := by rw [scan, hgo]; rfl
  rw [hlexemes]
  exact hpartition.spells_text 1

/-- The tokens of a scan, without the mark for the end of the input, are what the grammar reads their
lexemes as. -/
theorem scan_spelled {source : String} {t : Token}
    (ht : t ∈ (scan source).lexemes.filterMap Lexeme.token?) : t.Spelled := by
  obtain ⟨⟨text, line, reading⟩, hl, htoken⟩ := List.mem_filterMap.mp ht
  have hspells := scan_spells source _ hl
  cases reading with
  | token kind literal =>
    cases htoken
    exact hspells
  | unexpected c => cases htoken
  | unterminated => cases htoken
  | tooLarge => cases htoken

/-! ## All lexemes, each with a blank behind it -/

/-- The lexemes of some tokens, each with a blank behind it. -/
def spaced (ts : List Token) : String :=
  String.join (ts.map fun t => t.lexeme ++ " ")

/-- Each token is written with a blank behind it. -/
theorem toList_spaced_cons (t : Token) (ts : List Token) :
    (spaced (t :: ts)).toList = t.lexeme.toList ++ ' ' :: (spaced ts).toList := by
  simp [spaced]

namespace Scan

/-- The scanner finds the token that comes next, and its blank behind it. -/
theorem go_spelled {t : Token} (ht : t.Spelled) (line : Nat) (behind : List Char)
    (found : List Lexeme) :
    go line (t.lexeme.toList ++ ' ' :: behind) found
      = go (line + lineEnds t.lexeme.toList) behind (({ t with line } : Token).toLexeme :: found) := by
  unfold Token.Spelled at ht
  cases htext : t.lexeme.toList with
  | nil => exact absurd htext ht.ne_nil
  | cons c text =>
    rw [htext] at ht
    have hnot := ht.head_not_space
    have hline : c ≠ '\n' := fun hc => hnot (isSpace_iff.mpr (.inl hc))
    have hblank : ¬ isBlank c = true := fun hc => hnot (isSpace_iff.mpr (.inr hc))
    have hcomment : ¬ (c = '/' ∧ (text ++ ' ' :: behind).head? = some '/') := by
      rintro ⟨rfl, hstroke⟩
      rw [ht.text_of_stroke] at hstroke
      cases hstroke
    have hlexeme : String.ofList (c :: text) = t.lexeme := by rw [← htext, String.ofList_toList]
    rw [List.cons_append, go, if_neg hline, if_neg hblank, if_neg hcomment]
    simp only [Cut.read_stopped ht stops_blank behind, hlexeme]
    -- the blank behind the lexeme
    rw [go, if_neg (by decide), if_pos (by decide)]
    rfl

/-- Written out with blanks, tokens are found again, one after the other. -/
theorem go_spaced {ts : List Token} (hts : ∀ t ∈ ts, t.Spelled) (line : Nat) (found : List Lexeme) :
    (go line (spaced ts).toList found).lexemes
      = found.reverse ++ (Token.placedFrom line ts).map Token.toLexeme := by
  induction ts generalizing line found with
  | nil => simp [spaced, go, Token.placedFrom]
  | cons t ts ih =>
    obtain ⟨ht, hrest⟩ := List.forall_mem_cons.mp hts
    rw [toList_spaced_cons, go_spelled ht, ih hrest, Token.placedFrom, List.reverse_cons,
      List.append_assoc]
    rfl

end Scan

/-- The tokens that a scan has found, without the mark for the end of the input. -/
def Scan.words (s : Scan) : List Token :=
  s.tokens.filter (·.kind ≠ .endOfInput)

/-- The words of a scan are its tokens without the end. -/
theorem words_scan (source : String) :
    (scan source).words = (scan source).lexemes.filterMap Lexeme.token? := by
  have hkinds : ∀ t ∈ (scan source).lexemes.filterMap Lexeme.token?,
      decide (t.kind ≠ .endOfInput) = true := by
    intro t ht
    exact decide_eq_true (Spells.kind_ne_endOfInput (scan_spelled ht))
  rw [Scan.words, Scan.tokens, List.filter_append, List.filter_eq_self.mpr hkinds]
  simp [Token.atEnd]

/-- They are spelled as lexemes. -/
theorem spelled_of_mem_words {source : String} {t : Token} (ht : t ∈ (scan source).words) :
    t.Spelled := by
  rw [words_scan] at ht
  exact scan_spelled ht

/-- Scanning is settled by the lexemes: of every text, also of one with errors, the lexemes of the
tokens, each with a blank behind it, are scanned without errors and to the same tokens in the same
order, with the same kinds, lexemes and literals, in front of the mark for the end of the input. -/
theorem lexemes_rescan (source : String) :
    (scan (spaced (scan source).words)).errors = [] ∧
      ∃ again line, (scan (spaced (scan source).words)).tokens = again ++ [Token.atEnd line] ∧
        again.map Token.form = (scan source).words.map Token.form := by
  generalize hwords : (scan source).words = words
  have hspelled : ∀ t ∈ words, t.Spelled := by
    intro t ht
    rw [← hwords] at ht
    exact spelled_of_mem_words ht
  have hlexemes : (scan (spaced words)).lexemes = (Token.placedFrom 1 words).map Token.toLexeme :=
    Scan.go_spaced hspelled 1 []
  constructor
  · rw [Scan.errors, hlexemes, Token.errors_map_toLexeme]
  · refine ⟨Token.placedFrom 1 words, (scan (spaced words)).endLine, ?_, Token.map_form_placedFrom 1 words⟩
    rw [Scan.tokens, hlexemes, Token.tokens_map_toLexeme]

end Scriptlet
