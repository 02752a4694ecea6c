import Mathlib.Data.List.TakeWhile
import Mathlib.Data.Nat.Digits.Defs
import Scriptlet.Token.Lexeme

/-! # The lexical grammar

Which texts are lexemes, and what each of them is read as. The grammar says nothing about where a
lexeme ends: `12`, `1` and `12.5` are all numbers. That is settled by taking the longest text that the
grammar allows, and for this it matters that text of one shape is never a beginning of text of
another: the first character decides the shape.

An error is a lexeme like any other. A string that is never closed is one that no quote ends, so the
longest of them goes on to the end of the text; a character that begins nothing stands for itself.

## Main statement

* `Cut.read_longest`: what is cut off a text is the longest lexeme in front of it, and every other one
  is shorter.
-/

namespace Scriptlet

/-! ## The grammar -/

/-- The number that a row of decimal digits denotes. -/
def decimal (digits : List Char) : Nat :=
  Nat.ofDigits 10 (digits.reverse.map fun c => c.toNat - '0'.toNat)

/-- One or more decimal digits. -/
def IsDigits (digits : List Char) : Prop :=
  digits ≠ [] ∧ ∀ c ∈ digits, c.isDigit = true

/-- The characters that stand between lexemes. -/
def IsSpace (c : Char) : Prop :=
  c = ' ' ∨ c = '\t' ∨ c = '\r' ∨ c = '\n'

/-- Symbols, which are read as themselves. -/
inductive SymbolText : List Char → Reading → Prop where
  | mk (s : Symbol) : SymbolText s.text.toList (.token (.symbol s) none)

/-- Strings, which a second quote closes. -/
inductive Quoted : List Char → Reading → Prop where
  | closed {body : List Char} (h : '"' ∉ body) :
      Quoted ('"' :: body ++ ['"']) (.token .string (some (.string (String.ofList body))))
  | unclosed {body : List Char} (h : '"' ∉ body) : Quoted ('"' :: body) .unterminated

/-- Numbers. Digits alone denote an integer, and have to fit into 64 bits. -/
inductive Numeral : List Char → Reading → Prop where
  | integer {digits : List Char} {n : Int64} (h : IsDigits digits) (hn : n.toInt = decimal digits) :
      Numeral digits (.token .number (some (.int n)))
  | tooLarge {digits : List Char} (h : IsDigits digits) (hlarge : Nat.pow 2 63 ≤ decimal digits) :
      Numeral digits .tooLarge
  | fraction {whole fraction : List Char} (hwhole : IsDigits whole) (hfraction : IsDigits fraction) :
      Numeral (whole ++ '.' :: fraction)
        (.token .number (some (.double (fractionValue whole fraction))))

/-- Words: a name is what is spelled like one and is no keyword. -/
inductive Word : List Char → Reading → Prop where
  | keyword (k : Keyword) : Word k.text.toList (.token (.keyword k) none)
  | name {c : Char} {rest : List Char} (hc : isNameStart c = true)
      (hrest : ∀ d ∈ rest, isNameChar d = true) (h : ∀ k : Keyword, k.text.toList ≠ c :: rest) :
      Word (c :: rest) (.token .identifier none)

/-- The character begins none of the other lexemes, and is no space. -/
structure BeginsNothing (c : Char) : Prop where
  space : ¬ IsSpace c
  quote : c ≠ '"'
  digit : c.isDigit = false
  name : isNameStart c = false
  symbol (s : Symbol) : s.text.toList.head? ≠ some c

/-- The lexemes and their readings. -/
inductive Spells : List Char → Reading → Prop where
  | symbol {text : List Char} {r : Reading} (h : SymbolText text r) : Spells text r
  | quoted {text : List Char} {r : Reading} (h : Quoted text r) : Spells text r
  | numeral {text : List Char} {r : Reading} (h : Numeral text r) : Spells text r
  | word {text : List Char} {r : Reading} (h : Word text r) : Spells text r
  | unexpected {c : Char} (h : BeginsNothing c) : Spells [c] (.unexpected c)

/-- Of all the texts in front of `source` that a grammar allows, `text` is the longest, and it has one
reading only. -/
structure Longest (allowed : List Char → Reading → Prop) (source text : List Char)
    (reading : Reading) : Prop where
  isPrefix : text <+: source
  isAllowed : allowed text reading
  longest {t : List Char} {r : Reading} (hfront : t <+: source) (h : allowed t r) :
    t.length < text.length ∨ t = text ∧ r = reading

/-! ## Beginnings of a text -/

section Prefixes

variable {α : Type} {p : α → Bool} {t l : List α}

/-- A row of such elements at the front is within the longest one. -/
theorem prefix_takeWhile (h : t <+: l) (ht : ∀ x ∈ t, p x = true) : t <+: l.takeWhile p := by
  obtain ⟨z, rfl⟩ := h
  rw [List.takeWhile_append_of_pos ht]
  exact List.prefix_append _ _

/-- What stands in front of a row is shorter than it, or is the row. -/
theorem shorter_or_eq {u : List α} (h : t <+: u) : t.length < u.length ∨ t = u := by
  rcases Nat.lt_or_ge t.length u.length with hlt | hge
  · exact .inl hlt
  · exact .inr (h.eq_of_length_le hge)

/-- Where a row of elements with the property is followed by one without it, the row ends there. -/
theorem takeWhile_of_row {x : α} {u : List α} (h : t ++ x :: u <+: l)
    (ht : ∀ y ∈ t, p y = true) (hx : p x = false) :
    l.takeWhile p = t ∧ x :: u <+: l.dropWhile p := by
  obtain ⟨z, rfl⟩ := h
  rw [List.append_assoc, List.takeWhile_append_of_pos ht, List.dropWhile_append_of_pos ht]
  simp [hx]

end Prefixes

/-! ## Strings -/

theorem not_quote_iff {body : List Char} :
    (∀ c ∈ body, decide (c ≠ '"') = true) ↔ '"' ∉ body := by
  constructor
  · intro h hmem
    simpa using h '"' hmem
  · intro h c hc
    have hne : c ≠ '"' := fun heq => h (heq ▸ hc)
    simpa using hne

/-- The first element that `dropWhile` leaves does not have the property. -/
theorem head_of_dropWhile {α : Type} {p : α → Bool} {l rest : List α} {x : α}
    (h : l.dropWhile p = x :: rest) : p x = false := by
  have hne : l.dropWhile p ≠ [] := by simp [h]
  have hhead := List.head_dropWhile_not p hne
  simpa [h] using hhead

/-- The scanner reads a string up to the next quote, or up to the end. -/
theorem Quoted.longest (rest : List Char) :
    Longest Quoted ('"' :: rest) (Cut.readString rest).text (Cut.readString rest).reading := by
  have hbody : '"' ∉ rest.takeWhile (· ≠ '"') :=
    not_quote_iff.mp fun c hc => @List.mem_takeWhile_imp _ (fun c => decide (c ≠ '"')) _ _ hc
  have hsplit := List.takeWhile_append_dropWhile (p := (· ≠ '"')) (l := rest)
  have hclosed : ∀ {body : List Char}, '"' ∉ body → '"' :: body ++ ['"'] <+: '"' :: rest →
      rest.takeWhile (· ≠ '"') = body ∧ ['"'] <+: rest.dropWhile (· ≠ '"') := by
    intro body hquote hfront
    have htail : body ++ '"' :: [] <+: rest := (List.cons_prefix_cons.mp hfront).2
    exact takeWhile_of_row htail (not_quote_iff.mpr hquote) (by simp)
  have hunclosed : ∀ {body : List Char}, '"' ∉ body → '"' :: body <+: '"' :: rest →
      body <+: rest.takeWhile (· ≠ '"') := by
    intro body hquote hfront
    exact prefix_takeWhile (List.cons_prefix_cons.mp hfront).2 (not_quote_iff.mpr hquote)
  unfold Cut.readString
  cases hdrop : rest.dropWhile (· ≠ '"') with
  | nil =>
    -- no quote follows, so nothing is closed and all of the text is taken
    refine ⟨?_, .unclosed hbody, ?_⟩
    · exact List.cons_prefix_cons.mpr ⟨rfl, List.takeWhile_prefix _⟩
    · intro t r hfront h
      cases h with
      | closed hquote =>
        have hquotes := (hclosed hquote hfront).2
        rw [hdrop] at hquotes
        simp at hquotes
      | unclosed hquote =>
        rcases shorter_or_eq (hunclosed hquote hfront) with hlt | rfl
        · exact .inl (Nat.succ_lt_succ hlt)
        · exact .inr ⟨rfl, rfl⟩
  | cons quote behind =>
    obtain rfl : quote = '"' := by simpa using head_of_dropWhile hdrop
    refine ⟨?_, .closed hbody, ?_⟩
    · rw [hdrop] at hsplit
      refine ⟨behind, ?_⟩
      simpa using hsplit
    · intro t r hfront h
      cases h with
      | closed hquote =>
        obtain ⟨rfl, -⟩ := hclosed hquote hfront
        exact .inr ⟨rfl, rfl⟩
      | unclosed hquote =>
        have hle := (hunclosed hquote hfront).length_le
        refine .inl ?_
        simp only [List.length_cons, List.length_append, List.length_nil]
        omega

/-! ## Numbers -/

/-- The value that the scanner computes is the number that is denoted. -/
theorem digitsValue_eq_decimal (digits : List Char) : digitsValue digits = decimal digits := by
  unfold digitsValue decimal
  rw [List.foldl_eq_foldr_reverse, Nat.ofDigits_eq_foldr, List.foldr_map]
  simp only [Nat.cast_id, Nat.add_comm]

/-- An integer that fits into 64 bits has its value. -/
theorem integer_of_lt {digits : List Char} (h : decimal digits < Nat.pow 2 63) :
    Cut.integer digits = .token .number (some (.int (Int64.ofNat (decimal digits)))) := by
  rw [Cut.integer, digitsValue_eq_decimal, if_pos h]

/-- An integer that does not fit is too large. -/
theorem integer_of_le {digits : List Char} (h : Nat.pow 2 63 ≤ decimal digits) :
    Cut.integer digits = .tooLarge := by
  rw [Cut.integer, digitsValue_eq_decimal, if_neg (Nat.not_lt.mpr h)]

/-- Digits are read as an integer or are too large for one. -/
theorem numeral_integer {digits : List Char} (h : IsDigits digits) :
    Numeral digits (Cut.integer digits) := by
  rcases Nat.lt_or_ge (decimal digits) (Nat.pow 2 63) with hlt | hge
  · rw [integer_of_lt hlt]
    exact .integer h (Int64.toInt_ofNat_of_lt hlt)
  · rw [integer_of_le hge]
    exact .tooLarge h hge

/-- Digits alone have one reading: their value, or that it is too large. -/
theorem Numeral.eq_integer {digits : List Char} {r : Reading} (h : Numeral digits r)
    (hdigits : ∀ c ∈ digits, c.isDigit = true) : r = Cut.integer digits := by
  cases h with
  | @integer _ n _ hn =>
    have hlt : decimal digits < Nat.pow 2 63 := by
      have hbound := n.toInt_lt
      have hpow : Nat.pow 2 63 = 9223372036854775808 := rfl
      omega
    have heq : Int64.ofNat (decimal digits) = n := by
      rw [← Int64.toInt_inj, Int64.toInt_ofNat_of_lt hlt, hn]
    rw [integer_of_lt hlt, heq]
  | tooLarge _ hlarge => rw [integer_of_le hlarge]
  | fraction hwhole hfraction =>
    have hpoint := hdigits '.' (by simp)
    exact absurd hpoint (by decide)

/-- A numeral is a row of digits, or has a point with digits on both sides. -/
theorem Numeral.shape {text : List Char} {r : Reading} (h : Numeral text r) :
    (∀ c ∈ text, c.isDigit = true) ∨
      ∃ whole fraction, text = whole ++ '.' :: fraction ∧ IsDigits whole ∧ IsDigits fraction ∧
        r = .token .number (some (.double (fractionValue whole fraction))) := by
  cases h with
  | integer h _ => exact .inl h.2
  | tooLarge h _ => exact .inl h.2
  | fraction hwhole hfraction => exact .inr ⟨_, _, rfl, hwhole, hfraction, rfl⟩

/-- The digits from the first one on are a row of digits. -/
theorem isDigits_takeWhile {c : Char} (hc : c.isDigit = true) (rest : List Char) :
    IsDigits (c :: rest.takeWhile Char.isDigit) := by
  refine ⟨by simp, ?_⟩
  intro d hd
  rcases List.mem_cons.mp hd with rfl | hmem
  · exact hc
  · exact List.mem_takeWhile_imp hmem

/-- A digit behind the point makes a fraction. -/
theorem readNumber_fraction {c d : Char} {rest behind : List Char}
    (hpoint : rest.dropWhile Char.isDigit = '.' :: d :: behind) (hd : d.isDigit = true) :
    Cut.readNumber c rest =
      { text := c :: rest.takeWhile Char.isDigit ++ '.' :: d :: behind.takeWhile Char.isDigit
        rest := behind.dropWhile Char.isDigit
        reading := .token .number (some (.double (fractionValue (c :: rest.takeWhile Char.isDigit)
          (d :: behind.takeWhile Char.isDigit)))) } := by
  simp [Cut.readNumber, hpoint, hd]

/-- Without a point and a digit behind the digits, they are an integer. -/
theorem readNumber_integer {c : Char} {rest : List Char}
    (h : ¬ ∃ d behind, rest.dropWhile Char.isDigit = '.' :: d :: behind ∧ d.isDigit = true) :
    Cut.readNumber c rest =
      { text := c :: rest.takeWhile Char.isDigit
        rest := rest.dropWhile Char.isDigit
        reading := Cut.integer (c :: rest.takeWhile Char.isDigit) } := by
  unfold Cut.readNumber
  split
  · next d behind hpoint =>
    have hd : ¬ d.isDigit = true := fun hd => h ⟨d, behind, hpoint, hd⟩
    rw [if_neg hd, hpoint]
  · rfl

/-- The scanner reads the longest number, with a fraction only if digits follow the point. -/
theorem Numeral.longest {c : Char} {rest : List Char} (hc : c.isDigit = true) :
    Longest Numeral (c :: rest) (Cut.readNumber c rest).text (Cut.readNumber c rest).reading := by
  have htake : (c :: rest).takeWhile Char.isDigit = c :: rest.takeWhile Char.isDigit := by simp [hc]
  have hdrop : (c :: rest).dropWhile Char.isDigit = rest.dropWhile Char.isDigit := by simp [hc]
  have hfront : (Cut.readNumber c rest).text <+: c :: rest :=
    ⟨_, Cut.readNumber_text_append_rest c rest⟩
  have hwhole := isDigits_takeWhile hc rest
  have hrow : ∀ {t : List Char}, t <+: c :: rest → (∀ c ∈ t, c.isDigit = true) →
      t <+: c :: rest.takeWhile Char.isDigit := by
    intro t ht hdigits
    have h := prefix_takeWhile ht hdigits
    rwa [htake] at h
  -- the point of a fraction stands right behind the first row of digits
  have hpoint : ∀ {whole fraction : List Char}, IsDigits whole →
      whole ++ '.' :: fraction <+: c :: rest →
      c :: rest.takeWhile Char.isDigit = whole ∧ '.' :: fraction <+: rest.dropWhile Char.isDigit := by
    intro whole fraction hdigits ht
    have h := takeWhile_of_row ht hdigits.2 (by decide)
    rwa [htake, hdrop] at h
  by_cases hfraction : ∃ d behind, rest.dropWhile Char.isDigit = '.' :: d :: behind ∧ d.isDigit = true
  · obtain ⟨d, behind, hbehind, hd⟩ := hfraction
    rw [readNumber_fraction hbehind hd] at hfront ⊢
    refine ⟨hfront, .fraction hwhole (isDigits_takeWhile hd behind), ?_⟩
    intro t r ht h
    rcases h.shape with hdigits | ⟨whole, fraction, rfl, hw, hf, rfl⟩
    · have hle := (hrow ht hdigits).length_le
      refine .inl ?_
      simp only [List.length_append, List.length_cons] at hle ⊢
      omega
    · obtain ⟨rfl, hbegins⟩ := hpoint hw ht
      rw [hbehind] at hbegins
      have hfractions := prefix_takeWhile (List.cons_prefix_cons.mp hbegins).2 hf.2
      rw [List.takeWhile_cons_of_pos hd] at hfractions
      rcases shorter_or_eq hfractions with hlt | rfl
      · refine .inl ?_
        simp only [List.length_append, List.length_cons] at hlt ⊢
        omega
      · exact .inr ⟨rfl, rfl⟩
  · rw [readNumber_integer hfraction] at hfront ⊢
    refine ⟨hfront, numeral_integer hwhole, ?_⟩
    intro t r ht h
    rcases h.shape with hdigits | ⟨whole, fraction, rfl, hw, hf, rfl⟩
    · rcases shorter_or_eq (hrow ht hdigits) with hlt | rfl
      · exact .inl hlt
      · exact .inr ⟨rfl, h.eq_integer hdigits⟩
    · -- the digit behind the point would have made a fraction
      obtain ⟨rfl, z, hz⟩ := hpoint hw ht
      cases fraction with
      | nil => exact absurd rfl hf.1
      | cons d fraction =>
        exact absurd ⟨d, fraction ++ z, hz.symm, hf.2 d List.mem_cons_self⟩ hfraction

/-! ## Words -/

/-- Keywords are spelled like names. -/
theorem keyword_shape (k : Keyword) :
    ∃ c rest, k.text.toList = c :: rest ∧ isNameStart c = true ∧
      ∀ d ∈ rest, isNameChar d = true := by
  cases k <;> exact ⟨_, _, rfl, by decide +kernel, List.all_eq_true.mp (by decide +kernel)⟩

theorem Word.shape {text : List Char} {r : Reading} (h : Word text r) :
    ∃ c rest, text = c :: rest ∧ isNameStart c = true ∧ ∀ d ∈ rest, isNameChar d = true := by
  cases h with
  | keyword k => exact keyword_shape k
  | name hc hrest _ => exact ⟨_, _, rfl, hc, hrest⟩

/-- A keyword is found by its own spelling, and only by it. -/
theorem ofWord?_ofList_iff {word : List Char} {k : Keyword} :
    Keyword.ofWord? (String.ofList word) = some k ↔ k.text.toList = word := by
  constructor
  · intro h
    rw [Keyword.text_of_ofWord? h, String.toList_ofList]
  · rintro rfl
    rw [String.ofList_toList]
    exact Keyword.ofWord?_text k

/-- A word that spells a keyword is read as that keyword. -/
theorem readWord_keyword {c : Char} {rest : List Char} {k : Keyword}
    (h : k.text.toList = c :: rest.takeWhile isNameChar) :
    (Cut.readWord c rest).reading = .token (.keyword k) none := by
  simp only [Cut.readWord, ofWord?_ofList_iff.mpr h]

/-- Every other word is read as a name. -/
theorem readWord_name {c : Char} {rest : List Char}
    (h : ∀ k : Keyword, k.text.toList ≠ c :: rest.takeWhile isNameChar) :
    (Cut.readWord c rest).reading = .token .identifier none := by
  have hnone : Keyword.ofWord? (String.ofList (c :: rest.takeWhile isNameChar)) = none := by
    rw [Option.eq_none_iff_forall_ne_some]
    intro k hk
    exact h k (ofWord?_ofList_iff.mp hk)
  simp only [Cut.readWord, hnone]

/-- The scanner reads the longest word, and decides on keywords behind it. -/
theorem Word.longest {c : Char} {rest : List Char} (hc : isNameStart c = true) :
    Longest Word (c :: rest) (Cut.readWord c rest).text (Cut.readWord c rest).reading := by
  refine ⟨⟨_, Cut.readWord_text_append_rest c rest⟩, ?_, ?_⟩
  · by_cases hkeyword : ∃ k : Keyword, k.text.toList = c :: rest.takeWhile isNameChar
    · obtain ⟨k, hk⟩ := hkeyword
      rw [readWord_keyword hk]
      have h := Word.keyword k
      rwa [hk] at h
    · have hno : ∀ k : Keyword, k.text.toList ≠ c :: rest.takeWhile isNameChar :=
        fun k hk => hkeyword ⟨k, hk⟩
      rw [readWord_name hno]
      exact .name hc (fun d hd => List.mem_takeWhile_imp hd) hno
  · intro t r ht h
    obtain ⟨c', word, rfl, -, hword⟩ := h.shape
    obtain ⟨rfl, hfront⟩ := List.cons_prefix_cons.mp ht
    -- another word is a part of the row of letters and digits, or all of it
    rcases shorter_or_eq (prefix_takeWhile hfront hword) with hlt | rfl
    · exact .inl (Nat.succ_lt_succ hlt)
    · refine .inr ⟨rfl, ?_⟩
      -- the whole row has one reading: a name is no keyword
      generalize hspelling : c' :: rest.takeWhile isNameChar = spelling at h
      cases h with
      | keyword k => rw [readWord_keyword hspelling.symm]
      | name _ _ hno =>
        rw [← hspelling] at hno
        rw [readWord_name hno]

/-! ## Symbols -/

theorem symbol_text_ne_nil (s : Symbol) : s.text.toList ≠ [] := by
  cases s <;> decide

/-- A symbol in front of a text begins with the first character of the text. -/
theorem head?_of_front {α : Type} {t l : List α} {c : α} (h : t <+: c :: l) (ht : t ≠ []) :
    t.head? = some c := by
  cases t with
  | nil => exact absurd rfl ht
  | cons d t =>
    obtain ⟨rfl, -⟩ := List.cons_prefix_cons.mp h
    rfl

/-- A character that begins one symbol only is that symbol. -/
theorem SymbolText.longest_one {c : Char} {rest : List Char} {s : Symbol}
    (hs : s.text.toList = [c]) (honly : ∀ s' : Symbol, s'.text.toList.head? = some c → s' = s) :
    Longest SymbolText (c :: rest) (Cut.one c rest s).text (Cut.one c rest s).reading := by
  refine ⟨⟨rest, rfl⟩, ?_, ?_⟩
  · have h := SymbolText.mk s
    rwa [hs] at h
  · intro t r ht h
    cases h with
    | mk s' =>
      obtain rfl := honly s' (head?_of_front ht (symbol_text_ne_nil s'))
      exact .inr ⟨hs, rfl⟩

/-- With an equals sign behind it, the longer symbol is read. -/
theorem SymbolText.longest_oneOrTwo {c : Char} {rest : List Char} {alone followed : Symbol}
    (halone : alone.text.toList = [c]) (hfollowed : followed.text.toList = [c, '='])
    (honly : ∀ s : Symbol, s.text.toList.head? = some c → s = alone ∨ s = followed) :
    Longest SymbolText (c :: rest) (Cut.oneOrTwo c rest alone followed).text
      (Cut.oneOrTwo c rest alone followed).reading := by
  refine ⟨⟨_, Cut.oneOrTwo_text_append_rest c rest alone followed⟩, ?_, ?_⟩
  · unfold Cut.oneOrTwo
    split
    · have h := SymbolText.mk followed
      rwa [hfollowed] at h
    · have h := SymbolText.mk alone
      rwa [halone] at h
  · intro t r ht h
    cases h with
    | mk s =>
      unfold Cut.oneOrTwo
      -- only the two symbols begin with this character
      rcases honly s (head?_of_front ht (symbol_text_ne_nil s)) with rfl | rfl
      · split
        · refine .inl ?_
          rw [halone]
          exact Nat.lt_succ_self 1
        · exact .inr ⟨halone, rfl⟩
      · rw [hfollowed] at ht
        obtain ⟨z, hz⟩ := ht
        cases hz
        exact .inr ⟨hfollowed, rfl⟩

/-! ## The first character decides the shape -/

/-- No digit is a letter. -/
theorem isNameStart_of_isDigit {c : Char} (h : c.isDigit = true) : isNameStart c = false := by
  have hbound : c.toNat < 0x41 := by
    have hle : c.val ≤ 57 := by
      simp only [Char.isDigit, Bool.and_eq_true, decide_eq_true_eq] at h
      exact h.2
    have hnat : c.toNat ≤ 57 := hle
    omega
  have hunderscore : c ≠ '_' := by
    rintro rfl
    exact absurd h (by decide)
  have hletter : Text.isLetter c = false := by
    show (decide (0x41 ≤ c.toNat) && _) = false
    rw [decide_eq_false (Nat.not_le.mpr hbound), Bool.false_and]
  rw [isNameStart, hletter, Bool.or_false]
  exact beq_false_of_ne hunderscore

/-- No symbol begins with a quote, a digit or a letter. -/
theorem symbol_head {s : Symbol} {c : Char} (h : s.text.toList.head? = some c) :
    c ≠ '"' ∧ c.isDigit = false ∧ isNameStart c = false := by
  cases s <;> (cases h; decide +kernel)

section Opening

variable {c : Char} {text : List Char} {r : Reading}

/-- A symbol begins with its first character. -/
theorem SymbolText.head (h : SymbolText (c :: text) r) :
    ∃ s : Symbol, s.text.toList.head? = some c := by
  generalize hsource : c :: text = source at h
  cases h with
  | mk s => exact ⟨s, by rw [← hsource]; rfl⟩

/-- A string begins with a quote. -/
theorem Quoted.head (h : Quoted (c :: text) r) : c = '"' := by
  cases h with
  | closed => rfl
  | unclosed => rfl

/-- A number begins with a digit. -/
theorem Numeral.head (h : Numeral (c :: text) r) : c.isDigit = true := by
  rcases h.shape with hdigits | ⟨whole, fraction, htext, hwhole, -, -⟩
  · exact hdigits c List.mem_cons_self
  · cases whole with
    | nil => exact absurd rfl hwhole.1
    | cons d whole =>
      cases htext
      exact hwhole.2 c List.mem_cons_self

/-- A word begins with a letter or an underscore. -/
theorem Word.head (h : Word (c :: text) r) : isNameStart c = true := by
  obtain ⟨_, _, htext, hc, -⟩ := h.shape
  cases htext
  exact hc

/-- The first character tells the kind of a lexeme: here, a symbol. -/
theorem Spells.symbol_of_head {s : Symbol} (hs : s.text.toList.head? = some c)
    (h : Spells (c :: text) r) : SymbolText (c :: text) r := by
  obtain ⟨hquote, hdigit, hname⟩ := symbol_head hs
  cases h with
  | symbol h => exact h
  | quoted h => exact absurd h.head hquote
  | numeral h =>
    rw [h.head] at hdigit
    cases hdigit
  | word h =>
    rw [h.head] at hname
    cases hname
  | unexpected h => exact absurd hs (h.symbol s)

/-- A lexeme that begins with a quote is a string. -/
theorem Spells.quoted_of_head (h : Spells ('"' :: text) r) : Quoted ('"' :: text) r := by
  cases h with
  | symbol h =>
    obtain ⟨s, hs⟩ := h.head
    exact absurd rfl (symbol_head hs).1
  | quoted h => exact h
  | numeral h => exact absurd h.head (by decide)
  | word h => exact absurd h.head (by decide +kernel)
  | unexpected h => exact absurd rfl h.quote

/-- A lexeme that begins with a digit is a number. -/
theorem Spells.numeral_of_head (hc : c.isDigit = true) (h : Spells (c :: text) r) :
    Numeral (c :: text) r := by
  cases h with
  | symbol h =>
    obtain ⟨s, hs⟩ := h.head
    rw [(symbol_head hs).2.1] at hc
    cases hc
  | quoted h =>
    rw [h.head] at hc
    cases hc
  | numeral h => exact h
  | word h =>
    have hname := isNameStart_of_isDigit hc
    rw [h.head] at hname
    cases hname
  | unexpected h =>
    rw [h.digit] at hc
    cases hc

/-- A lexeme that begins like a name is a word. -/
theorem Spells.word_of_head (hc : isNameStart c = true) (h : Spells (c :: text) r) :
    Word (c :: text) r := by
  cases h with
  | symbol h =>
    obtain ⟨s, hs⟩ := h.head
    rw [(symbol_head hs).2.2] at hc
    cases hc
  | quoted h =>
    rw [h.head] at hc
    exact absurd hc (by decide +kernel)
  | numeral h =>
    rw [isNameStart_of_isDigit h.head] at hc
    cases hc
  | word h => exact h
  | unexpected h =>
    rw [h.name] at hc
    cases hc

/-- A character that begins no lexeme stands alone. -/
theorem Spells.unexpected_of_head (hc : BeginsNothing c) (h : Spells (c :: text) r) :
    text = [] ∧ r = .unexpected c := by
  cases h with
  | symbol h =>
    obtain ⟨s, hs⟩ := h.head
    exact absurd hs (hc.symbol s)
  | quoted h => exact absurd h.head hc.quote
  | numeral h =>
    have hdigit := hc.digit
    rw [h.head] at hdigit
    cases hdigit
  | word h =>
    have hname := hc.name
    rw [h.head] at hname
    cases hname
  | unexpected h => exact ⟨rfl, rfl⟩

/-- A lexeme has a character. -/
theorem Spells.ne_nil (h : Spells text r) : text ≠ [] := by
  cases h with
  | symbol h =>
    cases h with
    | mk s => exact symbol_text_ne_nil s
  | quoted h =>
    cases h with
    | closed => simp
    | unclosed => simp
  | numeral h =>
    cases h with
    | integer h _ => exact h.1
    | tooLarge h _ => exact h.1
    | fraction => simp
  | word h =>
    obtain ⟨_, _, rfl, -, -⟩ := h.shape
    simp
  | unexpected => simp

/-- Where the first character leaves one shape only, the longest text of that shape is the longest
lexeme. -/
theorem Longest.of_shape {shape : List Char → Reading → Prop} {source : List Char}
    (h : Longest shape (c :: source) text r) (hspells : ∀ {t r}, shape t r → Spells t r)
    (hhead : ∀ {t r}, Spells (c :: t) r → shape (c :: t) r) : Longest Spells (c :: source) text r := by
  refine ⟨h.isPrefix, hspells h.isAllowed, ?_⟩
  intro t r ht hs
  cases t with
  | nil => exact absurd rfl hs.ne_nil
  | cons d t =>
    obtain ⟨rfl, -⟩ := List.cons_prefix_cons.mp ht
    exact h.longest ht (hhead hs)

end Opening

namespace Cut

/-- A symbol of one character is the longest lexeme, of whatever kind. -/
theorem one_longest {c : Char} {s : Symbol} (rest : List Char) (hs : s.text.toList = [c])
    (honly : ∀ s' : Symbol, s'.text.toList.head? = some c → s' = s) :
    Longest Spells (c :: rest) (one c rest s).text (one c rest s).reading := by
  have hhead : s.text.toList.head? = some c := by rw [hs]; rfl
  exact (SymbolText.longest_one hs honly).of_shape .symbol fun h => h.symbol_of_head hhead

theorem oneOrTwo_longest {c : Char} {alone followed : Symbol} (rest : List Char)
    (halone : alone.text.toList = [c]) (hfollowed : followed.text.toList = [c, '='])
    (honly : ∀ s : Symbol, s.text.toList.head? = some c → s = alone ∨ s = followed) :
    Longest Spells (c :: rest) (oneOrTwo c rest alone followed).text
      (oneOrTwo c rest alone followed).reading := by
  have hhead : alone.text.toList.head? = some c := by rw [halone]; rfl
  exact (SymbolText.longest_oneOrTwo halone hfollowed honly).of_shape .symbol
    fun h => h.symbol_of_head hhead

/-- No longer text than the one character is a lexeme. -/
theorem unexpected_longest {c : Char} (rest : List Char) (hc : BeginsNothing c) :
    Longest Spells (c :: rest) [c] (.unexpected c) := by
  refine ⟨⟨rest, rfl⟩, .unexpected hc, ?_⟩
  intro t r ht h
  cases t with
  | nil => exact absurd rfl h.ne_nil
  | cons d t =>
    obtain ⟨rfl, -⟩ := List.cons_prefix_cons.mp ht
    obtain ⟨rfl, rfl⟩ := h.unexpected_of_head hc
    exact .inr ⟨rfl, rfl⟩

/-- What is cut off a text is the longest lexeme in front of it. -/
theorem read_longest {c : Char} {rest : List Char} (hspace : ¬ IsSpace c) :
    Longest Spells (c :: rest) (read c rest).text (read c rest).reading := by
  unfold read
  split
  iterate 11
    · exact one_longest rest rfl fun s hs => by cases s <;> first | rfl | exact absurd hs (by decide)
  iterate 4
    · exact oneOrTwo_longest rest rfl rfl fun s hs => by
        cases s <;> first | exact .inl rfl | exact .inr rfl | exact absurd hs (by decide)
  · exact (Quoted.longest rest).of_shape .quoted fun h => h.quoted_of_head
  · split
    · next hdigit =>
      exact (Numeral.longest hdigit).of_shape .numeral fun h => h.numeral_of_head hdigit
    · split
      · next hname => exact (Word.longest hname).of_shape .word fun h => h.word_of_head hname
      · next hdigit hname =>
        refine unexpected_longest rest ⟨hspace, by assumption, by simpa using hdigit,
          by simpa using hname, ?_⟩
        -- the characters that begin a symbol have all been tried before
        intro s hs
        cases s <;> (cases hs; contradiction)

end Cut

end Scriptlet
