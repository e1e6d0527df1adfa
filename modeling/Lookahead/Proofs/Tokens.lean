import Lookahead.Source.Token
import Mathlib.Data.List.Infix

/-!
# Words and the tokens of a line

The symbols that a line can hold are the words: texts that are not empty and have no blank, no bar
and no arrow in them. A word is read as one symbol (`ofChars_word`), and a line is read in parts
wherever a separator starts (`ofChars_append`), so tokens with spaces between them read back as they
were written (`ofChars_texts`). Conversely whatever is read as a symbol is a word
(`isWord_of_mem_ofChars`).
-/

namespace Lookahead

/-- A symbol that can stand on a line. -/
structure Symbol.IsWord (s : Symbol) : Prop where
  ne_empty : s ≠ ""
  isBlank_eq_false : ∀ c ∈ s.toList, Text.isBlank c = false
  bar_not_mem : '|' ∉ s.toList
  arrow_not_infix : ¬ ['-', '>'] <:+: s.toList

/-- A word is not empty, has no blanks or bars in it, and no arrow. -/
theorem Symbol.isWord_iff {s : Symbol} :
    s.IsWord ↔ s ≠ "" ∧ s.toList.any Text.isBlank = false ∧ '|' ∉ s.toList ∧
      ¬ ['-', '>'] <:+: s.toList := by
  rw [List.any_eq_false]
  simp only [Bool.not_eq_true]
  exact ⟨fun h => ⟨h.1, h.2, h.3, h.4⟩, fun ⟨h1, h2, h3, h4⟩ => ⟨h1, h2, h3, h4⟩⟩

instance (s : Symbol) : Decidable s.IsWord := decidable_of_iff _ Symbol.isWord_iff.symm

/-- A word has no blanks in it. -/
theorem Symbol.IsWord.not_mem {s : Symbol} (h : s.IsWord) {c : Char} (hc : Text.isBlank c = true) :
    c ∉ s.toList := fun hmem =>
  Bool.false_ne_true ((h.isBlank_eq_false c hmem).symm.trans hc)

namespace Token

variable {c : Char} {w t rest : List Char} {s : Symbol}

/-! ## Where a separator starts -/

/-- A separator begins with a blank, a bar or an arrow. -/
theorem startsSeparator_cons :
    startsSeparator (c :: rest) =
      (Text.isBlank c || c == '|' || c == '-' && rest.head? == some '>') := by
  unfold startsSeparator
  split
  · simp_all
  · simp_all
  · simp_all
  · cases rest <;> grind

/-- What is neither a blank nor a bar nor the dash of an arrow starts no separator. -/
theorem startsSeparator_cons_eq_false (harrow : ∀ t, c = '-' → rest = '>' :: t → False)
    (hbar : c = '|' → False) (hblank : ¬Text.isBlank c = true) :
    startsSeparator (c :: rest) = false := by
  rw [startsSeparator.eq_def]
  split <;> simp_all

/-- A separator at the start of a text stays one whatever follows the text. -/
theorem startsSeparator_eq_false_of_append (h : startsSeparator (t ++ rest) = false) :
    startsSeparator t = false := by
  cases t with
  | nil => rfl
  | cons c t =>
    rw [List.cons_append, startsSeparator_cons] at h
    rw [startsSeparator_cons]
    cases t <;> simp_all

/-- A separator does not complete an arrow that begins in front of it. -/
theorem head?_ne_of_startsSeparator (h : startsSeparator rest = true) : rest.head? ≠ some '>' := by
  cases rest with
  | nil => simp
  | cons c rest =>
    rw [startsSeparator_cons] at h
    rw [List.head?_cons, ne_eq, Option.some.injEq]
    rintro rfl
    have hblank : Text.isBlank '>' = false := rfl
    simp [hblank] at h

/-- Whether a separator starts in front of a character does not depend on what comes from the next
separator on. -/
theorem startsSeparator_cons_append (hrest : startsSeparator rest = true) :
    startsSeparator (c :: (t ++ rest)) = startsSeparator (c :: t) := by
  have hgt := head?_ne_of_startsSeparator hrest
  rw [startsSeparator_cons, startsSeparator_cons]
  cases t <;> simp_all

/-- Blanks in front of a separator start one. -/
theorem startsSeparator_blanks_append (h : ∀ c ∈ w, Text.isBlank c = true)
    (hrest : startsSeparator rest = true) : startsSeparator (w ++ rest) = true := by
  cases w with
  | nil => exact hrest
  | cons c w => rw [List.cons_append, startsSeparator_cons, h c List.mem_cons_self, Bool.true_or,
      Bool.true_or]

/-- No separator starts anywhere in a text. -/
def IsUnbroken (w : List Char) : Prop := ∀ t, t <:+ w → startsSeparator t = false

/-- No separator begins in the empty text. -/
theorem isUnbroken_nil : IsUnbroken [] := fun t ht => by
  rw [List.suffix_nil.mp ht]
  rfl

/-- A text is unbroken if no separator begins at its front and the rest is unbroken. -/
theorem isUnbroken_cons :
    IsUnbroken (c :: w) ↔ startsSeparator (c :: w) = false ∧ IsUnbroken w := by
  simp only [IsUnbroken, List.suffix_cons_iff, forall_eq_or_imp]

/-- A text is unbroken if it has no blanks or bars in it, and no arrow. -/
theorem isUnbroken_iff :
    IsUnbroken w ↔ w.any Text.isBlank = false ∧ '|' ∉ w ∧ ¬ ['-', '>'] <:+: w := by
  induction w with
  | nil => simp [isUnbroken_nil]
  | cons c w ih =>
    rw [isUnbroken_cons, startsSeparator_cons, ih, List.infix_cons_iff]
    cases w <;> simp [List.cons_prefix_cons] <;> grind

/-- Words are the symbols that are not empty and not broken. -/
theorem isWord_iff_isUnbroken : s.IsWord ↔ s.toList ≠ [] ∧ IsUnbroken s.toList := by
  rw [isUnbroken_iff, ne_eq, String.toList_eq_nil_iff, Symbol.isWord_iff]

/-! ## Reading one token -/

/-- A character where no separator begins belongs to the symbol. -/
theorem spanSymbol_cons (h : startsSeparator (c :: rest) = false) :
    spanSymbol (c :: rest) = (c :: (spanSymbol rest).1, (spanSymbol rest).2) := by
  simp [spanSymbol, h]

/-- The empty text has no tokens. -/
@[simp] theorem ofChars_nil : ofChars [] = [] := by rw [ofChars.eq_def]

/-- An arrow in front is a token. -/
@[simp] theorem ofChars_arrow (rest : List Char) :
    ofChars ('-' :: '>' :: rest) = arrow :: ofChars rest := by
  rw [ofChars.eq_def]
  rfl

/-- A bar in front is a token. -/
@[simp] theorem ofChars_bar (rest : List Char) : ofChars ('|' :: rest) = bar :: ofChars rest := by
  rw [ofChars.eq_def]
  rfl

/-- A blank in front is no part of a token. -/
theorem ofChars_cons_of_isBlank (h : Text.isBlank c = true) (rest : List Char) :
    ofChars (c :: rest) = ofChars rest := by
  have harrow : c ≠ '-' := fun heq => absurd (heq ▸ h) (by decide)
  have hbar : c ≠ '|' := fun heq => absurd (heq ▸ h) (by decide)
  rw [ofChars.eq_def]
  split <;> simp_all

/-- A text that starts no separator starts with a symbol, which runs up to the next separator. -/
theorem ofChars_cons (h : startsSeparator (c :: rest) = false) :
    ofChars (c :: rest) =
      symbol (String.ofList (c :: (spanSymbol rest).1)) :: ofChars (spanSymbol rest).2 := by
  rw [ofChars.eq_def]
  split
  · simp_all
  · simp_all [startsSeparator_cons]
  · simp_all [startsSeparator_cons]
  · rename_i heq
    obtain ⟨rfl, rfl⟩ := List.cons.inj heq
    simp_all [startsSeparator_cons]

/-- The first character after the indentation is not blank. -/
theorem isBlank_eq_false_of_dropBlanks (h : Text.dropBlanks t = c :: rest) :
    Text.isBlank c = false := by
  have hhead := List.head?_dropWhile_not Text.isBlank t
  rw [← Text.dropBlanks, h] at hhead
  exact hhead

/-- Indentation holds no tokens. -/
theorem ofChars_dropBlanks (t : List Char) : ofChars (Text.dropBlanks t) = ofChars t := by
  induction t with
  | nil => rfl
  | cons c rest ih =>
    by_cases hc : Text.isBlank c = true
    · rw [Text.dropBlanks_cons_of_isBlank hc, ih, ofChars_cons_of_isBlank hc]
    · simp [Text.dropBlanks, hc]

/-- An unbroken text is one symbol. -/
theorem spanSymbol_of_isUnbroken (hw : IsUnbroken w) : spanSymbol w = (w, []) := by
  induction w with
  | nil => rfl
  | cons c w ih =>
    obtain ⟨hc, hw⟩ := isUnbroken_cons.mp hw
    rw [spanSymbol_cons hc, ih hw]

/-- A word is read as a symbol. -/
theorem ofChars_word (hs : s.IsWord) : ofChars s.toList = [symbol s] := by
  obtain ⟨hne, hunbroken⟩ := isWord_iff_isUnbroken.mp hs
  obtain ⟨c, rest, hcons⟩ := List.exists_cons_of_ne_nil hne
  rw [hcons] at hunbroken ⊢
  obtain ⟨hstart, hrest⟩ := isUnbroken_cons.mp hunbroken
  rw [ofChars_cons hstart, spanSymbol_of_isUnbroken hrest, ofChars_nil, ← hcons,
    String.ofList_toList]

/-! ## A line in two parts -/

/-- A symbol ends in front of a separator. -/
theorem spanSymbol_append (t : List Char) (hrest : startsSeparator rest = true) :
    spanSymbol (t ++ rest) = ((spanSymbol t).1, (spanSymbol t).2 ++ rest) := by
  induction t with
  | nil =>
    cases rest with
    | nil => rfl
    | cons c rest => simp [spanSymbol, hrest]
  | cons c t ih =>
    rw [List.cons_append, spanSymbol, spanSymbol, startsSeparator_cons_append hrest]
    split
    · rfl
    · rw [ih]

/-- The tokens of a line are those in front of a separator and those from it on. -/
theorem ofChars_append (t : List Char) (hrest : startsSeparator rest = true) :
    ofChars (t ++ rest) = ofChars t ++ ofChars rest := by
  induction t using ofChars.induct with
  | case1 => simp
  | case2 t ih => simp [ih]
  | case3 t ih => simp [ih]
  | case4 c t harrow hbar hc ih =>
    rw [List.cons_append, ofChars_cons_of_isBlank hc, ofChars_cons_of_isBlank hc, ih]
  | case5 c t harrow hbar hc ih =>
    -- the text starts with a symbol, which is the same one whatever comes from the separator on
    have hstart := startsSeparator_cons_eq_false harrow hbar hc
    have hstart' : startsSeparator (c :: (t ++ rest)) = false := by
      rw [startsSeparator_cons_append hrest, hstart]
    rw [List.cons_append, ofChars_cons hstart', ofChars_cons hstart, spanSymbol_append t hrest, ih]
    rfl

/-- Blanks in front of a text hold no tokens. -/
theorem ofChars_blanks_append (h : ∀ c ∈ w, Text.isBlank c = true) (t : List Char) :
    ofChars (w ++ t) = ofChars t := by
  induction w with
  | nil => rfl
  | cons c w ih =>
    obtain ⟨hc, hw⟩ := List.forall_mem_cons.mp h
    rw [List.cons_append, ofChars_cons_of_isBlank hc, ih hw]

/-- Blanks behind a text hold no tokens. -/
theorem ofChars_append_blanks (t : List Char) (h : ∀ c ∈ w, Text.isBlank c = true) :
    ofChars (t ++ w) = ofChars t := by
  cases w with
  | nil => rw [List.append_nil]
  | cons c w =>
    have hc := h c List.mem_cons_self
    have hsep : startsSeparator (c :: w) = true := by simp [startsSeparator_cons, hc]
    have hnone := ofChars_blanks_append h []
    rw [List.append_nil, ofChars_nil] at hnone
    rw [ofChars_append t hsep, hnone, List.append_nil]

/-- A token as it is written. -/
def text : Token → String
  | arrow => "->"
  | bar => "|"
  | symbol s => s

/-- The text of a token is read as this token. -/
theorem ofChars_token {token : Token} (h : ∀ s, token = symbol s → s.IsWord) :
    ofChars token.text.toList = [token] := by
  cases token with
  | arrow => exact (ofChars_arrow []).trans (by rw [ofChars_nil])
  | bar => exact (ofChars_bar []).trans (by rw [ofChars_nil])
  | symbol s => exact ofChars_word (h s rfl)

/-- Tokens with spaces between them are read back, if their symbols are words. -/
theorem ofChars_texts {tokens : List Token} (h : ∀ s, symbol s ∈ tokens → s.IsWord) :
    ofChars (" ".intercalate (tokens.map text)).toList = tokens := by
  induction tokens with
  | nil => simp
  | cons token rest ih =>
    have htoken : ∀ s, token = symbol s → s.IsWord := fun s hs => h s (by simp [hs])
    have hrest : ∀ s, symbol s ∈ rest → s.IsWord := fun s hs => h s (List.mem_cons_of_mem _ hs)
    cases rest with
    | nil => simpa using ofChars_token htoken
    | cons next more =>
      have hblank : " ".toList = [' '] := rfl
      rw [List.map_cons, List.map_cons, String.intercalate_cons_cons, String.toList_append,
        String.toList_append, List.append_assoc, hblank, List.singleton_append,
        ofChars_append _ rfl, ofChars_token htoken, ofChars_cons_of_isBlank rfl, ← List.map_cons,
        ih hrest]
      rfl

/-- Words with blanks between them are read as these symbols. -/
theorem ofChars_text {alt : Alternative} (h : ∀ s ∈ alt, s.IsWord) :
    ofChars alt.text.toList = alt.map symbol := by
  have hsymbols : (alt.map symbol).map text = alt := by simp [Function.comp_def, text]
  have hread : ofChars (" ".intercalate ((alt.map symbol).map text)).toList = alt.map symbol :=
    ofChars_texts (by simpa using h)
  rw [hsymbols] at hread
  exact hread

/-! ## What is read as a symbol -/

/-- The symbol in front and what is left make up the text. -/
theorem append_spanSymbol (t : List Char) : (spanSymbol t).1 ++ (spanSymbol t).2 = t := by
  induction t with
  | nil => rfl
  | cons c rest ih =>
    rw [spanSymbol]
    split
    · rfl
    · rw [List.cons_append, ih]

/-- The symbol in front is unbroken. -/
theorem isUnbroken_fst_spanSymbol (t : List Char) : IsUnbroken (spanSymbol t).1 := by
  induction t with
  | nil => exact isUnbroken_nil
  | cons c rest ih =>
    rw [spanSymbol]
    split
    · exact isUnbroken_nil
    · -- a separator at the start of the symbol would start one at the start of the text
      rename_i hc
      refine isUnbroken_cons.mpr ⟨?_, ih⟩
      have happend : c :: (spanSymbol rest).1 ++ (spanSymbol rest).2 = c :: rest := by
        rw [List.cons_append, append_spanSymbol]
      apply startsSeparator_eq_false_of_append
      rw [happend]
      simpa using hc

/-- Whatever is read as a symbol is a word. -/
theorem isWord_of_mem_ofChars (h : symbol s ∈ ofChars t) : s.IsWord := by
  induction t using ofChars.induct with
  | case1 => simp at h
  | case2 rest ih => exact ih (by simpa using h)
  | case3 rest ih => exact ih (by simpa using h)
  | case4 c rest harrow hbar hc ih =>
    rw [ofChars_cons_of_isBlank hc] at h
    exact ih h
  | case5 c rest harrow hbar hc ih =>
    -- neither an arrow nor a bar nor a blank, so the text starts with a symbol
    have hstart := startsSeparator_cons_eq_false harrow hbar hc
    rw [ofChars_cons hstart] at h
    rcases List.mem_cons.mp h with heq | h
    · obtain rfl := Token.symbol.inj heq
      have hunbroken := isUnbroken_fst_spanSymbol (c :: rest)
      rw [spanSymbol_cons hstart] at hunbroken
      refine isWord_iff_isUnbroken.mpr ⟨?_, ?_⟩
      · simp
      · rw [String.toList_ofList]
        exact hunbroken
    · exact ih h

/-- The first symbol of a text begins with the first character that is not blank. -/
theorem head?_of_ofChars_eq_cons {tokens : List Token} (hc : Text.isBlank c = false)
    (h : ofChars (c :: rest) = symbol s :: tokens) : s.toList.head? = some c := by
  rw [ofChars.eq_def] at h
  split at h
  · simp at h
  · simp at h
  · simp at h
  · rename_i heq
    obtain ⟨rfl, rfl⟩ := List.cons.inj heq
    rw [hc] at h
    obtain ⟨rfl, -⟩ := by simpa using h
    simp

end Token

end Lookahead
