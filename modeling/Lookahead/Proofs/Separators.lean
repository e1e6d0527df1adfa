import Lookahead.Proofs.Tokens

/-!
# Lines and their separators

Blanks, bars and arrows cut a line wherever they stand, and what is between two of them is read by
itself (`Token.ofLine_separates`). The tokens are found in rounds, each of which takes one from the
front of the text behind the indentation. A symbol that is found there is not empty, so every round
leaves less of the text and the rounds come to an end (`Token.reads_iff`).
-/

namespace Lookahead.Token

variable {t rest : List Char} {token : Token} {tokens : List Token}

/-! ## Round by round -/

/-- The token in front of a text without indentation, and the text behind it. -/
def next? : List Char → Option (Token × List Char)
  | [] => none
  | '-' :: '>' :: rest => some (arrow, rest)
  | '|' :: rest => some (bar, rest)
  | t => some (symbol (String.ofList (spanSymbol t).1), (spanSymbol t).2)

/-- The tokens that are read from a text in rounds, one in each, until nothing but blanks is
left. -/
inductive Reads : List Char → List Token → Prop
  | finished {t : List Char} (h : next? (Text.dropBlanks t) = none) : Reads t []
  | round {t rest : List Char} {token : Token} {tokens : List Token}
      (h : next? (Text.dropBlanks t) = some (token, rest)) (hrest : Reads rest tokens) :
      Reads t (token :: tokens)

/-- The rounds end only where no text is left. -/
theorem eq_nil_of_next? (h : next? t = none) : t = [] := by
  unfold next? at h
  split at h <;> simp_all

/-- A round reads the first token of a text, and leaves less than there was. -/
theorem ofChars_of_next? (h : next? (Text.dropBlanks t) = some (token, rest)) :
    ofChars t = token :: ofChars rest ∧ rest.length < t.length := by
  have hle : (Text.dropBlanks t).length ≤ t.length :=
    List.Sublist.length_le (List.dropWhile_sublist _)
  rw [← ofChars_dropBlanks t]
  generalize hfront : Text.dropBlanks t = front at h hle ⊢
  unfold next? at h
  split at h
  · simp at h
  · obtain ⟨rfl, rfl⟩ := by simpa using h
    exact ⟨ofChars_arrow _, by simp only [List.length_cons] at hle; omega⟩
  · obtain ⟨rfl, rfl⟩ := by simpa using h
    exact ⟨ofChars_bar _, by simp only [List.length_cons] at hle; omega⟩
  · -- the indentation is gone, so no separator is left that could end the symbol at once
    rename_i hne harrow hbar
    obtain ⟨c, more, rfl⟩ := List.exists_cons_of_ne_nil hne
    have hblank := isBlank_eq_false_of_dropBlanks hfront
    have hstart : startsSeparator (c :: more) = false := by
      apply startsSeparator_cons_eq_false
      · exact fun t hc hmore => harrow t (by rw [hc, hmore])
      · exact fun hc => hbar more (by rw [hc])
      · exact Bool.eq_false_iff.mp hblank
    rw [spanSymbol_cons hstart] at h
    obtain ⟨rfl, rfl⟩ := Prod.mk.inj (Option.some.inj h)
    have hrest := length_snd_spanSymbol_le more
    exact ⟨ofChars_cons hstart, (Nat.lt_succ_of_le hrest).trans_le hle⟩

/-- The tokens of a text are what the rounds read from it. -/
theorem reads_ofChars (t : List Char) : Reads t (ofChars t) := by
  cases hnext : next? (Text.dropBlanks t) with
  | none =>
    rw [← ofChars_dropBlanks, eq_nil_of_next? hnext, ofChars_nil]
    exact .finished hnext
  | some found =>
    obtain ⟨hfirst, hlt⟩ := ofChars_of_next? hnext
    rw [hfirst]
    exact .round hnext (reads_ofChars found.2)
termination_by t.length

/-- Reading in rounds ends on every text, with the tokens of the text. -/
theorem reads_iff : Reads t tokens ↔ tokens = ofChars t := by
  constructor
  · intro h
    induction h with
    | finished h => rw [← ofChars_dropBlanks, eq_nil_of_next? h, ofChars_nil]
    | round h _ ih => rw [(ofChars_of_next? h).1, ih]
  · rintro rfl
    exact reads_ofChars t

/-! ## The texts of the tokens -/

/-- The tokens of a line show all of it but the blanks. -/
theorem flatMap_toList_text (t : List Char) :
    (ofChars t).flatMap (fun token => token.text.toList) =
      t.filter fun c => !Text.isBlank c := by
  induction t using ofChars.induct with
  | case1 => simp
  | case2 rest ih =>
    rw [ofChars_arrow, List.flatMap_cons, ih]
    rfl
  | case3 rest ih =>
    rw [ofChars_bar, List.flatMap_cons, ih]
    rfl
  | case4 c rest harrow hbar hc ih =>
    rw [ofChars_cons_of_isBlank hc, ih, List.filter_cons_of_neg (by simp [hc])]
  | case5 c rest harrow hbar hc ih =>
    have hstart := startsSeparator_cons_eq_false harrow hbar hc
    -- the symbol has no blanks in it, and the rest of the text stands behind it
    have hword := (isUnbroken_iff.mp (isUnbroken_fst_spanSymbol (c :: rest))).1
    have htext := append_spanSymbol (c :: rest)
    rw [spanSymbol_cons hstart] at hword htext
    have hkept : (c :: (spanSymbol rest).1).filter (fun c => !Text.isBlank c) =
        c :: (spanSymbol rest).1 := by
      rw [List.filter_eq_self]
      intro a ha
      simpa using List.any_eq_false.mp hword a ha
    rw [ofChars_cons hstart, List.flatMap_cons, ih, text, String.toList_ofList]
    conv_rhs => rw [← htext, List.filter_append, hkept]

/-- Every blank, bar and arrow separates what stands before it from what stands behind it, and a
word is a symbol. So reading ends on every line, what is read as a symbol is a word, the tokens show
the line less its blanks, and tokens written with spaces between them read back. -/
theorem ofLine_separates :
    (∀ a b c, Text.isBlank c = true →
        ofLine (a ++ String.singleton c ++ b) = ofLine a ++ ofLine b) ∧
      (∀ a b, ofLine (a ++ "|" ++ b) = ofLine a ++ [bar] ++ ofLine b) ∧
      (∀ a b, ofLine (a ++ "->" ++ b) = ofLine a ++ [arrow] ++ ofLine b) ∧
      (∀ s : Symbol, s.IsWord → ofLine s = [symbol s]) ∧
      (∀ line tokens, Reads line.toList tokens ↔ tokens = ofLine line) ∧
      (∀ line s, symbol s ∈ ofLine line → s.IsWord) ∧
      (∀ line, String.join ((ofLine line).map text) =
        String.ofList (line.toList.filter fun c => !Text.isBlank c)) ∧
      ∀ tokens, (∀ s, symbol s ∈ tokens → s.IsWord) →
        ofLine (" ".intercalate (tokens.map text)) = tokens := by
  refine ⟨fun a b c hc => ?_, fun a b => ?_, fun a b => ?_, fun s hs => ofChars_word hs,
    fun line tokens => reads_iff, fun line s hs => isWord_of_mem_ofChars hs, fun line => ?_,
    fun tokens h => ofChars_texts h⟩
  · have hsplit : (a ++ String.singleton c ++ b).toList = a.toList ++ c :: b.toList := by simp
    have hstarts : startsSeparator (c :: b.toList) = true := by simp [startsSeparator_cons, hc]
    rw [ofLine, hsplit, ofChars_append _ hstarts, ofChars_cons_of_isBlank hc]
    rfl
  · have hsplit : (a ++ "|" ++ b).toList = a.toList ++ '|' :: b.toList := by simp
    rw [ofLine, hsplit, ofChars_append _ rfl, ofChars_bar, List.append_assoc]
    rfl
  · have hsplit : (a ++ "->" ++ b).toList = a.toList ++ '-' :: '>' :: b.toList := by simp
    rw [ofLine, hsplit, ofChars_append _ rfl, ofChars_arrow, List.append_assoc]
    rfl
  · -- the tokens drop the blanks of a line and keep everything else in order
    rw [← String.toList_inj, String.toList_join, String.toList_ofList, List.flatMap_map]
    exact flatMap_toList_text line.toList

/-- Dashes next to an arrow belong to the symbols around it. -/
theorem dashes_ofLine :
    Text.isBlank (Char.ofNat 0x2003) = true ∧
      ofLine ("-" ++ String.singleton (Char.ofNat 0x2003) ++ ">") = ofLine "-" ++ ofLine ">" ∧
      Symbol.IsWord "a-" ∧ Symbol.IsWord ">b" ∧
      ofLine ("a-" ++ "->" ++ ">b") = [symbol "a-", arrow, symbol ">b"] ∧
      ofLine "a- -> >b |" = [symbol "a-", arrow, symbol ">b", bar] := by
  obtain ⟨hblank, -, harrow, hword, -, -, -, htexts⟩ := ofLine_separates
  have hspace : Text.isBlank (Char.ofNat 0x2003) = true := rfl
  have hleft : Symbol.IsWord "a-" := by decide
  have hright : Symbol.IsWord ">b" := by decide
  refine ⟨hspace, hblank "-" ">" _ hspace, hleft, hright, ?_, ?_⟩
  · rw [harrow, hword _ hleft, hword _ hright]
    rfl
  · have hwords : ∀ s, symbol s ∈ [symbol "a-", arrow, symbol ">b", bar] → s.IsWord := by
      simp [hleft, hright]
    exact htexts _ hwords

end Lookahead.Token
