import Lookahead.Symbol.Basic
import Lookahead.Text.Blank

/-!
# Tokens

A line is made of arrows `->`, bars `|` and symbols. A symbol runs up to the next blank, bar or
arrow; blanks separate and are dropped. Arrows and bars need no blanks around them, so `a|b->c`
holds five tokens.
-/

namespace Lookahead

/-- A token of a line. -/
inductive Token where
  | arrow
  | bar
  | symbol (text : Symbol)
  deriving DecidableEq, Repr

namespace Token

/-- Whether a symbol would have to stop in front of the text: at a blank, a bar or an arrow. -/
def startsSeparator : List Char → Bool
  | [] => false
  | '-' :: '>' :: _ => true
  | '|' :: _ => true
  | c :: _ => Text.isBlank c

/-- The symbol at the start of a text, perhaps an empty one, and the text after it. -/
def spanSymbol : List Char → List Char × List Char
  | [] => ([], [])
  | c :: rest =>
    if startsSeparator (c :: rest) then ([], c :: rest)
    else (c :: (spanSymbol rest).1, (spanSymbol rest).2)

/-- What is left behind a symbol is no longer than the text. -/
theorem length_snd_spanSymbol_le (text : List Char) :
    (spanSymbol text).2.length ≤ text.length := by
  induction text with
  | nil => simp [spanSymbol]
  | cons c rest ih =>
    rw [spanSymbol]
    split
    · simp
    · simp only [List.length_cons]
      omega

/-- The tokens of a line's characters. -/
def ofChars : List Char → List Token
  | [] => []
  | '-' :: '>' :: rest => arrow :: ofChars rest
  | '|' :: rest => bar :: ofChars rest
  | c :: rest =>
    if Text.isBlank c then ofChars rest
    else symbol (String.ofList (c :: (spanSymbol rest).1)) :: ofChars (spanSymbol rest).2
termination_by text => text.length
decreasing_by
  · simp only [List.length_cons]
    omega
  · exact Nat.lt_succ_self _
  · exact Nat.lt_succ_self _
  · exact Nat.lt_succ_of_le (length_snd_spanSymbol_le rest)

/-- The tokens of a line. -/
def ofLine (line : String) : List Token := ofChars line.toList

end Token

end Lookahead
