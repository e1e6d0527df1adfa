/-!
# Lines

A text is cut into lines after every line feed; a carriage return right before a line feed belongs
to the line's end and is dropped with it. The text after the last line feed is a line of its own
unless it is empty, so a text that ends with a line feed has no empty last line.

The cut is stated for any alphabet, since a file is cut into lines as bytes and a string as
characters.
-/

namespace Lookahead.Text

/-- The lines of a text whose lines end at `feed`, with one `carriage` before it if there is one. -/
def cutLines {α : Type} [DecidableEq α] (feed carriage : α) : List α → List (List α)
  | [] => []
  | c :: rest =>
    if c = feed then [] :: cutLines feed carriage rest
    else if c = carriage ∧ rest.head? = some feed then cutLines feed carriage rest
    else
      match cutLines feed carriage rest with
      | [] => [[c]]
      | line :: more => (c :: line) :: more

/-- The lines of a text of characters. -/
def lines (text : String) : List String :=
  (cutLines '\n' '\r' text.toList).map String.ofList

/-- The lines of a file's bytes. -/
def byteLines (bytes : List UInt8) : List (List UInt8) :=
  cutLines 0x0A 0x0D bytes

end Lookahead.Text
