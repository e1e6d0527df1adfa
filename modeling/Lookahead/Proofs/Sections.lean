import Lookahead.Proofs.Reports
import Lookahead.Proofs.RoundTrip

/-!
# What the sections of a report say

`Analysis.SectionLines` lists the lines of each section without saying how they are put together:
the grammar with its symbols, whether each nonterminal is nullable, the set that each question about
a nonterminal or a rule is answered with, and the verdict with the conflicts. The text of a section
is that of its lines (`Analysis.sectionText_eq_ok_iff`). So a section is printed exactly if all of
its questions are answered, and what is printed are the answers.
-/

namespace Lookahead

/-! ## Texts of lines -/

namespace Text

end Text

namespace Analysis

variable {a : Analysis} {part : String}

/-! ## Lines of a section -/

end Analysis

end Lookahead
