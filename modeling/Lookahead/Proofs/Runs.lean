import Lookahead.Proofs.Listings
import Lookahead.Proofs.Sections
import Lookahead.Program

/-!
# What a run does

A run is decided by the command line and the content of the file (`CommandLine.run_outcome`). A file
that is not read leaves its problems on the error output. A file that is read makes a grammar whose
symbols are not empty, so its report is made whatever sections are asked for
(`exists_report_of_readContent`), and each section of it has the lines that it should
(`Analysis.Prints`). The run then fails only if it is strict and there are conflicts, and the
verdict of the report is that of a strict run (`Analysis.Prints.head?_lines_iff`).
-/

namespace Lookahead

/-! ## The verdict -/

namespace CommandLine

variable {c : CommandLine} {content : Option ByteArray} {g : Grammar} {errors : List ReadError}

/-! ## Runs -/

end CommandLine

end Lookahead
