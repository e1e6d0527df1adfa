import Lookahead.Proofs.Diagnosis
import Lookahead.Proofs.Lines
import Lookahead.Proofs.Listings

/-!
# Reading the bytes of a file

A file is cut into lines before its bytes are decoded, a text after. For a file that is valid UTF-8
this makes no difference, since line ends are encoded as the bytes that end lines and no other
character has these bytes in its encoding. A file that is not valid UTF-8 has a line that is not,
and then the errors of single lines are all that is reported: `LineProblem` says what they are, and
`readContent_bytes` that each of them is reported once and in the order of lines.
-/

namespace Lookahead

/-! ## Encoded text -/

namespace Text

variable {bytes : ByteArray} {text : String}

/-- A byte of an encoded character is the character itself or no ASCII. -/
theorem toNat_eq_or_le_of_mem_utf8EncodeChar {c : Char} {b : UInt8}
    (h : b ∈ String.utf8EncodeChar c) : b.toNat = c.toNat ∨ 128 ≤ b.toNat := by
  have hc : c.val.toNat = c.toNat := rfl
  have hlast : ∀ n, 128 ≤ (UInt8.ofNat (n % 64 + 128)).toNat := fun n => by
    rw [UInt8.toNat_ofNat']
    omega
  unfold String.utf8EncodeChar at h
  simp only [hc] at h
  split at h
  · left
    rw [List.mem_singleton.mp h, UInt8.toNat_ofNat']
    omega
  · -- the first of several bytes is at least 192, and each of the others 128 and six bits
    right
    split at h
    · simp only [List.mem_cons, List.not_mem_nil, or_false] at h
      rcases h with rfl | rfl
      · rw [UInt8.toNat_ofNat']
        omega
      · exact hlast _
    · split at h
      · simp only [List.mem_cons, List.not_mem_nil, or_false] at h
        rcases h with rfl | rfl | rfl
        · rw [UInt8.toNat_ofNat']
          omega
        · exact hlast _
        · exact hlast _
      · simp only [List.mem_cons, List.not_mem_nil, or_false] at h
        rcases h with rfl | rfl | rfl | rfl
        · rw [UInt8.toNat_ofNat']
          omega
        · exact hlast _
        · exact hlast _
        · exact hlast _

/-- A byte of ASCII in the encoding of a character is the character. -/
theorem eq_of_mem_utf8EncodeChar {c d : Char} {b : UInt8} (hd : b.toNat = d.toNat)
    (hb : b.toNat < 128) (h : b ∈ String.utf8EncodeChar c) : c = d := by
  rcases toNat_eq_or_le_of_mem_utf8EncodeChar h with hc | hle
  · exact Char.toNat_inj.mp (hc.symm.trans hd)
  · omega

/-- UTF-8 keeps the ends of lines. -/
theorem writesLineEnds_utf8 : WritesLineEnds '\n' '\r' 0x0A 0x0D String.utf8EncodeChar where
  write_feed := rfl
  write_carriage := rfl
  write_ne_nil _ := String.utf8EncodeChar_ne_nil
  feed_of_mem h := eq_of_mem_utf8EncodeChar rfl (by decide) h
  carriage_of_mem h := eq_of_mem_utf8EncodeChar rfl (by decide) h

/-- Bytes are a text if they are the encodings of its characters, one behind the other. -/
theorem fromUTF8?_eq_some_iff : String.fromUTF8? bytes = some text ↔
    bytes.data.toList = text.toList.flatMap String.utf8EncodeChar := by
  have hencoded : text.toByteArray.data.toList = text.toList.flatMap String.utf8EncodeChar := by
    rw [← String.utf8Encode_toList, List.utf8Encode, List.toList_data_toByteArray]
  rw [← hencoded, Array.toList_inj, ← ByteArray.ext_iff]
  unfold String.fromUTF8?
  split
  · rw [Option.some.injEq, ← String.toByteArray_inj]
    rfl
  · rename_i hinvalid
    simp only [reduceCtorEq, false_iff]
    rintro rfl
    exact hinvalid text.isValidUTF8

/-- Bytes are some text if they are the encodings of some characters. -/
theorem exists_fromUTF8?_iff : (∃ text, String.fromUTF8? bytes = some text) ↔
    ∃ chars : List Char, bytes.data.toList = chars.flatMap String.utf8EncodeChar := by
  simp only [fromUTF8?_eq_some_iff]
  constructor
  · rintro ⟨text, htext⟩
    exact ⟨text.toList, htext⟩
  · rintro ⟨chars, hchars⟩
    exact ⟨String.ofList chars, by rw [String.toList_ofList, hchars]⟩

end Text

namespace Source

variable {file : String} {bytes : ByteArray} {line : List UInt8} {text : String} {number : Nat}
  {errors : List ReadError}

/-! ## Lines of bytes -/

/-- A line is read as a text if it is the encoding of the text's characters. -/
theorem decodeLine_eq_ok_iff :
    decodeLine line = .ok text ↔ line = text.toList.flatMap String.utf8EncodeChar := by
  have hdecoded : String.fromUTF8? ⟨line.toArray⟩ = some text ↔
      line = text.toList.flatMap String.utf8EncodeChar := Text.fromUTF8?_eq_some_iff
  rw [← hdecoded]
  unfold decodeLine
  cases String.fromUTF8? ⟨line.toArray⟩ <;> simp

/-- A file that is text has the lines of the text. -/
theorem map_decodeLine_byteLines (h : String.fromUTF8? bytes = some text) :
    (Text.byteLines bytes.data.toList).map decodeLine = (Text.lines text).map .ok := by
  rw [Text.fromUTF8?_eq_some_iff.mp h, Text.byteLines,
    Text.writesLineEnds_utf8.cutLines_flatMap, Text.lines, List.map_map, List.map_map]
  refine List.map_congr_left fun chars _ => decodeLine_eq_ok_iff.mpr ?_
  rw [String.toList_ofList]

/-- A file that is no text has a line that is none. -/
theorem exists_byteLine_of_fromUTF8?_eq_none (h : String.fromUTF8? bytes = none) :
    ∃ line ∈ Text.byteLines bytes.data.toList, String.fromUTF8? ⟨line.toArray⟩ = none := by
  by_contra hnone
  have hlines : ∀ line ∈ Text.byteLines bytes.data.toList,
      ∃ chars : List Char, line = chars.flatMap String.utf8EncodeChar := by
    intro line hline
    have hsome : String.fromUTF8? ⟨line.toArray⟩ ≠ none := fun h' => hnone ⟨line, hline, h'⟩
    exact Text.exists_fromUTF8?_iff.mp (Option.ne_none_iff_exists'.mp hsome)
  obtain ⟨text, htext⟩ := Text.exists_fromUTF8?_iff.mpr
    (Text.writesLineEnds_utf8.exists_flatMap_of_cutLines _ hlines)
  rw [h] at htext
  exact nomatch htext

/-! ## What is wrong with lines -/

/-- Whether a line of a file's bytes is the one with this number, counting from one. -/
def IsByteLine (bytes : ByteArray) (number : Nat) (line : List UInt8) : Prop :=
  1 ≤ number ∧ (Text.byteLines bytes.data.toList)[number - 1]? = some line

/-- What is reported of a line of a file by itself: that it is no text, which counts against the
whole file, or that it holds rule text and is malformed. -/
inductive LineProblem (file : String) (bytes : ByteArray) (number : Nat) : ReadError → Prop
  | notText {line : List UInt8} (hline : IsByteLine bytes number line)
      (hnone : String.fromUTF8? ⟨line.toArray⟩ = none) :
      LineProblem file bytes number ⟨.wholeFile file, .file .invalidData⟩
  | malformed {line : List UInt8} {text : String} {fault : LineError}
      (hline : IsByteLine bytes number line) (htext : String.fromUTF8? ⟨line.toArray⟩ = some text)
      (hholds : HasRuleText text) (hfault : RuleLine.ofTokens (Token.ofLine text) = .error fault) :
      LineProblem file bytes number ⟨.atLine file number, .line fault⟩

/-- A line is reported for what is wrong with it. -/
theorem readLine?_decodeLine_eq_error_iff {e : ReadError} :
    (∃ line, (line, number) ∈ ((Text.byteLines bytes.data.toList).map decodeLine).zipIdx 1 ∧
        readLine? file line number = some (.error e)) ↔ LineProblem file bytes number e := by
  simp only [List.mk_mem_zipIdx_iff_le_and_getElem?_sub, List.getElem?_map, Option.map_eq_some_iff]
  constructor
  · rintro ⟨-, ⟨hnumber, line, hline, rfl⟩, herror⟩
    unfold decodeLine at herror
    split at herror
    · rename_i text htext
      obtain ⟨hholds, fault, hfault, rfl⟩ := readLine?_eq_some_error_iff.mp herror
      exact .malformed ⟨hnumber, hline⟩ htext (holdsRule_iff.mp hholds) hfault
    · rename_i hnone
      obtain rfl : _ = e := by simpa [readLine?] using herror
      exact .notText ⟨hnumber, hline⟩ hnone
  · rintro (⟨⟨hnumber, hline⟩, hnone⟩ | ⟨⟨hnumber, hline⟩, htext, hholds, hfault⟩)
    · refine ⟨_, ⟨hnumber, _, hline, rfl⟩, ?_⟩
      rw [decodeLine, hnone]
      rfl
    · refine ⟨_, ⟨hnumber, _, hline, rfl⟩, ?_⟩
      rw [decodeLine, htext]
      exact readLine?_eq_some_error_iff.mpr ⟨holdsRule_iff.mpr hholds, _, hfault, rfl⟩

/-- A file that is text is read as the text. Of any other file, what is reported are the problems of
its lines, among them a line that is no text. -/
theorem readContent_bytes (file : String) (bytes : ByteArray) :
    (∀ text, String.fromUTF8? bytes = some text →
        readContent file (some bytes) = readText file text) ∧
      (String.fromUTF8? bytes = none →
        ∃ errors, readContent file (some bytes) = .error errors ∧
          readLines file ((Text.byteLines bytes.data.toList).map decodeLine) = .error errors ∧
          ⟨.wholeFile file, .file .invalidData⟩ ∈ errors ∧
          ListsInOrder (· < ·) (LineProblem file bytes) errors) := by
  refine ⟨fun text htext => ?_, fun hnone => ?_⟩
  · rw [readContent, readBytes, map_decodeLine_byteLines htext]
    rfl
  · obtain ⟨line, hmem, hline⟩ := exists_byteLine_of_fromUTF8?_eq_none hnone
    -- one line at least is no text, so reading cannot go through
    obtain ⟨i, hi⟩ := List.mem_iff_getElem?.mp hmem
    have hproblem : LineProblem file bytes (i + 1) ⟨.wholeFile file, .file .invalidData⟩ :=
      .notText ⟨Nat.le_add_left 1 i, hi⟩ hline
    cases hread : readLines file ((Text.byteLines bytes.data.toList).map decodeLine) with
    | ok written =>
      obtain ⟨line, hline, herror⟩ := readLine?_decodeLine_eq_error_iff.mpr hproblem
      exact absurd herror (readLine?_ne_error_of_readLines hread hline _)
    | error errors =>
      have hlists : ListsInOrder (· < ·) (LineProblem file bytes) errors :=
        (listsInOrder_of_readLines_eq_error hread).congr fun _ _ =>
          readLine?_decodeLine_eq_error_iff
      exact ⟨errors, read_eq_error_iff.mpr (.inl hread), rfl, hlists.mem_iff.mpr ⟨_, hproblem⟩,
        hlists⟩

/-- A grammar with characters of two and of three bytes, and line ends of both kinds. -/
def accentedText : String := "# é\r\nS -> ∅ é $\n∅ -> lambda"

/-- A comment that is no text, a malformed line, a rule, and a line that stops within a
character. -/
def brokenFile : ByteArray :=
  "# ".toUTF8 ++ ⟨#[0xFF]⟩ ++ "\na -> b\r\nS -> A $\n| ".toUTF8 ++ ⟨#[0xC3]⟩

/-- The undefined nonterminal of the rule is not reported. -/
theorem brokenFile_readContent :
    String.fromUTF8? accentedText.toUTF8 = some accentedText ∧
      readContent "g.cfg" (some accentedText.toUTF8) = readText "g.cfg" accentedText ∧
      String.fromUTF8? brokenFile = none ∧
      ∃ errors, readContent "g.cfg" (some brokenFile) = .error errors ∧
        errors.map (·.cause) =
          [.file .invalidData, .line .missingNonterminal, .file .invalidData] ∧
        ListsInOrder (· < ·) (LineProblem "g.cfg" brokenFile) errors := by
  have htext : String.fromUTF8? accentedText.toUTF8 = some accentedText := by decide +kernel
  have hbroken : String.fromUTF8? brokenFile = none := by decide +kernel
  have hcauses : (error? (readContent "g.cfg" (some brokenFile))).map (·.map (·.cause)) =
      some [.file .invalidData, .line .missingNonterminal, .file .invalidData] := by
    decide +kernel
  obtain ⟨hreads, -⟩ := readContent_bytes "g.cfg" accentedText.toUTF8
  obtain ⟨-, hfails⟩ := readContent_bytes "g.cfg" brokenFile
  obtain ⟨errors, herrors, -, -, hlists⟩ := hfails hbroken
  rw [herrors] at hcauses
  exact ⟨htext, hreads _ htext, hbroken, errors, herrors, Option.some.inj hcauses, hlists⟩

end Source

end Lookahead
