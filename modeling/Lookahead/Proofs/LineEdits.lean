import Lookahead.Proofs.Renumbering
import Lookahead.Proofs.RuleOrder
import Mathlib.Data.List.TakeWhile

/-!
# Editing the lines of a file

Three edits that a reader does not mind: blanks at the end of a line (`read_congr`); a line without
rule text more or less, which shifts the numbers of the errors behind it (`read_insert`); and a head
line cut in two at a bar (`read_cut`). The second line of a cut either continues the first, and then
the rules are the same, or starts a rule of its own, and then they are the same rules with one cut
in two, which a builder does not mind either.
-/

namespace Lookahead.Source

variable {file : String} {line line' : String} {lines lines' front back : List String}

/-! ## Lines that are read alike -/

/-- Whether two lines are the same to a reader. -/
structure ReadsLike (line line' : String) : Prop where
  holdsRule_eq : holdsRule line = holdsRule line'
  ofLine_eq : Token.ofLine line = Token.ofLine line'

/-- Every line reads like itself. -/
theorem readsLike_rfl (lines : List String) : List.Forall₂ ReadsLike lines lines :=
  List.forall₂_same.mpr fun _ _ => ⟨rfl, rfl⟩

/-- Lines that read like the same line read alike. -/
theorem ReadsLike.trans {line'' : String} (h : ReadsLike line line') (h' : ReadsLike line' line'') :
    ReadsLike line line'' :=
  ⟨h.holdsRule_eq.trans h'.holdsRule_eq, h.ofLine_eq.trans h'.ofLine_eq⟩

/-- What a line holds is not changed by blanks at its end. -/
theorem readsLike_append_blanks (line blanks : String)
    (h : ∀ c ∈ blanks.toList, Text.isBlank c = true) : ReadsLike (line ++ blanks) line where
  holdsRule_eq := by
    unfold holdsRule Text.dropBlanks
    rw [String.toList_append, List.dropWhile_append, List.dropWhile_eq_nil_iff.mpr h]
    cases line.toList.dropWhile Text.isBlank <;> rfl
  ofLine_eq := by
    unfold Token.ofLine
    rw [String.toList_append, Token.ofChars_append_blanks _ h]

/-- Lines that read alike are read with the same result, whatever their number. -/
theorem ReadsLike.readLine?_eq (h : ReadsLike line line') (file : String) (number : Nat) :
    readLine? file (.ok line) number = readLine? file (.ok line') number := by
  simp only [readLine?, h.holdsRule_eq, h.ofLine_eq]

/-- Lists of lines that read alike in turn have the same results. -/
theorem results_congr (h : List.Forall₂ ReadsLike lines lines') (file : String) (start : Nat) :
    results file (lines.map .ok) start = results file (lines'.map .ok) start := by
  induction h generalizing start with
  | nil => rfl
  | cons hline _ ih =>
    rw [List.map_cons, List.map_cons, results_cons, results_cons, hline.readLine?_eq, ih]

/-- Files whose lines read alike in turn are read with the same result. -/
theorem read_congr (h : List.Forall₂ ReadsLike lines lines') (file : String) :
    read file (lines.map .ok) = read file (lines'.map .ok) := by
  unfold read
  rw [readLines_eq_results, readLines_eq_results, results_congr h]

/-! ## Skipped lines -/

/-- The number of a line once there is one more in front of a place. -/
def raise (place number : Nat) : Nat := if place ≤ number then number + 1 else number

/-- A line without rule text shifts the numbers of the errors behind it and changes nothing else. -/
theorem read_insert (hline : holdsRule line = false) :
    read file ((front ++ line :: back).map .ok) =
      (read file ((front ++ back).map .ok)).mapError
        (List.map (ReadError.renumber (raise (front.length + 1)))) := by
  apply read_renumber
  have hskip : readLine? file (.ok line) (1 + front.length) = none := by simp [readLine?, hline]
  have hfront : results file (front.map .ok) 1 = _ :=
    results_add (raise (front.length + 1)) 1 0 fun number _ hlt => by
      rw [List.length_map] at hlt
      exact if_neg (by omega)
  have hback : results file (back.map .ok) (1 + front.length + 1) = _ :=
    results_add (raise (front.length + 1)) (1 + front.length) 1 fun number hle _ =>
      if_pos (by omega)
  simp only [List.map_append, List.map_cons, results_append, results_cons, List.length_map, hskip]
  rw [Option.toList_none, List.nil_append, ← hfront, ← hback]

/-! ## A line cut in two -/

variable {lhs : Symbol} {xs ys : List Alternative} {contents more : List RuleLine} {g : Grammar}

/-- The alternatives on the lines in front of the first head line. -/
def leading (contents : List RuleLine) : List Alternative :=
  (gather (contents.map (NumberedLine.mk 0))).1

/-- A continuation in front comes before the rest of them. -/
theorem leading_continuation :
    leading (.continuation ys :: contents) = ys ++ leading contents := rfl

theorem leading_head : leading (.head lhs xs :: contents) = [] := rfl

theorem calls_continuation : calls (.continuation ys :: contents) = calls contents := rfl

/-- A head line starts a rule, which takes in the continuations behind it. -/
theorem calls_head :
    calls (.head lhs xs :: contents) = (lhs, xs ++ leading contents) :: calls contents := rfl

/-- What stands behind a head line does not lead. -/
theorem leading_append_head (contents more : List RuleLine) :
    leading (contents ++ .head lhs xs :: more) = leading contents := by
  induction contents with
  | nil => rfl
  | cons content rest ih =>
    cases content with
    | head lhs' alts => rfl
    | continuation alts => rw [List.cons_append, leading_continuation, leading_continuation, ih]

/-- A head line starts a rule of its own, whatever comes before it. -/
theorem calls_append_head (contents more : List RuleLine) :
    calls (contents ++ .head lhs xs :: more) = calls contents ++ calls (.head lhs xs :: more) := by
  induction contents with
  | nil => rfl
  | cons content rest ih =>
    cases content with
    | continuation alts => exact ih
    | head lhs' alts =>
      rw [List.cons_append, calls_head, calls_head, ih, leading_append_head, List.cons_append]

/-- What calls lead to depends on whether they are accepted and on what the builder then holds. -/
theorem exists_addRules_build_iff {rules : List (Symbol × List Alternative)} :
    (∃ b, (∅ : Builder).addRules rules = .ok b ∧ b.build = .ok g) ↔
      Builder.Accepts rules ∧ (Builder.afterOffers rules).build = .ok g := by
  constructor
  · rintro ⟨b, hadded, hbuild⟩
    have haccepts : Builder.Accepts rules := ⟨b, hadded⟩
    obtain rfl := Except.ok.inj (haccepts.addRules_eq.symm.trans hadded)
    exact ⟨haccepts, hbuild⟩
  · rintro ⟨haccepts, hbuild⟩
    exact ⟨_, haccepts.addRules_eq, hbuild⟩

/-- Rules that are cut in two make the same grammar, if they make one. -/
theorem exists_addRules_build_iff_of_cutsInto {rules rules' : List (Symbol × List Alternative)}
    (h : Builder.CutsInto rules rules') :
    (∃ b, (∅ : Builder).addRules rules' = .ok b ∧ b.build = .ok g) ↔
      ∃ b, (∅ : Builder).addRules rules = .ok b ∧ b.build = .ok g := by
  rw [exists_addRules_build_iff, exists_addRules_build_iff, ← h.accepts_iff]
  refine and_congr_right fun haccepts => ?_
  rw [Builder.afterOffers_congr haccepts (h.accepts_iff.mp haccepts) h.flatMap_filter_eq]

/-- A file around lines that say something is read if the lines before and behind them say something
as well and all of it makes up rules that make a grammar. -/
theorem read_eq_ok_iff_of_said {middle : List String} {alts : List Alternative}
    (h : said middle = (.head lhs alts :: more).map .ok) :
    read file ((front ++ (middle ++ back)).map .ok) = .ok g ↔
      ∃ before behind : List RuleLine, said front = before.map .ok ∧ said back = behind.map .ok ∧
        (∀ content ∈ before.head?, content.isContinuation = false) ∧
        ∃ b, (∅ : Builder).addRules (calls before ++ calls (.head lhs alts :: (more ++ behind))) =
          .ok b ∧ b.build = .ok g := by
  simp only [read_eq_ok_iff_said, said_append, h]
  constructor
  · rintro ⟨contents, hsaid, hstart, hbuild⟩
    obtain ⟨before, rest, rfl, hbefore, hrest⟩ := List.map_eq_append_iff.mp hsaid.symm
    obtain ⟨middle', behind, rfl, hmiddle, hbehind⟩ := List.map_eq_append_iff.mp hrest
    have hinjective : Function.Injective (Except.ok : RuleLine → Except LineError RuleLine) :=
      fun _ _ => Except.ok.inj
    obtain rfl := List.map_injective_iff.mpr hinjective hmiddle
    rw [List.cons_append, calls_append_head] at hbuild
    refine ⟨before, behind, hbefore.symm, hbehind.symm, fun content hcontent => ?_, hbuild⟩
    exact hstart content (by simp [Option.mem_def.mp hcontent])
  · rintro ⟨before, behind, hbefore, hbehind, hstart, hbuild⟩
    refine ⟨before ++ .head lhs alts :: (more ++ behind), ?_, ?_,
      calls_append_head before _ ▸ hbuild⟩
    · simp [hbefore, hbehind]
    · -- if nothing is in front, the head line starts the file
      cases before with
      | nil => exact fun _ hhead => Option.some.inj hhead ▸ rfl
      | cons => exact hstart

/-- A head line cut in two at a bar says the same together with what carries it on. -/
theorem read_cut {first second : String} (hline : Says line (.head lhs (xs ++ ys)))
    (hfirst : Says first (.head lhs xs))
    (hsecond : Says second (.continuation ys) ∨ Says second (.head lhs ys)) :
    read file ((front ++ ([first, second] ++ back)).map .ok) = .ok g ↔
      read file ((front ++ ([line] ++ back)).map .ok) = .ok g := by
  have hwhole : said [line] = ([.head lhs (xs ++ ys)] : List RuleLine).map .ok :=
    said_eq_map_ok (.cons hline .nil)
  rw [read_eq_ok_iff_of_said hwhole]
  rcases hsecond with hsecond | hsecond
  · -- as a continuation the second half is gathered into the same rule
    have hpair : said [first, second] =
        ([.head lhs xs, .continuation ys] : List RuleLine).map .ok := by
      rw [hfirst.said_cons, hsecond.said_cons]
      rfl
    rw [read_eq_ok_iff_of_said hpair]
    simp only [calls_head, calls_continuation, leading_continuation, List.nil_append,
      List.singleton_append, List.append_assoc]
  · -- as a head line it is a call of its own, and the builder takes both halves alike
    have hpair : said [first, second] = ([.head lhs xs, .head lhs ys] : List RuleLine).map .ok := by
      simp [said, hfirst.holdsRule, hfirst.ofTokens, hsecond.holdsRule, hsecond.ofTokens]
    rw [read_eq_ok_iff_of_said hpair]
    simp only [calls_head, leading_head, List.nil_append, List.singleton_append, List.append_nil,
      List.append_assoc]
    refine exists_congr fun before => exists_congr fun behind => ?_
    have hcut := Builder.CutsInto.cut (calls before) lhs xs (ys ++ leading behind) (calls behind)
      hfirst.isWellFormed.1 (List.append_ne_nil_of_left_ne_nil hsecond.isWellFormed.1 _)
    rw [exists_addRules_build_iff_of_cutsInto hcut]

end Lookahead.Source
