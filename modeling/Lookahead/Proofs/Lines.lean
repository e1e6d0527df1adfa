import Lookahead.Text.Line
import Mathlib.Data.List.Infix

/-!
# Cutting a text into lines

Where a line has ended, what comes behind is cut by itself (`Text.lines_append`). A line in front of
a line feed is cut off as it is, but for a carriage return that belongs to its end
(`Text.lines_append_feed`). Lines joined by line feeds are cut apart again
(`Text.lines_intercalate`).

A text can also be cut in another alphabet, in which it is written character by character. If line
ends are written as line ends and nothing else is, cutting and writing commute
(`Text.WritesLineEnds.cutLines_flatMap`), and what is cut into written lines was written as a whole
(`Text.WritesLineEnds.exists_flatMap_of_cutLines`).
-/

namespace Lookahead.Text

/-! ## Texts over any alphabet -/

section Cut

variable {α : Type} [DecidableEq α] {feed carriage : α} {text line : List α}

/-- A text that is not empty has a line. -/
theorem cutLines_ne_nil (h : text ≠ []) : cutLines feed carriage text ≠ [] := by
  induction text with
  | nil => exact absurd rfl h
  | cons c rest ih =>
    rw [cutLines]
    split
    · exact List.cons_ne_nil _ _
    · split
      · rename_i hcarriage
        exact ih (List.ne_nil_of_mem (List.mem_of_mem_head? hcarriage.2))
      · split <;> exact List.cons_ne_nil _ _

/-- Behind a line feed a text is cut by itself. -/
theorem cutLines_append_feed (front back : List α) :
    cutLines feed carriage (front ++ feed :: back) =
      cutLines feed carriage (front ++ [feed]) ++ cutLines feed carriage back := by
  induction front with
  | nil => simp [cutLines]
  | cons c front ih =>
    have hhead : (front ++ feed :: back).head? = (front ++ [feed]).head? := by cases front <;> rfl
    have hne : cutLines feed carriage (front ++ [feed]) ≠ [] := cutLines_ne_nil (by simp)
    rw [List.cons_append, List.cons_append, cutLines, cutLines, hhead, ih]
    split
    · rfl
    · split
      · rfl
      · obtain ⟨first, more, hcut⟩ := List.exists_cons_of_ne_nil hne
        rw [hcut]
        rfl

/-- A text without a line feed is one line. -/
theorem cutLines_of_not_mem (hne : line ≠ []) (hfeed : feed ∉ line) :
    cutLines feed carriage line = [line] := by
  induction line with
  | nil => exact absurd rfl hne
  | cons c line ih =>
    obtain ⟨hc, hline⟩ := List.ne_and_not_mem_of_not_mem_cons hfeed
    have hhead : line.head? ≠ some feed := fun h => hline (List.mem_of_mem_head? h)
    rw [cutLines, if_neg hc.symm, if_neg fun h => hhead h.2]
    cases line with
    | nil => rfl
    | cons d line => rw [ih (List.cons_ne_nil _ _) hline]

/-- A line feed cuts off the line in front of it, with a carriage return that stands between. -/
theorem cutLines_line (carriage : α) (hfeed : feed ∉ line) :
    ∃ cut, cutLines feed carriage (line ++ [feed]) = [cut] ∧
      (cut = line ∨ cut ++ [carriage] = line) := by
  induction line with
  | nil => exact ⟨[], by simp [cutLines], .inl rfl⟩
  | cons c line ih =>
    obtain ⟨hc, hline⟩ := List.ne_and_not_mem_of_not_mem_cons hfeed
    obtain ⟨cut, hcut, halike⟩ := ih hline
    rw [List.cons_append, cutLines, if_neg hc.symm, hcut]
    split
    · -- the return can only stand before the line feed if the line ends there
      rename_i hcarriage
      cases line with
      | nil =>
        obtain rfl : [] = cut := by simpa [cutLines] using hcut
        exact ⟨[], rfl, .inr (congrArg ([·]) hcarriage.1.symm)⟩
      | cons d line =>
        obtain rfl : d = feed := by simpa using hcarriage.2
        exact absurd List.mem_cons_self hline
    · exact ⟨c :: cut, rfl, halike.imp (congrArg (c :: ·)) (congrArg (c :: ·))⟩

/-- Lines that hold no line end are found again behind one another. -/
theorem cutLines_intercalate {lines : List (List α)}
    (h : ∀ line ∈ lines, line ≠ [] ∧ feed ∉ line ∧ carriage ∉ line) :
    cutLines feed carriage ([feed].intercalate lines) = lines := by
  induction lines with
  | nil => rfl
  | cons line rest ih =>
    obtain ⟨⟨hne, hfeed, hcarriage⟩, hrest⟩ := List.forall_mem_cons.mp h
    cases rest with
    | nil => rw [List.intercalate_singleton, cutLines_of_not_mem hne hfeed]
    | cons next rest =>
      obtain ⟨cut, hcut, rfl | hcarries⟩ := cutLines_line carriage hfeed
      · rw [List.intercalate_cons_cons, List.append_assoc, List.singleton_append,
          cutLines_append_feed, hcut, ih hrest]
        rfl
      · -- only a line that ends in a carriage return would lose it
        exact absurd (hcarries ▸ List.mem_append_right cut List.mem_cons_self) hcarriage

/-- A block without line ends goes to the front of the first line. -/
theorem cutLines_append_of_not_mem {block : List α} (hne : block ≠ []) (hfeed : feed ∉ block)
    (hcarriage : carriage ∉ block) (rest : List α) :
    cutLines feed carriage (block ++ rest) =
      (block ++ (cutLines feed carriage rest).headD []) :: (cutLines feed carriage rest).tail := by
  induction block with
  | nil => exact absurd rfl hne
  | cons c block ih =>
    obtain ⟨hc, hblock⟩ := List.ne_and_not_mem_of_not_mem_cons hfeed
    obtain ⟨hc', hblock'⟩ := List.ne_and_not_mem_of_not_mem_cons hcarriage
    rw [List.cons_append, cutLines, if_neg hc.symm, if_neg fun h => hc'.symm h.1]
    cases block with
    | nil =>
      rw [List.nil_append]
      cases cutLines feed carriage rest <;> rfl
    | cons d block =>
      rw [ih (List.cons_ne_nil _ _) hblock hblock']
      rfl

end Cut

/-! ## Texts in another alphabet -/

/-- Whether characters are written in another alphabet so that the two that end lines, and no
others, are written as the two that end lines there. -/
structure WritesLineEnds {α β : Type} (feed carriage : α) (feed' carriage' : β)
    (write : α → List β) : Prop where
  write_feed : write feed = [feed']
  write_carriage : write carriage = [carriage']
  write_ne_nil : ∀ c, write c ≠ []
  feed_of_mem : ∀ {c}, feed' ∈ write c → c = feed
  carriage_of_mem : ∀ {c}, carriage' ∈ write c → c = carriage

namespace WritesLineEnds

variable {α β : Type} {feed carriage : α} {feed' carriage' : β} {write : α → List β}

/-- Encoded text begins with a line feed exactly if the text does. -/
theorem head?_flatMap_eq_iff (h : WritesLineEnds feed carriage feed' carriage' write)
    (text : List α) : (text.flatMap write).head? = some feed' ↔ text.head? = some feed := by
  cases text with
  | nil => simp
  | cons c rest =>
    obtain ⟨b, bs, hwrite⟩ := List.exists_cons_of_ne_nil (h.write_ne_nil c)
    rw [List.flatMap_cons, hwrite, List.cons_append, List.head?_cons, List.head?_cons,
      Option.some.injEq, Option.some.injEq]
    constructor
    · rintro rfl
      exact h.feed_of_mem (hwrite ▸ List.mem_cons_self)
    · rintro rfl
      exact (List.cons.inj (hwrite.symm.trans h.write_feed)).1

variable [DecidableEq β]

/-- A text whose lines are all written is written itself: its line ends are. -/
theorem exists_flatMap_of_cutLines (h : WritesLineEnds feed carriage feed' carriage' write)
    (bytes : List β) (hlines : ∀ line ∈ cutLines feed' carriage' bytes,
      ∃ text : List α, line = text.flatMap write) :
    ∃ text : List α, bytes = text.flatMap write := by
  induction hlength : bytes.length using Nat.strong_induction_on generalizing bytes with
  | _ length ih =>
    by_cases hfeed : feed' ∈ bytes
    · -- the first line is written from a text, and what is behind its line feed as well
      obtain ⟨line, rest, rfl, hline⟩ := List.eq_append_cons_of_mem hfeed
      obtain ⟨cut, hcut, hends⟩ := cutLines_line carriage' hline
      rw [cutLines_append_feed, hcut] at hlines
      obtain ⟨hwritten, hrest⟩ := List.forall_mem_append.mp hlines
      obtain ⟨text, htext⟩ := hwritten cut List.mem_cons_self
      obtain ⟨more, rfl⟩ := ih rest.length (by simp at hlength; omega) rest hrest rfl
      have hback : feed' :: more.flatMap write = (feed :: more).flatMap write := by
        rw [List.flatMap_cons, h.write_feed]
        rfl
      -- the line was cut with or without a carriage return at its end
      rcases hends with rfl | rfl
      · exact ⟨text ++ feed :: more, by rw [List.flatMap_append, ← htext, hback]⟩
      · refine ⟨text ++ [carriage] ++ feed :: more, ?_⟩
        rw [List.flatMap_append, List.flatMap_append, ← htext, hback, List.flatMap_singleton,
          h.write_carriage]
    · by_cases hnil : bytes = []
      · exact ⟨[], hnil⟩
      · rw [cutLines_of_not_mem hnil hfeed] at hlines
        exact hlines bytes List.mem_cons_self

variable [DecidableEq α]

/-- The lines of a written text are its lines, written. -/
theorem cutLines_flatMap (h : WritesLineEnds feed carriage feed' carriage' write)
    (text : List α) :
    cutLines feed' carriage' (text.flatMap write) =
      (cutLines feed carriage text).map (·.flatMap write) := by
  induction text with
  | nil => rfl
  | cons c rest ih =>
    rw [List.flatMap_cons, cutLines]
    split
    · rename_i hfeed
      rw [hfeed, h.write_feed, List.singleton_append, cutLines, if_pos rfl, ih]
      rfl
    · rename_i hfeed
      have hnofeed : feed' ∉ write c := fun hmem => hfeed (h.feed_of_mem hmem)
      by_cases hcarriage : c = carriage
      · subst hcarriage
        have hne : carriage' ≠ feed' := fun heq => hnofeed (by simp [h.write_carriage, heq])
        rw [h.write_carriage, List.singleton_append, cutLines, if_neg hne, ih]
        -- a carriage return goes with the line only if a line feed comes next
        by_cases hends : rest.head? = some feed
        · rw [if_pos ⟨rfl, (h.head?_flatMap_eq_iff rest).mpr hends⟩, if_pos ⟨rfl, hends⟩]
        · rw [if_neg fun hcut => hends ((h.head?_flatMap_eq_iff rest).mp hcut.2),
            if_neg fun hcut => hends hcut.2]
          cases cutLines feed c rest <;> simp [h.write_carriage]
      · have hnocarriage : carriage' ∉ write c := fun hmem => hcarriage (h.carriage_of_mem hmem)
        rw [cutLines_append_of_not_mem (h.write_ne_nil c) hnofeed hnocarriage, ih,
          if_neg fun hcut => hcarriage hcut.1]
        cases cutLines feed carriage rest <;> simp

end WritesLineEnds

/-! ## Texts of characters -/

/-- Whether a line starts behind a text: at the start of a file, and where a line has ended. -/
def EndsLine (text : String) : Prop := text = "" ∨ ∃ front, text = front ++ "\n"

/-- Behind the end of a line, new lines begin. -/
theorem lines_append {front : String} (hfront : EndsLine front) (back : String) :
    lines (front ++ back) = lines front ++ lines back := by
  rcases hfront with rfl | ⟨front, rfl⟩
  · simp [lines, cutLines]
  · have hfeed : (front ++ "\n" ++ back).toList = front.toList ++ '\n' :: back.toList := by simp
    have hfront : (front ++ "\n").toList = front.toList ++ ['\n'] := by simp
    rw [lines, lines, lines, hfeed, hfront, cutLines_append_feed, List.map_append]

/-- A text that does not end a line ends with one that has no end. -/
theorem exists_lastLine {text : String} (h : ¬EndsLine text) :
    ∃ front line, text = front ++ line ∧ EndsLine front ∧ line ≠ "" ∧ '\n' ∉ line.toList := by
  by_cases hfeed : '\n' ∈ text.toList
  · -- the last line feed is the first one from behind
    obtain ⟨back, front, hback, hline⟩ := List.eq_append_cons_of_mem (List.mem_reverse.mpr hfeed)
    have htext : text = String.ofList front.reverse ++ "\n" ++ String.ofList back.reverse := by
      apply String.toList_injective
      rw [← List.reverse_reverse text.toList, hback]
      simp
    refine ⟨_, _, htext, .inr ⟨_, rfl⟩, fun hnil => ?_, by simpa using hline⟩
    rw [hnil, String.append_empty] at htext
    exact h (.inr ⟨_, htext⟩)
  · exact ⟨"", text, String.empty_append.symm, .inl rfl, fun hnil => h (.inl hnil), hfeed⟩

/-- A text without a line feed is one line, unless it is empty. -/
theorem lines_of_not_mem {line : String} (hne : line ≠ "") (hfeed : '\n' ∉ line.toList) :
    lines line = [line] := by
  rw [lines, cutLines_of_not_mem (by simpa using hne) hfeed]
  simp

/-- A line with its end is cut off, and a carriage return in front of the line feed is dropped. -/
theorem lines_append_feed {line : String} (hfeed : '\n' ∉ line.toList) :
    ∃ cut, lines (line ++ "\n") = [cut] ∧ (cut = line ∨ cut ++ "\r" = line) := by
  obtain ⟨cut, hcut, halike⟩ := cutLines_line '\r' hfeed
  refine ⟨String.ofList cut, ?_, halike.imp (fun h => ?_) fun h => ?_⟩
  · have htext : (line ++ "\n").toList = line.toList ++ ['\n'] := by simp
    rw [lines, htext, hcut]
    rfl
  · rw [h, String.ofList_toList]
  · apply String.toList_injective
    simpa using h

/-- Lines joined by line feeds are cut apart again. -/
theorem lines_intercalate {texts : List String}
    (h : ∀ text ∈ texts, text ≠ "" ∧ '\n' ∉ text.toList ∧ '\r' ∉ text.toList) :
    lines ("\n".intercalate texts) = texts := by
  have hcut : cutLines '\n' '\r' (['\n'].intercalate (texts.map String.toList)) =
      texts.map String.toList := by
    refine cutLines_intercalate (List.forall_mem_map.mpr fun text htext => ?_)
    simpa using h text htext
  have hseparator : "\n".toList = ['\n'] := rfl
  rw [lines, String.toList_intercalate, hseparator, hcut, List.map_map]
  simp [Function.comp_def]

end Lookahead.Text
