import Readability.Proofs.Markup
import Readability.Proofs.Numerals
import Readability.Render.Template

/-!
# The page of a report

The page of a report shows its tags and texts as `layout` lists them: the repository in the
title and above the summary, a row for each record, a line for each failure (`writes_render`).
Numbers and the names of bands and languages have no character of markup in them, and all
other texts of the report are escaped.

So which tags a page has does not depend on any text (`tags_layout`).

Main statement: `tags_render_eq`. The pages of two reports that were both stopped or both not,
whose records lie in the same bands and which have equally many failures have the same tags;
and each page, read back, shows the texts of its report.
-/

namespace Readability.Render.Html

open Readability.Report (Failure Record Summary)
open PagePart (tag text)

/-! ## What a page shows -/

def headParts (r : Report) : List PagePart :=
  [tag "!DOCTYPE html", text "\n", tag "html lang=\"en\"", text "\n", tag "head",
      text "\n    ", tag "meta charset=\"UTF-8\"", text "\n    ",
      tag "meta name=\"viewport\" content=\"width=device-width, initial-scale=1.0\"",
      text "\n    ", tag "title", text "Readability Report - "]
    ++ [text r.repository]
    ++ [tag "/title", text "\n    ", tag "style", text "\n"] ++ [text styleSheet]
    ++ [text "\n    ", tag "/style", text "\n", tag "/head", text "\n"]

def headingParts (r : Report) : List PagePart :=
  [tag "div class=\"header\"", text "\n    ", tag "h1", text "Readability Report",
      tag "/h1", text "\n    ", tag "p class=\"timestamp\""]
    ++ [text r.repository] ++ [text " · "] ++ [text r.range] ++ [text " · "]
    ++ [text (toString r.revisionsWalked)] ++ [text " revisions", tag "/p"]
    ++ (if r.isPartial then
        [text "\n    ", tag "p class=\"partial\"", text "Run cancelled: results are partial",
          tag "/p"]
      else [])
    ++ [text "\n", tag "/div", text "\n"]

def summaryRowParts (title value : String) : List PagePart :=
  [text "    ", tag "tr", tag "th"] ++ [text title] ++ [tag "/th", tag "td"]
    ++ [text value] ++ [tag "/td", tag "/tr", text "\n"]

def summaryParts (s : Summary) : List PagePart :=
  [tag "h2", text "Summary", tag "/h2", text "\n", tag "table", text "\n"]
    ++ summaryRowParts "Scored" (toString s.count)
    ++ summaryRowParts "Failures" (toString s.failures)
    ++ summaryRowParts "Mean" (scoreOrDash s.mean)
    ++ summaryRowParts "Median" (scoreOrDash s.median)
    ++ summaryRowParts "Min / Max" (scoreOrDash s.min ++ " / " ++ scoreOrDash s.max)
    ++ summaryRowParts "Trend per day" (changeOrDash s.trendPerDay)
    ++ [tag "/table", text "\n"]

def recordParts (r : Record) : List PagePart :=
  [text "    ", tag "tr", tag "td", tag "code"] ++ [text (Source.shortId r.unit.revision)]
    ++ [tag "/code", tag "/td", tag "td"] ++ [text (unitText r.unit)]
    ++ [tag "/td", tag "td"] ++ [text r.language.name]
    ++ [tag "/td", tag ("td class=\"band-" ++ r.band.name ++ "\"")] ++ [text (score r.score)]
    ++ [tag "/td", tag "/tr", text "\n"]

def recordsParts (rs : List Record) : List PagePart :=
  if rs.isEmpty then [tag "p", text "No units were scored.", tag "/p", text "\n"]
  else
    [tag "h2", text "Scores", tag "/h2", text "\n", tag "table", text "\n"]
      ++ [text "    ", tag "tr", tag "th", text "Revision", tag "/th", tag "th",
        text "Unit", tag "/th", tag "th", text "Language", tag "/th", tag "th",
        text "Score", tag "/th", tag "/tr", text "\n"]
      ++ rs.flatMap recordParts ++ [tag "/table", text "\n"]

def failureParts (f : Failure) : List PagePart :=
  [text "    ", tag "li", tag "code"] ++ [text f.unit.label] ++ [tag "/code", text " "]
    ++ [text f.error.message] ++ [tag "/li", text "\n"]

def failuresParts (fs : List Failure) : List PagePart :=
  if fs.isEmpty then []
  else
    [tag "h2", text "Warnings ("] ++ [text (toString fs.length)]
      ++ [text ")", tag "/h2", text "\n", tag "ul", text "\n"]
      ++ fs.flatMap failureParts ++ [tag "/ul", text "\n"]

/-- The tags and texts of a report's page, its texts as they are shown. -/
def layout (r : Report) : List PagePart :=
  headParts r ++ [tag "body", text "\n", tag "div class=\"container\"", text "\n"]
    ++ headingParts r ++ [tag "div class=\"content\"", text "\n"] ++ summaryParts r.summary
    ++ recordsParts r.records ++ failuresParts r.failures
    ++ [tag "/div", text "\n", tag "/div", text "\n", tag "/body", text "\n", tag "/html",
      text "\n"]

/-! ## Numbers and names have no markup -/

theorem isPlain_of_isNumeric {text : String} (h : isNumeric text = true) :
    isPlain text = true := by
  rw [isPlain, List.all_eq_true]
  intro c hc
  have hne (markup : Char) (hmarkup : isNumeral markup = false) : c ≠ markup := by
    rintro rfl
    exact notMem_of_isNumeric h hmarkup hc
  unfold isPlainChar
  simp only [Bool.and_eq_true, bne_iff_ne]
  exact ⟨⟨hne '&' (by decide), hne '<' (by decide)⟩, hne '>' (by decide)⟩

theorem isPlain_language (language : Source.Language) : isPlain language.name = true := by
  cases language <;> decide

theorem isPlain_join {texts : List String} (h : texts.all isPlain = true) :
    isPlain (String.join texts) = true := by
  induction texts with
  | nil => decide
  | cons text texts ih =>
    rw [List.all_cons, Bool.and_eq_true] at h
    rw [String.join_cons]
    exact isPlain_append h.1 (ih h.2)

theorem isPlain_styleSheet : isPlain styleSheet = true := by
  unfold styleSheet
  refine isPlain_append (isPlain_append (isPlain_append (isPlain_append ?_ ?_) ?_) ?_)
    (isPlain_join ?_)
  · decide +kernel
  · decide +kernel
  · decide +kernel
  · decide +kernel
  · decide +kernel

/-! ## Writing the page -/

theorem writes_escape (text : String) : Writes (escape text) [.text text] :=
  (shows_escape text).writes

theorem writes_plain {text : String} (h : isPlain text = true) : Writes text [.text text] :=
  (shows_plain h).writes

theorem writes_numeric {text : String} (h : isNumeric text = true) : Writes text [.text text] :=
  writes_plain (isPlain_of_isNumeric h)

theorem writes_head (r : Report) : Writes (head r) (headParts r) := by
  unfold head headParts
  refine Writes.append ?_ (writes_escape r.repository) |>.append ?_
    |>.append (writes_plain isPlain_styleSheet) |>.append ?_
  all_goals exact Writes.plain rfl rfl

theorem writes_heading (r : Report) : Writes (heading r) (headingParts r) := by
  unfold heading headingParts
  have hpartial : Writes
      (if r.isPartial then "\n    <p class=\"partial\">Run cancelled: results are partial</p>"
        else "")
      (if r.isPartial then
        [text "\n    ", tag "p class=\"partial\"", text "Run cancelled: results are partial",
          tag "/p"]
      else []) := by
    split
    · exact Writes.plain rfl rfl
    · exact .nil
  refine Writes.append ?_ (writes_escape r.repository) |>.append ?_
    |>.append (writes_escape r.range) |>.append ?_
    |>.append (writes_numeric (isNumeric_toString r.revisionsWalked)) |>.append ?_
    |>.append hpartial |>.append ?_
  all_goals exact Writes.plain rfl rfl

theorem writes_summaryRow {title value : String} (htitle : isPlain title = true)
    (hvalue : isPlain value = true) :
    Writes (summaryRow title value) (summaryRowParts title value) := by
  unfold summaryRow summaryRowParts
  refine Writes.append ?_ (writes_plain htitle) |>.append ?_ |>.append (writes_plain hvalue)
    |>.append ?_
  all_goals exact Writes.plain rfl rfl

theorem writes_summary (s : Summary) : Writes (summary s) (summaryParts s) := by
  unfold summary summaryParts
  have hcount (n : Nat) : isPlain (toString n) = true :=
    isPlain_of_isNumeric (isNumeric_toString n)
  have hscore (x : Option Float) : isPlain (scoreOrDash x) = true :=
    isPlain_of_isNumeric (isNumeric_scoreOrDash x)
  have hrange : isPlain (scoreOrDash s.min ++ " / " ++ scoreOrDash s.max) = true :=
    isPlain_append (isPlain_append (hscore _) (by decide)) (hscore _)
  refine Writes.append ?_ (writes_summaryRow rfl (hcount s.count))
    |>.append (writes_summaryRow rfl (hcount s.failures))
    |>.append (writes_summaryRow rfl (hscore s.mean))
    |>.append (writes_summaryRow rfl (hscore s.median))
    |>.append (writes_summaryRow rfl hrange)
    |>.append (writes_summaryRow rfl (isPlain_of_isNumeric (isNumeric_changeOrDash s.trendPerDay)))
    |>.append ?_
  all_goals exact Writes.plain rfl rfl

/-- The name of a band is part of a tag. -/
theorem writes_band (band : Model.Band) :
    Writes ("</td><td class=\"band-" ++ band.name ++ "\">")
      [tag "/td", tag ("td class=\"band-" ++ band.name ++ "\"")] := by
  cases band
  all_goals exact Writes.plain rfl rfl

theorem writes_record (r : Record) : Writes (recordRow r) (recordParts r) := by
  unfold recordRow recordParts
  -- the tag is written in three texts, and is a tag only with all of them
  have hband (front : String) : front ++ "</td><td class=\"band-" ++ r.band.name ++ "\">" =
      front ++ ("</td><td class=\"band-" ++ r.band.name ++ "\">") := by
    rw [String.append_assoc, String.append_assoc, String.append_assoc]
  rw [hband]
  refine Writes.append ?_ (writes_escape (Source.shortId r.unit.revision)) |>.append ?_
    |>.append (writes_escape (unitText r.unit)) |>.append ?_
    |>.append (writes_plain (isPlain_language r.language)) |>.append (writes_band r.band)
    |>.append (writes_numeric (isNumeric_fixed 3 r.score)) |>.append ?_
  all_goals exact Writes.plain rfl rfl

theorem writes_records (rs : List Record) : Writes (records rs) (recordsParts rs) := by
  unfold records recordsParts
  split
  · exact Writes.plain rfl rfl
  · refine Writes.append ?_ ?_ |>.append (Writes.join fun r _ => writes_record r) |>.append ?_
    all_goals exact Writes.plain rfl rfl

theorem writes_failure (f : Failure) :
    Writes ("    <li><code>" ++ escape f.unit.label ++ "</code> " ++ escape f.error.message
      ++ "</li>\n") (failureParts f) := by
  unfold failureParts
  refine Writes.append ?_ (writes_escape f.unit.label) |>.append ?_
    |>.append (writes_escape f.error.message) |>.append ?_
  all_goals exact Writes.plain rfl rfl

theorem writes_failures (fs : List Failure) : Writes (failures fs) (failuresParts fs) := by
  unfold failures failuresParts
  split
  · exact .nil
  · refine Writes.append ?_ (writes_numeric (isNumeric_toString fs.length)) |>.append ?_
      |>.append (Writes.join fun f _ => writes_failure f) |>.append ?_
    all_goals exact Writes.plain rfl rfl

/-- **The page of a report shows what its layout lists.** -/
theorem writes_render (r : Report) : Writes (render r) (layout r) := by
  unfold render layout
  refine Writes.append (writes_head r) ?_ |>.append (writes_heading r) |>.append ?_
    |>.append (writes_summary r.summary) |>.append (writes_records r.records)
    |>.append (writes_failures r.failures) |>.append ?_
  all_goals exact Writes.plain rfl rfl

/-! ## Tags do not depend on texts -/

/-- The tags among some parts. -/
def tags (parts : List PagePart) : List String :=
  parts.filterMap fun part =>
    match part with
    | .tag name => some name
    | .text _ => none

theorem tags_append (before after : List PagePart) :
    tags (before ++ after) = tags before ++ tags after :=
  List.filterMap_append

theorem map_tag_collect (parts : List PagePart) : (collect parts).map Element.tag = tags parts := by
  induction parts with
  | nil => rfl
  | cons part parts ih =>
    cases part with
    | tag name =>
      show name :: (collect parts).map Element.tag = name :: tags parts
      rw [ih]
    | text shown => exact ih

/-- The tags of a record's row. -/
def recordTags (band : Model.Band) : List String :=
  ["tr", "td", "code", "/code", "/td", "td", "/td", "td", "/td",
    "td class=\"band-" ++ band.name ++ "\"", "/td", "/tr"]

theorem tags_records (rs : List Record) :
    tags (rs.flatMap recordParts) = (rs.map (·.band)).flatMap recordTags := by
  induction rs with
  | nil => rfl
  | cons r rs ih =>
    rw [List.flatMap_cons, tags_append, ih, List.map_cons, List.flatMap_cons]
    rfl

theorem tags_failures (fs : List Failure) :
    tags (fs.flatMap failureParts) =
      (List.replicate fs.length ["li", "code", "/code", "/li"]).flatten := by
  induction fs with
  | nil => rfl
  | cons f fs ih =>
    rw [List.flatMap_cons, tags_append, ih, List.length_cons, List.replicate_succ,
      List.flatten_cons]
    rfl

variable {r r' : Report}

theorem tags_headingParts (h : r.isPartial = r'.isPartial) :
    tags (headingParts r) = tags (headingParts r') := by
  unfold headingParts
  rw [h]
  cases r'.isPartial <;> rfl

theorem tags_recordsParts (h : r.records.map (·.band) = r'.records.map (·.band)) :
    tags (recordsParts r.records) = tags (recordsParts r'.records) := by
  have hempty : r.records.isEmpty = r'.records.isEmpty := by
    rw [← List.isEmpty_map, h, List.isEmpty_map]
  unfold recordsParts
  rw [hempty]
  split
  · rfl
  · simp only [tags_append, tags_records, h]

theorem tags_failuresParts (h : r.failures.length = r'.failures.length) :
    tags (failuresParts r.failures) = tags (failuresParts r'.failures) := by
  have hempty : r.failures.isEmpty = r'.failures.isEmpty := by
    rw [Bool.eq_iff_iff, List.isEmpty_iff_length_eq_zero, List.isEmpty_iff_length_eq_zero, h]
  unfold failuresParts
  rw [hempty, h]
  split
  · rfl
  · simp only [tags_append, tags_failures, h]

/-- **The tags of a page are known without the texts of its report.** -/
theorem tags_layout (hpartial : r.isPartial = r'.isPartial)
    (hbands : r.records.map (·.band) = r'.records.map (·.band))
    (hfailures : r.failures.length = r'.failures.length) :
    tags (layout r) = tags (layout r') := by
  have hhead : tags (headParts r) = tags (headParts r') := rfl
  have hsummary : tags (summaryParts r.summary) = tags (summaryParts r'.summary) := rfl
  unfold layout
  simp only [tags_append, hhead, tags_headingParts hpartial, hsummary, tags_recordsParts hbands,
    tags_failuresParts hfailures]

/-- A page is read as what its layout lists. -/
theorem exists_read_render (r : Report) :
    ∃ page, read (render r) = some page ∧ page.map Element.unescaped = collect (layout r) :=
  (writes_render r).read_eq

theorem map_tag_unescaped (page : List Element) :
    (page.map Element.unescaped).map Element.tag = page.map Element.tag := by
  rw [List.map_map]
  rfl

/-- **No text of a report is markup of its page.** The pages of two reports have the same
tags, if both were stopped or both were not, their records lie in the same bands and they have
equally many failures, whatever their texts are. And in each page the texts between the tags are
those of its report, once their references are replaced. -/
theorem tags_render_eq (hpartial : r.isPartial = r'.isPartial)
    (hbands : r.records.map (·.band) = r'.records.map (·.band))
    (hfailures : r.failures.length = r'.failures.length) :
    ∃ page page', read (render r) = some page ∧ read (render r') = some page' ∧
      page.map Element.tag = page'.map Element.tag ∧
      page.map Element.unescaped = collect (layout r) ∧
      page'.map Element.unescaped = collect (layout r') := by
  obtain ⟨page, hpage, hshown⟩ := exists_read_render r
  obtain ⟨page', hpage', hshown'⟩ := exists_read_render r'
  refine ⟨page, page', hpage, hpage', ?_, hshown, hshown'⟩
  rw [← map_tag_unescaped page, hshown, map_tag_collect, ← map_tag_unescaped page', hshown',
    map_tag_collect]
  exact tags_layout hpartial hbands hfailures

/-- A report whose texts are full of markup. -/
def markedReport : Report :=
  { fullReport with
    repository := "<script>"
    range := "a'..\"b\""
    records := fullReport.records.map fun record =>
      { record with unit := ⟨"a&b.py", "</code>", some ⟨"<i>", "", 1, 1⟩⟩ }
    failures := [⟨.file "&lt;" "<!--", .parse "x > y"⟩] }

theorem tags_render_markedReport :
    ∃ page page', read (render fullReport) = some page ∧
      read (render markedReport) = some page' ∧
      page.map Element.tag = page'.map Element.tag ∧
      page.map Element.unescaped = collect (layout fullReport) ∧
      page'.map Element.unescaped = collect (layout markedReport) :=
  tags_render_eq rfl rfl rfl

end Readability.Render.Html
