import Mathlib
import Readability.Proofs.Lines
import Readability.Proofs.Numerals
import Readability.Render.Markdown
import Readability.Render.Template

/-!
# Tables in Markdown

A line of a table is cut into cells at its bars, except for those behind a backslash
(`splitBars`). How many cells there are follows from the number of such borders, which can be
counted text by text (`borders_append`): an escaped text has none (`borders_cell`), and neither
has a number. A row whose first cell holds some text and all others hold numbers is a single
line of its width exactly when the text brings no line feed and no border along
(`row_intact_iff`).

Main statement: `tablesIntact_iff`. The paths of files are escaped before they stand in a cell,
the ids of revisions are not, and line feeds are kept in both. So the tables of a report are
intact exactly when no path and no shown id has a line feed, and no shown id has a bar that is
not behind a backslash already.
-/

namespace Readability.Render.Markdown

open Readability.Report (FileTrend RevisionSummary)
open Readability.Text (AllClosed closed dropReturn textLines textLines_append)

/-! ## Bars of a line -/

/-- The texts between the bars of a line, read on behind a character. A bar behind a backslash
is no border. -/
def splitBars (before : Char) : List Char → List (List Char)
  | [] => [[]]
  | c :: cs =>
    if c = '|' ∧ before ≠ '\\' then [] :: splitBars c cs
    else (splitBars c cs).modifyHead (c :: ·)

/-- How many bars are borders. -/
def borders (before : Char) : List Char → Nat
  | [] => 0
  | c :: cs => (if c = '|' ∧ before ≠ '\\' then 1 else 0) + borders c cs

theorem borders_append (before : Char) (front rest : List Char) :
    borders before (front ++ rest) =
      borders before front + borders (front.getLast?.getD before) rest := by
  induction front generalizing before with
  | nil => rw [List.nil_append, borders, Nat.zero_add, List.getLast?_nil, Option.getD_none]
  | cons c front ih =>
    rw [List.cons_append, borders, borders, ih, List.getLast?_cons, Option.getD_some, Nat.add_assoc]

theorem borders_eq_zero_iff {before : Char} {cs : List Char} :
    borders before cs = 0 ↔ ∀ front rest, cs = front ++ '|' :: rest →
      front.getLast?.getD before = '\\' := by
  induction cs generalizing before with
  | nil => exact iff_of_true rfl (by simp)
  | cons c cs ih =>
    rw [borders, Nat.add_eq_zero_iff, ih]
    constructor
    · rintro ⟨hc, hcs⟩ (_ | ⟨d, front⟩) rest h
      · cases h
        simpa using hc
      · cases h
        rw [List.getLast?_cons]
        exact hcs front rest rfl
    · intro h
      constructor
      · split
        · next hc =>
          exact absurd (h [] cs (by rw [hc.1, List.nil_append])) hc.2
        · rfl
      · rintro front rest rfl
        have hlast := h (c :: front) rest rfl
        rw [List.getLast?_cons] at hlast
        exact hlast

theorem borders_eq_zero_of_notMem {before : Char} {cs : List Char} (h : '|' ∉ cs) :
    borders before cs = 0 := by
  rw [borders_eq_zero_iff]
  rintro front rest rfl
  exact absurd (List.mem_append_right front List.mem_cons_self) h

/-- **What was escaped has no borders.** -/
theorem borders_cell (before : Char) (cs : List Char) :
    borders before (cs.flatMap cellChar) = 0 := by
  induction cs generalizing before with
  | nil => rfl
  | cons c cs ih =>
    rw [List.flatMap_cons, borders_append, ih, Nat.add_zero, cellChar]
    split
    · rfl
    · next hc =>
      refine borders_eq_zero_of_notMem fun hmem => ?_
      rw [List.mem_singleton.mp hmem] at hc
      exact hc (beq_self_eq_true _)

/-- A border ends a cell. -/
theorem exists_splitBars_append {before : Char} {front : List Char}
    (h : front.getLast?.getD before ≠ '\\') (rest : List Char) :
    ∃ cells, splitBars before (front ++ '|' :: rest) = cells ++ splitBars '|' rest ∧
      cells.length = borders before front + 1 := by
  -- the character in front of what is left changes with each step
  induction front generalizing before with
  | nil => exact ⟨[[]], by rw [List.nil_append, splitBars, if_pos ⟨rfl, h⟩]; rfl, rfl⟩
  | cons c front ih =>
    rw [List.getLast?_cons] at h
    obtain ⟨cells, hcells, hlength⟩ := ih h
    rw [List.cons_append, splitBars, hcells, borders]
    split
    · exact ⟨[] :: cells, rfl, by rw [List.length_cons, hlength]; omega⟩
    · rcases cells with _ | ⟨first, others⟩
      · cases hlength
      · exact ⟨(c :: first) :: others, rfl, by rw [Nat.zero_add, ← hlength]; rfl⟩

/-! ## Rows -/

/-- The line starts and ends with a bar, and has so many cells in between. -/
def IsRow (width : Nat) (line : List Char) : Prop :=
  ∃ cells, splitBars '\n' line = [] :: (cells ++ [[]]) ∧ cells.length = width

/-- A cell with blanks around it, up to its border. -/
def framed (cell : List Char) : List Char :=
  ' ' :: (cell ++ [' ', '|'])

/-- The line of a row. -/
def rowLine (cells : List (List Char)) : List Char :=
  '|' :: cells.flatMap framed

theorem borders_padded (before : Char) (cell : List Char) :
    borders before (' ' :: (cell ++ [' '])) = borders ' ' cell := by
  rw [borders, if_neg (by simp), Nat.zero_add, borders_append,
    borders_eq_zero_of_notMem (show '|' ∉ [' '] by decide), Nat.add_zero]

theorem exists_splitBars_cells (cells : List (List Char)) :
    ∃ pieces, splitBars '|' (cells.flatMap framed) = pieces ++ [[]] ∧
      pieces.length = (cells.map (borders ' ' · + 1)).sum := by
  induction cells with
  | nil => exact ⟨[], rfl, rfl⟩
  | cons cell cells ih =>
    obtain ⟨pieces, hpieces, hlength⟩ := ih
    have hblank : (' ' :: (cell ++ [' '])).getLast?.getD '|' ≠ '\\' := by
      rw [← List.cons_append, List.getLast?_concat]
      decide
    obtain ⟨first, hfirst, hcount⟩ := exists_splitBars_append hblank (cells.flatMap framed)
    have hcell : (cell :: cells).flatMap framed =
        ' ' :: (cell ++ [' ']) ++ '|' :: cells.flatMap framed := by
      simp [framed]
    refine ⟨first ++ pieces, ?_, ?_⟩
    · rw [hcell, hfirst, hpieces, List.append_assoc]
    · rw [List.length_append, hcount, hlength, borders_padded, List.map_cons, List.sum_cons]

theorem isRow_rowLine_iff {width : Nat} {cells : List (List Char)} :
    IsRow width (rowLine cells) ↔ (cells.map (borders ' ' · + 1)).sum = width := by
  obtain ⟨pieces, hpieces, hlength⟩ := exists_splitBars_cells cells
  have hline : splitBars '\n' (rowLine cells) = [] :: (pieces ++ [[]]) := by
    rw [rowLine, splitBars, if_pos (by decide), hpieces]
  rw [IsRow, hline, ← hlength]
  constructor
  · rintro ⟨cells', hcells, rfl⟩
    rw [List.append_cancel_right (List.tail_eq_of_cons_eq hcells)]
  · exact fun h => ⟨pieces, rfl, h⟩

theorem row_cons (cell next : String) (cells : List String) :
    row (cell :: next :: cells) = "| " ++ cell ++ " " ++ row (next :: cells) := by
  rw [row, row, String.intercalate_cons_cons]
  simp only [← String.toList_inj, String.toList_append]
  simp

theorem toList_row {cells : List String} (h : cells ≠ []) :
    (row cells).toList = rowLine (cells.map String.toList) ++ ['\n'] := by
  induction cells with
  | nil => exact absurd rfl h
  | cons cell cells ih =>
    cases cells with
    | nil =>
      rw [row, String.intercalate_singleton]
      simp [rowLine, framed]
    | cons next cells =>
      rw [row_cons, String.toList_append, ih (List.cons_ne_nil _ _)]
      simp [rowLine, framed]

/-- A row's line ends with a bar. -/
theorem dropReturn_rowLine {cells : List (List Char)} (h : cells ≠ []) :
    dropReturn (rowLine cells) = rowLine cells := by
  obtain ⟨front, last, rfl⟩ := (List.eq_nil_or_concat cells).resolve_left h
  have hline : rowLine (front ++ [last]) =
      '|' :: front.flatMap framed ++ ' ' :: (last ++ [' ']) ++ ['|'] := by
    simp [rowLine, framed]
  rw [List.concat_eq_append, hline]
  exact Text.dropReturn_concat (by decide) _

theorem mem_rowLine_iff {c : Char} (hbar : c ≠ '|') (hblank : c ≠ ' ')
    {cells : List (List Char)} : c ∈ rowLine cells ↔ ∃ cell ∈ cells, c ∈ cell := by
  simp [rowLine, framed, hbar, hblank]

theorem toList_join_row (rows : List (List String)) (h : ∀ cells ∈ rows, cells ≠ []) :
    (String.join (rows.map row)).toList =
      closed (rows.map fun cells => rowLine (cells.map String.toList)) := by
  rw [String.toList_join, closed, List.flatMap_map, List.flatMap_map]
  exact List.flatMap_congr fun cells hcells => toList_row (h cells hcells)

/-! ## Tables -/

/-- What stands above the rows of a table with five columns. -/
structure TableTop where
  title : String
  header : String
  rule : String
  isRow_header : IsRow 5 header.toList
  isRow_rule : IsRow 5 rule.toList

namespace TableTop

def lines (top : TableTop) : List (List Char) :=
  [top.title.toList, [], top.header.toList, top.rule.toList]

end TableTop

/-- The lines show a table: its top, a row for each entry and an empty line. Without entries
nothing is shown. -/
def ShowsTable (top : TableTop) (entries : Nat) (lines : List (List Char)) : Prop :=
  (entries = 0 ∧ lines = []) ∨
    (entries ≠ 0 ∧ ∃ rows, lines = top.lines ++ rows ++ [[]] ∧ rows.length = entries ∧
      ∀ line ∈ top.header.toList :: top.rule.toList :: rows, IsRow 5 line)

/-- Rows that are written below each other are shown as such, as long as each is a single line
of five cells. -/
theorem showsTable_iff (top : TableTop) (rows : List (List (List Char))) (hrows : rows ≠ [])
    (hcells : ∀ cells ∈ rows, cells ≠ []) (htop : textLines (closed top.lines) = top.lines) :
    ShowsTable top rows.length
        (textLines (closed (top.lines ++ rows.map rowLine ++ [[]]))) ↔
      ∀ cells ∈ rows, '\n' ∉ rowLine cells ∧ IsRow 5 (rowLine cells) := by
  have hlines : textLines (closed (top.lines ++ rows.map rowLine ++ [[]])) =
      top.lines ++ ((rows.map rowLine).flatMap (·.splitOn '\n')).map dropReturn ++ [[]] := by
    rw [Text.textLines_closed] at htop
    rw [Text.textLines_closed, List.flatMap_append, List.flatMap_append, List.map_append,
      List.map_append, htop]
    rfl
  have hwhole (h : ∀ line ∈ rows.map rowLine, '\n' ∉ line) :
      ((rows.map rowLine).flatMap (·.splitOn '\n')).map dropReturn = rows.map rowLine := by
    rw [Text.flatMap_splitOn_eq_self h, List.map_map]
    exact List.map_congr_left fun cells hmem => dropReturn_rowLine (hcells cells hmem)
  rw [hlines]
  constructor
  · rintro (⟨hzero, -⟩ | ⟨-, found, hfound, hlength, hwidth⟩)
    · exact absurd (List.length_eq_zero_iff.mp hzero) hrows
    · have hsame := List.append_cancel_left (List.append_cancel_right hfound)
      -- there are only as many lines as rows, so no row is broken
      have hfeeds : ∀ line ∈ rows.map rowLine, '\n' ∉ line := by
        apply Text.forall_notMem_of_length_eq
        rw [List.length_map, ← hlength, ← hsame, List.length_map]
      rw [hwhole hfeeds] at hsame
      intro cells hmem
      have hline := List.mem_map_of_mem (f := rowLine) hmem
      refine ⟨hfeeds _ hline, hwidth _ ?_⟩
      rw [← hsame]
      exact List.mem_cons_of_mem _ (List.mem_cons_of_mem _ hline)
  · intro h
    refine .inr ⟨fun hzero => hrows (List.length_eq_zero_iff.mp hzero), rows.map rowLine, ?_,
      List.length_map _, ?_⟩
    · rw [hwhole]
      exact List.forall_mem_map.mpr fun cells hmem => (h cells hmem).1
    · refine List.forall_mem_cons.mpr ⟨top.isRow_header, List.forall_mem_cons.mpr
        ⟨top.isRow_rule, ?_⟩⟩
      exact List.forall_mem_map.mpr fun cells hmem => (h cells hmem).2

/-! ## Rows with one text -/

/-- Every bar of the text stands right behind a backslash. -/
def BarsEscaped (cs : List Char) : Prop :=
  ∀ front rest, cs = front ++ '|' :: rest → front.getLast? = some '\\'

theorem borders_code (before : Char) (text : String) :
    borders before (code text).toList = borders '`' text.toList := by
  have hcode : (code text).toList = '`' :: (text.toList ++ ['`']) := by
    simp [code]
  rw [hcode, borders, if_neg (by simp), Nat.zero_add, borders_append,
    borders_eq_zero_of_notMem (show '|' ∉ ['`'] by decide), Nat.add_zero]

theorem borders_eq_zero_iff_barsEscaped {before : Char} (h : before ≠ '\\') {cs : List Char} :
    borders before cs = 0 ↔ BarsEscaped cs := by
  have hlast (front : List Char) :
      front.getLast?.getD before = '\\' ↔ front.getLast? = some '\\' := by
    cases front.getLast? with
    | none => exact iff_of_false h nofun
    | some c => exact Option.some_inj.symm
  simp only [borders_eq_zero_iff, hlast, BarsEscaped]

theorem barsEscaped_cell (text : String) : BarsEscaped (cell text).toList := by
  rw [← borders_eq_zero_iff_barsEscaped (show '`' ≠ '\\' by decide), cell, String.toList_ofList]
  exact borders_cell '`' text.toList

theorem mem_cell_iff {c : Char} (hbar : c ≠ '|') (hslash : c ≠ '\\') {text : String} :
    c ∈ (cell text).toList ↔ c ∈ text.toList := by
  have hchar (d : Char) : c ∈ cellChar d ↔ c = d := by
    unfold cellChar
    split
    · next hd =>
      rw [beq_iff_eq] at hd
      simp [hbar, hslash, hd]
    · exact List.mem_singleton
  simp [cell, List.mem_flatMap, hchar]

/-- A row with a text in its first cell and numbers in all others is a row of its width exactly
when the text has no line feed and no border. -/
theorem row_intact_iff (text : String) {numbers : List String}
    (hnumbers : ∀ number ∈ numbers, isNumeric number = true) :
    ('\n' ∉ rowLine ((code text :: numbers).map String.toList) ∧
      IsRow (numbers.length + 1) (rowLine ((code text :: numbers).map String.toList))) ↔
      '\n' ∉ text.toList ∧ BarsEscaped text.toList := by
  have hborders : ((numbers.map String.toList).map (borders ' ' · + 1)).sum = numbers.length := by
    have hone : ∀ number ∈ numbers, ((borders ' ' · + 1) ∘ String.toList) number = 1 := by
      intro number hnumber
      exact congrArg (· + 1) (borders_eq_zero_of_notMem
        (notMem_of_isNumeric (hnumbers number hnumber) (by decide)))
    rw [List.map_map, List.map_congr_left hone, List.map_const', List.sum_replicate_nat,
      Nat.mul_one]
  have hfeed : '\n' ∈ (code text).toList ↔ '\n' ∈ text.toList := by
    simp [code]
  refine and_congr (not_congr ?_) ?_
  · rw [mem_rowLine_iff (by decide) (by decide), List.map_cons, List.exists_mem_cons_iff, hfeed,
      or_iff_left]
    rintro ⟨chars, hchars, hmem⟩
    obtain ⟨number, hnumber, rfl⟩ := List.mem_map.mp hchars
    exact notMem_of_isNumeric (hnumbers number hnumber) (by decide) hmem
  · rw [isRow_rowLine_iff, List.map_cons, List.map_cons, List.sum_cons, hborders, borders_code,
      ← borders_eq_zero_iff_barsEscaped (show '`' ≠ '\\' by decide)]
    omega

/-- A table whose rows have a text and four numbers each is shown as long as no text has a line
feed or a border. -/
theorem showsTable_join_iff {α : Type} {top : TableTop} {source : String} {entries : List α}
    {text : α → String} {numbers : α → List String} (hentries : entries ≠ [])
    (hsource : source.toList = closed top.lines) (htop : textLines (closed top.lines) = top.lines)
    (hlength : ∀ e, (numbers e).length = 4)
    (hnumbers : ∀ e, ∀ number ∈ numbers e, isNumeric number = true) :
    ShowsTable top entries.length
        (textLines (source ++ String.join (entries.map fun e => row (code (text e) :: numbers e)) ++
          "\n").toList) ↔
      ∀ e ∈ entries, '\n' ∉ (text e).toList ∧ BarsEscaped (text e).toList := by
  let cells (e : α) : List (List Char) := (code (text e) :: numbers e).map String.toList
  have hjoin : (String.join (entries.map fun e => row (code (text e) :: numbers e))).toList =
      closed ((entries.map cells).map rowLine) := by
    have hrows := toList_join_row (entries.map fun e => code (text e) :: numbers e)
      (List.forall_mem_map.mpr fun e _ => List.cons_ne_nil _ _)
    rw [List.map_map, List.map_map] at hrows
    rw [List.map_map]
    exact hrows
  have hwhole : (source ++ String.join (entries.map fun e => row (code (text e) :: numbers e)) ++
      "\n").toList = closed (top.lines ++ (entries.map cells).map rowLine ++ [[]]) := by
    rw [String.toList_append, String.toList_append, hsource, hjoin]
    simp only [closed, List.flatMap_append]
    rfl
  have hshows := showsTable_iff top (entries.map cells) (by simpa using hentries)
    (List.forall_mem_map.mpr fun e _ => List.cons_ne_nil _ _) htop
  rw [List.length_map] at hshows
  rw [hwhole, hshows, List.forall_mem_map]
  refine forall₂_congr fun e _ => ?_
  have hrow := row_intact_iff (text e) (hnumbers e)
  rw [hlength e] at hrow
  exact hrow

/-! ## Both tables of a report -/

def revisionTop : TableTop where
  title := "## Revisions"
  header := "| Revision | Date | Units | Mean | Delta |"
  rule := "|----------|------|-------|------|-------|"
  isRow_header := ⟨[" Revision ".toList, " Date ".toList, " Units ".toList, " Mean ".toList,
    " Delta ".toList], by decide, rfl⟩
  isRow_rule := ⟨["----------".toList, "------".toList, "-------".toList, "------".toList,
    "-------".toList], by decide, rfl⟩

def fileTop : TableTop where
  title := "## Files"
  header := "| Unit | Samples | First | Last | Delta |"
  rule := "|------|---------|-------|------|-------|"
  isRow_header := ⟨[" Unit ".toList, " Samples ".toList, " First ".toList, " Last ".toList,
    " Delta ".toList], by decide, rfl⟩
  isRow_rule := ⟨["------".toList, "---------".toList, "-------".toList, "------".toList,
    "-------".toList], by decide, rfl⟩

/-- The table of revisions shows an entry for each revision, and the table of files one for each
file. -/
structure TablesIntact (r : Report) : Prop where
  revisions : ShowsTable revisionTop r.revisions.length (textLines (revisions r.revisions).toList)
  files : ShowsTable fileTop r.files.length (textLines (files r.files).toList)

theorem showsTable_revisions_iff (rs : List RevisionSummary) :
    ShowsTable revisionTop rs.length (textLines (revisions rs).toList) ↔
      ∀ r ∈ rs, '\n' ∉ (Source.shortId r.revision).toList ∧
        BarsEscaped (Source.shortId r.revision).toList := by
  -- the texts of the table are its own, so it is first written as a case of the general one
  cases rs with
  | nil => exact iff_of_true (.inl ⟨rfl, rfl⟩) nofun
  | cons r rs =>
    have hshown : revisions (r :: rs) =
        "## Revisions\n\n| Revision | Date | Units | Mean | Delta |\n" ++
          "|----------|------|-------|------|-------|\n" ++
          String.join ((r :: rs).map fun r => row (code (Source.shortId r.revision) ::
            [r.timestamp.dateText, toString r.units, score r.mean, changeOrDash r.delta])) ++
          "\n" := rfl
    rw [hshown]
    apply showsTable_join_iff (List.cons_ne_nil r rs)
    · decide
    · decide
    · exact fun _ => rfl
    · intro r
      simp only [List.forall_mem_cons]
      exact ⟨isNumeric_dateText _, isNumeric_toString _, isNumeric_fixed 3 _,
        isNumeric_changeOrDash _, nofun⟩

/-- Paths are escaped, so only line feeds can break the table of files. -/
theorem showsTable_files_iff (fs : List FileTrend) :
    ShowsTable fileTop fs.length (textLines (files fs).toList) ↔
      ∀ f ∈ fs, '\n' ∉ f.path.toList := by
  cases fs with
  | nil => exact iff_of_true (.inl ⟨rfl, rfl⟩) nofun
  | cons f fs =>
    have hshown : files (f :: fs) =
        "## Files\n\n| Unit | Samples | First | Last | Delta |\n" ++
          "|------|---------|-------|------|-------|\n" ++
          String.join ((f :: fs).map fun f => row (code (cell f.path) ::
            [toString f.samples, score f.firstScore, score f.lastScore, change f.delta])) ++
          "\n" := rfl
    rw [hshown, showsTable_join_iff (List.cons_ne_nil f fs)]
    · refine forall₂_congr fun f _ => ?_
      rw [mem_cell_iff (by decide) (by decide), and_iff_left (barsEscaped_cell f.path)]
    · decide
    · decide
    · exact fun _ => rfl
    · intro f
      simp only [List.forall_mem_cons]
      exact ⟨isNumeric_toString _, isNumeric_fixed 3 _, isNumeric_fixed 3 _,
        isNumeric_signed 3 _, nofun⟩

/-! ## The page -/

theorem allClosed_revisions (rs : List RevisionSummary) : AllClosed (revisions rs).toList := by
  unfold revisions
  split
  · exact .inl rfl
  · exact .inr ⟨_, String.toList_append⟩

theorem allClosed_files (fs : List FileTrend) : AllClosed (files fs).toList := by
  unfold files
  split
  · exact .inl rfl
  · exact .inr ⟨_, String.toList_append⟩

/-- The tables stand on lines of their own. -/
theorem textLines_render (r : Report) :
    textLines (render r).toList =
      textLines (heading r ++ "\n" ++ summary r.summary ++ "\n").toList ++
        textLines (revisions r.revisions).toList ++ textLines (files r.files).toList ++
        textLines (failures r.failures ++ foot r).toList := by
  have htop : AllClosed (heading r ++ "\n" ++ summary r.summary ++ "\n").toList :=
    .inr ⟨_, String.toList_append⟩
  rw [render]
  generalize heading r ++ "\n" ++ summary r.summary ++ "\n" = top at htop ⊢
  rw [String.append_assoc, String.append_assoc, String.append_assoc,
    String.toList_append, textLines_append htop, String.toList_append,
    textLines_append (allClosed_revisions _), String.toList_append,
    textLines_append (allClosed_files _), List.append_assoc, List.append_assoc]

/-- **Which tables stay intact.** Each table has its own lines in the page. Both show an entry in
five cells for each revision and each file exactly when no path and no shown id has a line feed
in it, and every bar of a shown id stands behind a backslash: bars in paths are escaped, those in
ids are not. -/
theorem tablesIntact_iff (r : Report) :
    textLines (render r).toList =
        textLines (heading r ++ "\n" ++ summary r.summary ++ "\n").toList ++
          textLines (revisions r.revisions).toList ++ textLines (files r.files).toList ++
          textLines (failures r.failures ++ foot r).toList ∧
      (TablesIntact r ↔
        (∀ s ∈ r.revisions, '\n' ∉ (Source.shortId s.revision).toList ∧
          BarsEscaped (Source.shortId s.revision).toList) ∧
        ∀ f ∈ r.files, '\n' ∉ f.path.toList) := by
  refine ⟨textLines_render r, ?_⟩
  rw [← showsTable_revisions_iff, ← showsTable_files_iff]
  exact ⟨fun h => ⟨h.revisions, h.files⟩, fun h => ⟨h.1, h.2⟩⟩

/-- A report of a revision with a bar in its id. -/
def barredReport : Report :=
  { fullReport with revisions := [⟨"a|b", .epoch, 1, 0, none⟩] }

theorem not_tablesIntact_barredReport : ¬ TablesIntact barredReport := by
  intro h
  have hbars := ((showsTable_revisions_iff _).mp h.revisions _ List.mem_cons_self).2
  have hlast : ['a'].getLast? = some '\\' := hbars ['a'] ['b'] rfl
  exact absurd hlast (by decide)

end Readability.Render.Markdown
