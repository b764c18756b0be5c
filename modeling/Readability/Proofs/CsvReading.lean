import Readability.Render.Csv

/-!
# Comma-separated values, read back

A reader of comma-separated values goes through a text character by character
(`Reader.step`). A field without quotes goes on up to a comma or a line end and holds no quote
and no carriage return. In a field in quotes a quote stands for its end, and two for one quote.

A field that was written is read as it was (`Reader.run_quote`): at the end of it the reader is
not inside of quotes, so the comma or line end behind it ends the field. A row is read field by
field (`Reader.run_row`), and a table row by row (`read_rows`).

Main statement: `read_render`. What is read back from a report is the header, a row of nine
fields for each record and one for each failure, whatever is written in them.
-/

namespace Readability.Render.Csv

open Readability.Report (Failure Record)

/-- Where in a field a reader is. -/
inductive Place where
  | start
  /-- In a field without quotes around it. -/
  | bare
  /-- Behind an opening quote. -/
  | quoted
  /-- Behind a quote that ends the field, unless another one follows. -/
  | closed
deriving Repr, DecidableEq

/-- What was read: rows, fields of the next row, and characters of the next field. -/
structure Reader where
  rows : List (List String)
  fields : List String
  chars : List Char
  place : Place
deriving Repr, DecidableEq

namespace Reader

/-- The field that was being read is over. -/
def endField (r : Reader) : Reader :=
  ⟨r.rows, r.fields ++ [String.ofList r.chars], [], .start⟩

/-- The row that was being read is over. -/
def endRow (r : Reader) : Reader :=
  ⟨r.rows ++ [r.endField.fields], [], [], .start⟩

/-- The character belongs to the field. -/
def add (r : Reader) (c : Char) (place : Place) : Reader :=
  ⟨r.rows, r.fields, r.chars ++ [c], place⟩

/-- A character outside of quotes that is no quote. -/
def plain (r : Reader) (c : Char) : Option Reader :=
  if c = ',' then some r.endField
  else if c = '\n' then some r.endRow
  else if r.place = .closed ∨ c = '\r' then none
  else some (r.add c .bare)

/-- Reads one character, if it may stand there. -/
def step (r : Reader) (c : Char) : Option Reader :=
  if c = '"' then
    match r.place with
    | .start => some { r with place := .quoted }
    | .bare => none
    | .quoted => some { r with place := .closed }
    | .closed => some (r.add c .quoted)
  else if r.place = .quoted then some (r.add c .quoted)
  else r.plain c

/-- Reads characters one after the other. -/
def run (r : Reader) (chars : List Char) : Option Reader :=
  chars.foldlM step r

/-- The rows that were read; the last one needs no line end. -/
def finish (r : Reader) : Option (List (List String)) :=
  if r.place = .quoted then none
  else if r.place = .start ∧ r.fields = [] then some r.rows
  else some r.endRow.rows

end Reader

/-- The rows of a text. -/
def read (text : String) : Option (List (List String)) :=
  (Reader.run ⟨[], [], [], .start⟩ text.toList).bind Reader.finish

namespace Reader

variable {rows : List (List String)} {fields : List String} {chars : List Char} {place : Place}

theorem run_cons {r next : Reader} {c : Char} (h : r.step c = some next) (rest : List Char) :
    r.run (c :: rest) = next.run rest := by
  rw [run, List.foldlM_cons, h]
  rfl

theorem run_append {r next : Reader} {first : List Char} (h : r.run first = some next)
    (rest : List Char) : r.run (first ++ rest) = next.run rest := by
  rw [run] at h
  rw [run, List.foldlM_append, h]
  rfl

/-! ## A field -/

/-- Outside of quotes a comma ends the field. -/
theorem step_comma (h : place ≠ .quoted) :
    step ⟨rows, fields, chars, place⟩ ',' =
      some ⟨rows, fields ++ [String.ofList chars], [], .start⟩ := by
  rw [step, if_neg (by decide), if_neg h, plain, if_pos rfl, endField]

/-- Outside of quotes a line end ends the row. -/
theorem step_lineEnd (h : place ≠ .quoted) :
    step ⟨rows, fields, chars, place⟩ '\n' =
      some ⟨rows ++ [fields ++ [String.ofList chars]], [], [], .start⟩ := by
  rw [step, if_neg (by decide), if_neg h, plain, if_neg (by decide), if_pos rfl, endRow, endField]

/-- A character that needs no quotes is read without them. -/
theorem step_plain {c : Char} (hc : needsQuotes [c] = false) (h : place = .start ∨ place = .bare) :
    step ⟨rows, fields, chars, place⟩ c = some ⟨rows, fields, chars ++ [c], .bare⟩ := by
  simp only [needsQuotes, List.any_cons, List.any_nil, Bool.or_false, Bool.or_eq_false_iff,
    beq_eq_false_iff_ne] at hc
  obtain ⟨⟨⟨hcomma, hquote⟩, hline⟩, hreturn⟩ := hc
  have hopen : ¬ (place = .closed ∨ c = '\r') := by
    rcases h with rfl | rfl <;> simp [hreturn]
  have hplace : place ≠ .quoted := by
    rcases h with rfl | rfl <;> decide
  rw [step, if_neg hquote, if_neg hplace, plain, if_neg hcomma, if_neg hline, if_neg hopen, add]

theorem needsQuotes_cons {c : Char} {rest : List Char} (h : needsQuotes (c :: rest) = false) :
    needsQuotes [c] = false ∧ needsQuotes rest = false := by
  unfold needsQuotes at h ⊢
  rw [List.any_cons, Bool.or_eq_false_iff] at h
  exact ⟨by rw [List.any_cons, h.1]; rfl, h.2⟩

theorem run_bare (field : List Char) (h : needsQuotes field = false) :
    ∀ chars, run ⟨rows, fields, chars, .bare⟩ field =
      some ⟨rows, fields, chars ++ field, .bare⟩ := by
  induction field with
  | nil =>
    intro chars
    rw [List.append_nil]
    rfl
  | cons c field ih =>
    intro chars
    obtain ⟨hc, hfield⟩ := needsQuotes_cons h
    rw [run_cons (step_plain hc (.inr rfl)), ih hfield, List.append_assoc, List.singleton_append]

/-- Inside of quotes, quotes that are written twice are read as one. -/
theorem run_doubleQuotes (field : List Char) :
    ∀ chars, run ⟨rows, fields, chars, .quoted⟩ (doubleQuotes field) =
      some ⟨rows, fields, chars ++ field, .quoted⟩ := by
  induction field with
  | nil =>
    intro chars
    rw [List.append_nil]
    rfl
  | cons c field ih =>
    intro chars
    rw [doubleQuotes]
    split
    · next hc =>
      obtain rfl := eq_of_beq hc
      -- the first of two quotes closes the field, the second one opens it again
      have hfirst : step ⟨rows, fields, chars, .quoted⟩ '"' =
          some ⟨rows, fields, chars, .closed⟩ := rfl
      have hsecond : step ⟨rows, fields, chars, .closed⟩ '"' =
          some ⟨rows, fields, chars ++ ['"'], .quoted⟩ := rfl
      rw [run_cons hfirst, run_cons hsecond, ih, List.append_assoc, List.singleton_append]
    · next hc =>
      have hstep : step ⟨rows, fields, chars, .quoted⟩ c =
          some ⟨rows, fields, chars ++ [c], .quoted⟩ := by
        rw [step, if_neg (by simpa using hc), if_pos rfl, add]
      rw [run_cons hstep, ih, List.append_assoc, List.singleton_append]

/-- **A field is read as it was written, and the reader is not inside of quotes behind it.** -/
theorem run_quote (rows : List (List String)) (fields : List String) (field : String) :
    ∃ place, place ≠ .quoted ∧ run ⟨rows, fields, [], .start⟩ (quote field).toList =
      some ⟨rows, fields, field.toList, place⟩ := by
  unfold quote
  split
  · refine ⟨.closed, by decide, ?_⟩
    have hfirst : step ⟨rows, fields, [], .start⟩ '"' = some ⟨rows, fields, [], .quoted⟩ := rfl
    rw [String.toList_ofList, List.cons_append, run_cons hfirst, run_append (run_doubleQuotes _ _)]
    rfl
  · next hneeds =>
    rw [Bool.not_eq_true] at hneeds
    cases hfield : field.toList with
    -- nothing is written of a blank field, and the reader stays at its start
    | nil => exact ⟨.start, by decide, rfl⟩
    | cons c rest =>
      rw [hfield] at hneeds
      obtain ⟨hc, hrest⟩ := needsQuotes_cons hneeds
      refine ⟨.bare, by decide, ?_⟩
      rw [run_cons (step_plain hc (.inl rfl)), run_bare rest hrest]
      rfl

/-! ## Rows -/

theorem toList_row_singleton (field : String) :
    (row [field]).toList = (quote field).toList ++ ['\n'] := by
  rw [row, List.map_singleton, String.intercalate_singleton, String.toList_append]
  rfl

theorem toList_row_cons (first second : String) (rest : List String) :
    (row (first :: second :: rest)).toList =
      (quote first).toList ++ ',' :: (row (second :: rest)).toList := by
  rw [row, row, List.map_cons, List.map_cons, String.intercalate_cons_cons]
  simp

/-- **A row is read as it was written.** -/
theorem run_row (rest : List String) :
    ∀ (first : String) (fields : List String),
      run ⟨rows, fields, [], .start⟩ (row (first :: rest)).toList =
        some ⟨rows ++ [fields ++ first :: rest], [], [], .start⟩ := by
  induction rest with
  | nil =>
    intro first fields
    obtain ⟨place, hplace, hrun⟩ := run_quote rows fields first
    rw [toList_row_singleton, run_append hrun, run_cons (step_lineEnd hplace), String.ofList_toList]
    rfl
  | cons second rest ih =>
    intro first fields
    obtain ⟨place, hplace, hrun⟩ := run_quote rows fields first
    rw [toList_row_cons, run_append hrun, run_cons (step_comma hplace), String.ofList_toList, ih,
      List.append_assoc, List.singleton_append]

/-- Rows are read one after the other, each from the start of a row to the next. -/
theorem run_rows (table : List (List String)) (h : ∀ fields ∈ table, fields ≠ []) :
    ∀ rows, run ⟨rows, [], [], .start⟩ (String.join (table.map row)).toList =
      some ⟨rows ++ table, [], [], .start⟩ := by
  induction table with
  | nil =>
    intro rows
    rw [List.append_nil]
    rfl
  | cons fields table ih =>
    intro rows
    obtain ⟨hfields, htable⟩ := List.forall_mem_cons.mp h
    obtain ⟨first, rest, rfl⟩ := List.exists_cons_of_ne_nil hfields
    rw [List.map_cons, String.join_cons, String.toList_append, run_append (run_row rest first []),
      ih htable, List.append_assoc, List.singleton_append, List.nil_append]

end Reader

/-- **A table is read as it was written**, if no row is without fields. -/
theorem read_rows {table : List (List String)} (h : ∀ fields ∈ table, fields ≠ []) :
    read (String.join (table.map row)) = some table := by
  rw [read, Reader.run_rows table h]
  rfl

/-- A quote stands in quotes only, and a quoted field ends where its quotes do. -/
example : read "a,\"b,\"\"c\"\"\"\n" = some [["a", "b,\"c\""]] ∧
    read "a\"b\"\n" = none ∧ read "\"a\"b\n" = none := by
  decide

/-! ## Reports -/

/-- The rows of a report. -/
def table (r : Report) : List (List String) :=
  header :: r.records.map recordFields ++ r.failures.map failureFields

theorem length_of_mem_table {r : Report} {fields : List String} (h : fields ∈ table r) :
    fields.length = 9 := by
  rw [table, List.mem_append, List.mem_cons, List.mem_map, List.mem_map] at h
  rcases h with (rfl | ⟨record, -, rfl⟩) | ⟨failure, -, rfl⟩
  · rfl
  · rfl
  · rfl

theorem scopeField_eq (id : Source.UnitId) : scopeField id = (id.scope.map (·.name)).getD "" := by
  unfold scopeField
  cases id.scope with
  | none => rfl
  | some span => rfl

/-- **What is written of a report is read back.** There is a header, a row for each record and a
row for each failure, each of nine fields; and a field is, character by character, what was
written in it. -/
theorem read_render (r : Report) :
    ∃ rows, read (render r) = some rows ∧
      rows.length = 1 + r.records.length + r.failures.length ∧
      (∀ fields ∈ rows, fields.length = 9) ∧
      rows = ["status", "revision", "path", "scope", "language", "score", "band", "timestamp",
          "error"] ::
        r.records.map (fun record =>
          ["ok", record.unit.revision, record.unit.path,
            (record.unit.scope.map (·.name)).getD "", record.language.name,
            Decimal.fixed 6 record.score, record.band.name, record.timestamp.offsetText, ""]) ++
        r.failures.map (fun failure =>
          [failure.error.kind, failure.unit.revision, failure.unit.path,
            (failure.unit.scope.map (·.name)).getD "", "", "", "", "", failure.error.message]) := by
  refine ⟨table r, ?_, ?_, fun fields => length_of_mem_table, ?_⟩
  · refine read_rows ?_
    intro fields hfields hnil
    have hlength := length_of_mem_table hfields
    rw [hnil] at hlength
    cases hlength
  · rw [table, List.length_append, List.length_cons, List.length_map, List.length_map]
    omega
  · simp only [← scopeField_eq]
    rfl

end Readability.Render.Csv
