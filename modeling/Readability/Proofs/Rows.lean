import Mathlib
import Readability.Proofs.Offsets
import Readability.Source.Token

/-!
# Rows of bytes and of characters

A byte stands on the row that counts the line feeds in front of it, so that a line feed
stands on the row it ends. From one byte to the next the row stays, or goes up by one
behind a line feed (`row_succ`), and every row between two bytes has a byte between them
(`exists_row_eq`). Hence the rows of a node's first and last byte bound the rows it has
bytes on (`exists_byte_iff`), and the row of its last byte is where a token of it ends,
also when that byte is a line feed (`lastRow_ofNode`).

A visible character shows on the line of its row (`exists_line_of_front`).
-/

namespace Readability.Text

/-- Line feeds stand one behind the other. -/
theorem pairwise_feedOffsets (start : Nat) (cs : List Char) :
    (feedOffsets start cs).Pairwise (· < ·) := by
  induction cs generalizing start with
  | nil => exact .nil
  | cons c cs ih =>
    have hpos := c.utf8Size_pos
    rw [feedOffsets]
    split
    · refine .cons (fun feed hfeed => ?_) (ih _)
      have hbounds := mem_feedOffsets_bounds hfeed
      omega
    · exact ih _

theorem mem_dropReturn {c : Char} {line : List Char} (hmem : c ∈ line) (hc : c ≠ '\r') :
    c ∈ dropReturn line := by
  unfold dropReturn
  split
  · next rest hreverse =>
    rw [← List.mem_reverse, hreverse] at hmem
    exact List.mem_reverse.mpr ((List.mem_cons.mp hmem).resolve_left hc)
  · exact hmem

/-- A character that is no line feed stands in the piece that the line feeds in front of it lead
to. -/
theorem exists_mem_splitFeeds {c : Char} (hc : c ≠ '\n') (rest front : List Char) (start : Nat) :
    ∃ piece, (splitFeeds (front ++ c :: rest))[(feedOffsets start front).length]? = some piece ∧
      c ∈ piece := by
  induction front generalizing start with
  | nil =>
    rw [List.nil_append, splitFeeds, if_neg (mt beq_iff_eq.mp hc)]
    split
    · exact ⟨_, rfl, List.mem_cons_self⟩
    · exact ⟨_, rfl, List.mem_cons_self⟩
  | cons d front ih =>
    obtain ⟨piece, hpiece, hmem⟩ := ih (start + d.utf8Size)
    rw [List.cons_append, splitFeeds, feedOffsets]
    split
    · exact ⟨piece, hpiece, hmem⟩
    · -- the character in front belongs to the first piece and moves no other
      split
      · next hnil => exact absurd hnil (splitFeeds_ne_nil _)
      · next first pieces hcons =>
        rw [hcons] at hpiece
        generalize (feedOffsets (start + d.utf8Size) front).length = count at hpiece ⊢
        rcases count with _ | count
        · rw [List.getElem?_cons_zero, Option.some.injEq] at hpiece
          exact ⟨_, rfl, List.mem_cons_of_mem _ (hpiece ▸ hmem)⟩
        · exact ⟨piece, hpiece, hmem⟩

end Readability.Text

namespace Readability.Source

namespace SourceText

open Text (byteCount feedOffsets splitLines)

/-! ## Lines of characters -/

/-- The row of an offset counts the line feeds of the text in front. -/
theorem row_byteCount (front rest : List Char) :
    (ofChars (front ++ rest)).row (byteCount front) = (feedOffsets 0 front).length := by
  have hfront : (feedOffsets 0 front).countP (· < byteCount front) =
      (feedOffsets 0 front).length := by
    refine List.countP_eq_length.mpr fun feed hfeed => decide_eq_true ?_
    have hbounds := Text.mem_feedOffsets_bounds hfeed
    omega
  have hrest : (feedOffsets (0 + byteCount front) rest).countP (· < byteCount front) = 0 := by
    refine List.countP_eq_zero.mpr fun feed hfeed => ?_
    have hbounds := Text.mem_feedOffsets_bounds hfeed
    rw [decide_eq_true_iff]
    omega
  rw [row, rowAt, ofChars, Text.feedOffsets_append, List.countP_append, hfront, hrest, Nat.add_zero]

/-- A visible character shows on the line of the row that the text in front leads to. -/
theorem exists_line_of_front (front rest : List Char) {c : Char} (hc : Text.isBlank c = false) :
    ∃ line, (splitLines (front ++ c :: rest))[(ofChars (front ++ c :: rest)).row
      (byteCount front)]? = some line ∧ Text.allBlank line = false := by
  -- what ends a line is no visible character
  have hfeed : c ≠ '\n' := fun heq => absurd (heq ▸ hc) (by decide)
  have hreturn : c ≠ '\r' := fun heq => absurd (heq ▸ hc) (by decide)
  obtain ⟨piece, hpiece, hmem⟩ := Text.exists_mem_splitFeeds hfeed rest front 0
  refine ⟨Text.dropReturn piece, ?_, ?_⟩
  · rw [row_byteCount, splitLines, List.getElem?_map, hpiece, Option.map_some]
  · rw [Text.allBlank, List.all_eq_false]
    exact ⟨c, Text.mem_dropReturn hmem hreturn, by rw [hc]; exact Bool.false_ne_true⟩

/-- **The first character of a node** shows on the line of the node's row, if it is visible. -/
theorem exists_line_of_covered {chars cs : List Char} {n : NodeInfo} {c : Char}
    (hcovered : (ofChars chars).covered n = some (c :: cs)) (hc : Text.isBlank c = false) :
    ∃ line, (splitLines chars)[(ofChars chars).row n.start]? = some line ∧
      Text.allBlank line = false := by
  obtain ⟨⟨front, behind, hchars, hstart⟩, -⟩ := holds_of_covered hcovered
  have hchars : chars = front ++ c :: (cs ++ behind) := by
    have hsame : chars = front ++ c :: cs ++ behind := congrArg SourceText.chars hchars
    rw [hsame, List.append_assoc, List.cons_append]
  rw [hchars, ← hstart]
  exact exists_line_of_front front _ hc

/-! ## Rows of bytes -/

variable (chars : List Char)

/-- From one byte to the next the row goes up by one if the byte is a line feed. -/
theorem row_succ (byte : Nat) : (ofChars chars).row (byte + 1) =
    (ofChars chars).row byte + if byte ∈ (ofChars chars).feeds then 1 else 0 := by
  have hcount : ∀ feeds : List Nat, feeds.countP (· < byte + 1) =
      feeds.countP (· < byte) + feeds.count byte := by
    intro feeds
    induction feeds with
    | nil => rfl
    | cons feed feeds ih =>
      rw [List.countP_cons, List.countP_cons, List.count_cons, ih]
      simp only [decide_eq_true_eq, beq_iff_eq]
      split_ifs <;> omega
  have hnodup : (ofChars chars).feeds.Nodup :=
    (Text.pairwise_feedOffsets 0 chars).imp Nat.ne_of_lt
  rw [row, row, rowAt, rowAt, hcount, hnodup.count]

/-- A byte behind a line feed is the first of its row, and no other but the first of all is. -/
theorem column_succ_eq_zero_iff (byte : Nat) :
    (ofChars chars).column (byte + 1) = 0 ↔ byte ∈ (ofChars chars).feeds := by
  have hsorted : ((ofChars chars).feeds.filter (· < byte + 1)).Pairwise (· < ·) :=
    (Text.pairwise_feedOffsets 0 chars).filter _
  have hmem : ∀ {feed}, feed ∈ (ofChars chars).feeds.filter (· < byte + 1) ↔
      feed ∈ (ofChars chars).feeds ∧ feed < byte + 1 := by
    intro feed
    rw [List.mem_filter, decide_eq_true_iff]
  rw [column, columnAt]
  rcases hlast : ((ofChars chars).feeds.filter (· < byte + 1)).getLast? with _ | feed
  · rw [List.getLast?_eq_none_iff] at hlast
    rw [hlast] at hmem
    refine iff_of_false (Nat.succ_ne_zero byte) fun hin => ?_
    exact absurd (hmem.mpr ⟨hin, Nat.lt_succ_self byte⟩) List.not_mem_nil
  · obtain ⟨before, hbefore⟩ := List.getLast?_eq_some_iff.mp hlast
    rw [hbefore] at hsorted hmem
    have hfeed := hmem.mp (List.mem_append_right before (List.mem_singleton_self feed))
    dsimp only
    constructor
    · intro hzero
      have heq : feed = byte := by omega
      exact heq ▸ hfeed.1
    · intro hin
      -- the last line feed in front is no earlier than any other
      rcases List.mem_append.mp (hmem.mpr ⟨hin, Nat.lt_succ_self byte⟩) with hin | hin
      · have hlt := (List.pairwise_append.mp hsorted).2.2 byte hin feed
          (List.mem_singleton_self feed)
        omega
      · rw [List.mem_singleton.mp hin, Nat.sub_self]

/-- **No row is left out**: a row between those of two bytes is the row of a byte between them. -/
theorem exists_row_eq {first last row : Nat} (hle : first ≤ last)
    (hfirst : (ofChars chars).row first ≤ row) (hlast : row ≤ (ofChars chars).row last) :
    ∃ byte, first ≤ byte ∧ byte ≤ last ∧ (ofChars chars).row byte = row := by
  induction last, hle using Nat.le_induction with
  | base => exact ⟨first, le_rfl, le_rfl, Nat.le_antisymm hfirst hlast⟩
  | succ last hle ih =>
    rcases Nat.lt_or_ge ((ofChars chars).row last) row with hlt | hge
    · refine ⟨last + 1, Nat.le_succ_of_le hle, le_rfl, ?_⟩
      have hstep := row_succ chars last
      split at hstep <;> omega
    · obtain ⟨byte, hbyte, hlater, hrow⟩ := ih hge
      exact ⟨byte, hbyte, Nat.le_succ_of_le hlater, hrow⟩

variable {chars} {n : NodeInfo} (hn : n.start < n.stop)

include hn

/-- **A node has bytes on the rows from its first byte's to its last byte's.** -/
theorem exists_byte_iff (row : Nat) :
    (∃ byte, n.start ≤ byte ∧ byte < n.stop ∧ (ofChars chars).row byte = row) ↔
      (ofChars chars).row n.start ≤ row ∧ row ≤ (ofChars chars).row (n.stop - 1) := by
  constructor
  · rintro ⟨byte, hstart, hstop, rfl⟩
    exact ⟨row_mono _ hstart, row_mono _ (Nat.le_sub_one_of_lt hstop)⟩
  · rintro ⟨hfirst, hlast⟩
    obtain ⟨byte, hstart, hstop, hrow⟩ :=
      exists_row_eq chars (Nat.le_sub_one_of_lt hn) hfirst hlast
    exact ⟨byte, hstart, by omega, hrow⟩

/-- **A token ends on the row of its last byte**, be it a line feed or not. -/
theorem lastRow_ofNode (kind : TokenClass) (depth : Nat) (parentKind : String) :
    (Token.ofNode (ofChars chars) kind depth parentKind n).lastRow =
      (ofChars chars).row (n.stop - 1) := by
  obtain ⟨last, hlast⟩ := Nat.exists_eq_add_of_lt hn
  have hstop : n.stop = n.start + last + 1 := hlast
  have hmono := row_mono (ofChars chars) (Nat.le_add_right n.start last)
  have hstep := row_succ chars (n.start + last)
  have hcolumn := column_succ_eq_zero_iff chars (n.start + last)
  rw [hstop, Nat.add_sub_cancel, Token.lastRow, Token.ofNode]
  dsimp only
  rw [hstop]
  by_cases hfeed : n.start + last ∈ (ofChars chars).feeds
  · rw [if_pos hfeed] at hstep
    rw [hcolumn.mpr hfeed, decide_eq_true (by omega), hstep]
    rfl
  · rw [if_neg hfeed] at hstep
    rw [beq_false_of_ne (mt hcolumn.mp hfeed), Bool.false_and, if_neg Bool.false_ne_true, hstep,
      Nat.add_zero]

end SourceText

end Readability.Source
