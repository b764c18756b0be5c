import Mathlib
import Readability.Proofs.Snippets
import Readability.Source.Tree

/-!
# Offsets in a text

A stretch of a text fixes what a node inside it covers, how many rows lie between two of its
offsets, and the column of an offset that has a line feed of the stretch in front of it.
What stands around the stretch only adds a constant to the rows (`Holds.row`,
`Holds.column`, `Holds.covered`).
-/

namespace Readability.Text

/-! ## Cutting a text in two parts -/

/-- A cut keeps a text of so many bytes. -/
theorem takeBytes_eq_some_iff {count : Nat} {cs front : List Char} :
    takeBytes count cs = some front ↔ ∃ rest, cs = front ++ rest ∧ byteCount front = count := by
  fun_induction takeBytes count cs generalizing front with
  | case1 cs =>
    constructor
    · rintro ⟨⟩
      exact ⟨cs, rfl, rfl⟩
    · rintro ⟨rest, -, hcount⟩
      rw [byteCount_eq_zero_iff.mp hcount]
  | case2 count =>
    refine iff_of_false nofun ?_
    rintro ⟨rest, hnil, hcount⟩
    rw [(List.append_eq_nil_iff.mp hnil.symm).1] at hcount
    cases hcount
  | case3 count c cs hle ih =>
    rw [Option.map_eq_some_iff]
    constructor
    · rintro ⟨front, hfront, rfl⟩
      obtain ⟨rest, rfl, hcount⟩ := ih.mp hfront
      refine ⟨rest, rfl, ?_⟩
      rw [byteCount_cons, hcount, Nat.add_sub_cancel' hle]
    · rintro ⟨rest, hcs, hcount⟩
      cases front with
      | nil => cases hcount
      | cons d front =>
        injection hcs with hc hcs
        subst hc
        rw [byteCount_cons] at hcount
        exact ⟨front, ih.mpr ⟨rest, hcs, Nat.eq_sub_of_add_eq' hcount⟩, rfl⟩
  | case4 count c cs hle =>
    refine iff_of_false nofun ?_
    rintro ⟨rest, hcs, hcount⟩
    cases front with
    | nil => cases hcount
    | cons d front =>
      injection hcs with hc hcs
      subst hc
      rw [byteCount_cons] at hcount
      omega

/-- A cut behind the first part is a cut of the second one. -/
theorem dropBytes_append (front rest : List Char) (count : Nat) :
    dropBytes (byteCount front + count) (front ++ rest) = dropBytes count rest := by
  refine Option.ext fun left => ?_
  rw [dropBytes_eq_some_iff, dropBytes_eq_some_iff]
  constructor
  · rintro ⟨taken, hsame, hcount⟩
    obtain ⟨between, rfl, hrest⟩ := exists_append_of_byteCount_le hsame (by omega)
    rw [byteCount_append] at hcount
    exact ⟨between, hrest, by omega⟩
  · rintro ⟨between, rfl, hcount⟩
    exact ⟨front ++ between, (List.append_assoc _ _ _).symm, by rw [byteCount_append, hcount]⟩

/-- A cut inside the first part leaves the second one as it is. -/
theorem dropBytes_append_of_le {count : Nat} {cs : List Char} (hle : count ≤ byteCount cs)
    (behind : List Char) :
    dropBytes count (cs ++ behind) = (dropBytes count cs).map (· ++ behind) := by
  refine Option.ext fun left => ?_
  rw [dropBytes_eq_some_iff, Option.map_eq_some_iff]
  constructor
  · rintro ⟨taken, hsame, rfl⟩
    obtain ⟨between, rfl, rfl⟩ := exists_append_of_byteCount_le hsame.symm hle
    exact ⟨between, dropBytes_eq_some_iff.mpr ⟨taken, rfl, rfl⟩, rfl⟩
  · rintro ⟨between, hdrop, rfl⟩
    obtain ⟨taken, rfl, hcount⟩ := dropBytes_eq_some_iff.mp hdrop
    exact ⟨taken, List.append_assoc _ _ _, hcount⟩

theorem takeBytes_append_of_le {count : Nat} {cs : List Char} (hle : count ≤ byteCount cs)
    (behind : List Char) : takeBytes count (cs ++ behind) = takeBytes count cs := by
  refine Option.ext fun taken => ?_
  rw [takeBytes_eq_some_iff, takeBytes_eq_some_iff]
  constructor
  · rintro ⟨rest, hsame, rfl⟩
    obtain ⟨between, rfl, -⟩ := exists_append_of_byteCount_le hsame.symm hle
    exact ⟨between, rfl, rfl⟩
  · rintro ⟨rest, rfl, hcount⟩
    exact ⟨rest ++ behind, List.append_assoc _ _ _, hcount⟩

/-! ## Places of line feeds -/

theorem feedOffsets_append (front rest : List Char) (start : Nat) :
    feedOffsets start (front ++ rest) =
      feedOffsets start front ++ feedOffsets (start + byteCount front) rest := by
  induction front generalizing start with
  | nil => rfl
  | cons c front ih =>
    rw [List.cons_append, feedOffsets, feedOffsets, ih, byteCount_cons, Nat.add_assoc]
    split <;> rfl

/-- A text that stands further behind has its line feeds there. -/
theorem feedOffsets_add (front start : Nat) (cs : List Char) :
    feedOffsets (front + start) cs = (feedOffsets start cs).map (front + ·) := by
  induction cs generalizing start with
  | nil => rfl
  | cons c cs ih =>
    rw [feedOffsets, feedOffsets, Nat.add_assoc, ih]
    split <;> rfl

theorem mem_feedOffsets_bounds {feed start : Nat} {cs : List Char}
    (hfeed : feed ∈ feedOffsets start cs) : start ≤ feed ∧ feed < start + byteCount cs := by
  induction cs generalizing start with
  | nil => cases hfeed
  | cons c cs ih =>
    have hpos := c.utf8Size_pos
    have hlater : feed ∈ feedOffsets (start + c.utf8Size) cs →
        start ≤ feed ∧ feed < start + byteCount (c :: cs) := by
      intro hmem
      have hbounds := ih hmem
      rw [byteCount_cons]
      omega
    rw [feedOffsets] at hfeed
    split at hfeed
    · rcases List.mem_cons.mp hfeed with rfl | hmem
      · rw [byteCount_cons]
        omega
      · exact hlater hmem
    · exact hlater hfeed

/-- There is a line more than there are line feeds. -/
theorem length_splitLines (cs : List Char) (start : Nat) :
    (splitLines cs).length = (feedOffsets start cs).length + 1 := by
  rw [splitLines, List.length_map]
  induction cs generalizing start with
  | nil => rfl
  | cons c cs ih =>
    rw [splitFeeds, feedOffsets]
    split
    · rw [List.length_cons, List.length_cons, ih (start + c.utf8Size)]
    · rw [← ih (start + c.utf8Size)]
      split
      · next hnil => exact absurd hnil (splitFeeds_ne_nil cs)
      · next hcons => rw [hcons, List.length_cons, List.length_cons]

end Readability.Text

namespace Readability.Source

namespace NodeInfo

/-- The node covers bytes between two offsets. -/
structure Within (first last : Nat) (n : NodeInfo) : Prop where
  start : first ≤ n.start
  order : n.start ≤ n.stop
  stop : n.stop ≤ last

instance (first last : Nat) (n : NodeInfo) : Decidable (n.Within first last) :=
  decidable_of_iff (first ≤ n.start ∧ n.start ≤ n.stop ∧ n.stop ≤ last)
    ⟨fun ⟨hstart, horder, hstop⟩ => ⟨hstart, horder, hstop⟩,
      fun h => ⟨h.start, h.order, h.stop⟩⟩

/-- The node as it stands when the offset `origin` has moved to `target`. -/
def moved (origin target : Nat) (n : NodeInfo) : NodeInfo :=
  { n with
    start := target + (n.start - origin)
    stop := target + (n.stop - origin) }

theorem Within.moved {origin length : Nat} {n : NodeInfo} (h : n.Within origin (origin + length))
    (target : Nat) : (n.moved origin target).Within target (target + length) := by
  have hstart := h.start
  have horder := h.order
  have hstop := h.stop
  constructor <;> dsimp only [NodeInfo.moved] <;> omega

/-- Only the last move counts. -/
theorem moved_moved (origin middle target : Nat) (n : NodeInfo) :
    (n.moved origin middle).moved middle target = n.moved origin target := by
  simp only [moved, Nat.add_sub_cancel_left]

end NodeInfo

namespace SourceText

open Text (byteCount dropBytes takeBytes feedOffsets)

/-- Every row is the row of a line. -/
theorem row_lt_length_splitLines (text : String) (offset : Nat) :
    (ofString text).row offset < (Text.splitLines (ofString text).chars).length := by
  rw [Text.length_splitLines _ 0]
  exact Nat.lt_succ_of_le List.countP_le_length

theorem row_mono (src : SourceText) {offset later : Nat} (hle : offset ≤ later) :
    src.row offset ≤ src.row later := by
  refine List.countP_mono_left fun feed _ hfeed => ?_
  exact decide_eq_true (Nat.lt_of_lt_of_le (of_decide_eq_true hfeed) hle)

/-- The characters stand in the text behind its first `start` bytes. -/
def Holds (src : SourceText) (start : Nat) (cs : List Char) : Prop :=
  ∃ front behind, src = .ofChars (front ++ cs ++ behind) ∧ byteCount front = start

/-- What a node covers stands where the node starts, and ends where the node ends. -/
theorem holds_of_covered {chars cs : List Char} {n : NodeInfo}
    (h : (ofChars chars).covered n = some cs) :
    (ofChars chars).Holds n.start cs ∧ n.start + byteCount cs = n.stop := by
  rw [covered] at h
  split at h
  · cases h
  · obtain ⟨rest, hdrop, htake⟩ := Option.bind_eq_some_iff.mp h
    obtain ⟨front, hchars, hfront⟩ := Text.dropBytes_eq_some_iff.mp hdrop
    obtain ⟨behind, rfl, hcs⟩ := Text.takeBytes_eq_some_iff.mp htake
    refine ⟨⟨front, behind, ?_, hfront⟩, by omega⟩
    rw [List.append_assoc]
    exact congrArg ofChars hchars

namespace Holds

variable {src : SourceText} {start : Nat} {cs : List Char} (h : src.Holds start cs)

include h

/-- In front of an offset of the stretch are the line feeds before the stretch, and its own. -/
theorem filter_feeds : ∃ before : List Nat, ∀ count ≤ byteCount cs,
    src.feeds.filter (· < start + count) =
      before ++ ((feedOffsets 0 cs).filter (· < count)).map (start + ·) := by
  obtain ⟨front, behind, rfl, rfl⟩ := h
  refine ⟨feedOffsets 0 front, fun count hcount => ?_⟩
  have hfront : (feedOffsets 0 front).filter (· < byteCount front + count) =
      feedOffsets 0 front := by
    refine List.filter_eq_self.mpr fun feed hfeed => decide_eq_true ?_
    have hbounds := Text.mem_feedOffsets_bounds hfeed
    omega
  have hbehind : (feedOffsets (0 + byteCount (front ++ cs)) behind).filter
      (· < byteCount front + count) = [] := by
    refine List.filter_eq_nil_iff.mpr fun feed hfeed hlt => ?_
    have hbounds := Text.mem_feedOffsets_bounds hfeed
    have hlt := of_decide_eq_true hlt
    rw [Text.byteCount_append] at hbounds
    omega
  rw [ofChars, Text.feedOffsets_append, List.filter_append, hbehind, List.append_nil,
    Text.feedOffsets_append, List.filter_append, hfront, Nat.zero_add,
    ← Nat.add_zero (byteCount front), Text.feedOffsets_add, List.filter_map]
  congr 2
  refine List.filter_congr fun feed _ => ?_
  simp only [Function.comp_apply, Nat.add_zero, Nat.add_lt_add_iff_left]

/-- **Rows in the stretch** are counted from the row that it starts on. -/
theorem row {count : Nat} (hcount : count ≤ byteCount cs) :
    src.row (start + count) = src.row start + (ofChars cs).row count := by
  obtain ⟨before, hbefore⟩ := h.filter_feeds
  -- the rows before the stretch are a constant, which the start of the stretch shows
  have hrow : ∀ count ≤ byteCount cs,
      src.row (start + count) = before.length + (ofChars cs).row count := by
    intro count hcount
    rw [SourceText.row, rowAt, List.countP_eq_length_filter, hbefore count hcount,
      List.length_append, List.length_map, ← List.countP_eq_length_filter]
    rfl
  have hstart : (ofChars cs).row 0 = 0 := List.countP_eq_zero.mpr fun feed _ => by simp
  have hzero := hrow 0 (Nat.zero_le _)
  rw [Nat.add_zero, hstart, Nat.add_zero] at hzero
  rw [hrow count hcount, hzero]

/-- **Columns in the stretch** are its own behind its first row. -/
theorem column {count : Nat} (hcount : count ≤ byteCount cs)
    (hrow : src.row start < src.row (start + count)) :
    src.column (start + count) = (ofChars cs).column count := by
  obtain ⟨before, hbefore⟩ := h.filter_feeds
  rw [h.row hcount] at hrow
  have hne : (feedOffsets 0 cs).filter (· < count) ≠ [] := by
    refine List.ne_nil_of_length_pos ?_
    rw [← List.countP_eq_length_filter]
    exact Nat.lt_of_add_lt_add_left hrow
  rw [SourceText.column, columnAt, hbefore count hcount,
    List.getLast?_append_of_ne_nil _ (mt List.map_eq_nil_iff.mp hne), List.getLast?_map,
    SourceText.column, columnAt, ofChars]
  rcases hlast : ((feedOffsets 0 cs).filter (· < count)).getLast? with _ | feed
  · exact absurd (List.getLast?_eq_none_iff.mp hlast) hne
  · show start + count - (start + feed + 1) = count - (feed + 1)
    omega

/-- **Nodes in the stretch** cover what they cover in the stretch alone. -/
theorem covered {n : NodeInfo} (hwithin : n.Within start (start + byteCount cs)) :
    src.covered n = (ofChars cs).covered (n.moved start 0) := by
  obtain ⟨front, behind, rfl, rfl⟩ := h
  obtain ⟨first, hfirst⟩ := Nat.exists_eq_add_of_le hwithin.start
  obtain ⟨length, hlength⟩ := Nat.exists_eq_add_of_le hwithin.order
  have hstop := hwithin.stop
  rw [SourceText.covered, SourceText.covered, NodeInfo.moved]
  dsimp only
  rw [hlength, if_neg (Nat.not_lt.mpr (Nat.le_add_right _ _)), if_neg (by omega),
    Nat.add_sub_cancel_left, hfirst, ofChars, ofChars, List.append_assoc, Text.dropBytes_append,
    Nat.add_sub_cancel_left, Nat.zero_add, Text.dropBytes_append_of_le (by omega),
    Option.bind_map]
  rcases hdrop : dropBytes first cs with _ | rest
  · rfl
  · obtain ⟨taken, rfl, rfl⟩ := Text.dropBytes_eq_some_iff.mp hdrop
    rw [Text.byteCount_append] at hstop
    rw [Option.bind_some, Option.bind_some, Function.comp_apply,
      Text.takeBytes_append_of_le (by omega)]
    congr 1
    omega

end Holds

end SourceText

end Readability.Source
