import Readability.Render.Html

/-!
# Pages, read back

A page is cut where its tags start and end (`read`): each tag has a text behind it, in which
references stand for the characters that would be markup (`unescape`). A text is escaped by
one replacement after the other, of which none touches what another one wrote
(`escapeChars_eq`).

What a page is meant to show is a list of tags and texts. A page is written in parts
(`Writes`), and a text is escaped or has no character of markup in it (`Shows`). However a page
was put together, it is read as the tags and texts that were written
(`Writes.read_eq`): no character of a text starts or ends a tag, and every text is shown as it
is.
-/

namespace Readability.Render.Html

/-! ## Reading a page -/

/-- A text of a page, with its references replaced by the characters they stand for. An
ampersand that starts none of them stands for itself. -/
def unescape : List Char → List Char
  | '&' :: 'a' :: 'm' :: 'p' :: ';' :: rest => '&' :: unescape rest
  | '&' :: 'l' :: 't' :: ';' :: rest => '<' :: unescape rest
  | '&' :: 'g' :: 't' :: ';' :: rest => '>' :: unescape rest
  | '&' :: 'q' :: 'u' :: 'o' :: 't' :: ';' :: rest => '"' :: unescape rest
  | '&' :: '#' :: '3' :: '9' :: ';' :: rest => '\'' :: unescape rest
  | c :: rest => c :: unescape rest
  | [] => []

/-- A tag, as it stands between its angle brackets, and the text behind it. -/
structure Element where
  tag : String
  text : String
deriving Repr, DecidableEq

namespace Element

/-- An element without its opening bracket. -/
def chars (e : Element) : List Char :=
  e.tag.toList ++ '>' :: e.text.toList

/-- An element with its text as it is shown. -/
def unescaped (e : Element) : Element :=
  ⟨e.tag, String.ofList (unescape e.text.toList)⟩

end Element

/-- Reads an element behind its opening bracket. It has one closing bracket. -/
def readElement (chars : List Char) : Option Element :=
  match chars.splitOn '>' with
  | [tag, text] => some ⟨String.ofList tag, String.ofList text⟩
  | _ => none

/-- The elements of a page; nothing may be in front of the first one. -/
def read (page : String) : Option (List Element) :=
  match page.toList.splitOn '<' with
  | [] :: rest => rest.mapM readElement
  | _ => none

/-! ## Texts of a page -/

/-- There is no angle bracket in the text. -/
def Unbracketed (text : String) : Prop :=
  '<' ∉ text.toList ∧ '>' ∉ text.toList

/-- In a page, `source` is shown as the text `shown`. -/
structure Shows (source shown : String) : Prop where
  unbracketed : Unbracketed source
  unescape_append (rest : List Char) :
    unescape (source.toList ++ rest) = shown.toList ++ unescape rest

theorem unescape_cons {c : Char} (h : c ≠ '&') (rest : List Char) :
    unescape (c :: rest) = c :: unescape rest := by
  rw [unescape.eq_def (c :: rest)]
  split
  · next hcs => exact absurd (List.cons.inj hcs).1 h
  · next hcs => exact absurd (List.cons.inj hcs).1 h
  · next hcs => exact absurd (List.cons.inj hcs).1 h
  · next hcs => exact absurd (List.cons.inj hcs).1 h
  · next hcs => exact absurd (List.cons.inj hcs).1 h
  · next hcs =>
    cases hcs
    rfl
  · next hcs => cases hcs

/-- No text vanishes. -/
theorem eq_nil_of_unescape {cs : List Char} (h : unescape cs = []) : cs = [] := by
  unfold unescape at h
  split at h
  · cases h
  · cases h
  · cases h
  · cases h
  · cases h
  · cases h
  · rfl

/-- What is written for a character. -/
def escapeChar (c : Char) : List Char :=
  match c with
  | '&' => ['&', 'a', 'm', 'p', ';']
  | '<' => ['&', 'l', 't', ';']
  | '>' => ['&', 'g', 't', ';']
  | '"' => ['&', 'q', 'u', 'o', 't', ';']
  | '\'' => ['&', '#', '3', '9', ';']
  | c => [c]

theorem escapeChars_append (cs ds : List Char) :
    escapeChars (cs ++ ds) = escapeChars cs ++ escapeChars ds := by
  unfold escapeChars
  generalize references = rest
  induction rest generalizing cs ds with
  | nil => rfl
  | cons reference rest ih =>
    rw [List.foldl_cons, List.foldl_cons, List.foldl_cons, replaceChar, List.flatMap_append, ih]
    rfl

theorem escapeChars_singleton (c : Char) : escapeChars [c] = escapeChar c := by
  unfold escapeChar
  split
  · rfl
  · rfl
  · rfl
  · rfl
  · rfl
  · next hamp hless hgreater hquote hapostrophe =>
    simp only [escapeChars, references, List.foldl_cons, List.foldl_nil, replaceChar,
      List.flatMap_singleton, if_neg hamp, if_neg hless, if_neg hgreater, if_neg hquote,
      if_neg hapostrophe]

/-- **The replacements do not meet**: one after the other, they write what they write for each
character alone. -/
theorem escapeChars_eq (cs : List Char) : escapeChars cs = cs.flatMap escapeChar := by
  induction cs with
  | nil => rfl
  | cons c cs ih =>
    rw [← List.singleton_append, escapeChars_append, escapeChars_singleton, ih,
      List.flatMap_append, List.flatMap_singleton]

/-- The reference for a character is replaced by it. -/
theorem unescape_escapeChar (c : Char) (rest : List Char) :
    unescape (escapeChar c ++ rest) = c :: unescape rest := by
  unfold escapeChar
  split
  · rfl
  · rfl
  · rfl
  · rfl
  · rfl
  · next hamp _ _ _ _ => exact unescape_cons hamp rest

theorem unbracketed_escapeChar (c : Char) : '<' ∉ escapeChar c ∧ '>' ∉ escapeChar c := by
  unfold escapeChar
  split
  · decide
  · decide
  · decide
  · decide
  · decide
  · next _ hless hgreater _ _ =>
    rw [List.mem_singleton, List.mem_singleton]
    exact ⟨fun h => hless h.symm, fun h => hgreater h.symm⟩

/-- **What is escaped is shown as it is**, and has no angle bracket in it. -/
theorem shows_escape (text : String) : Shows (escape text) text := by
  refine ⟨?_, ?_⟩
  · unfold Unbracketed escape
    rw [String.toList_ofList, escapeChars_eq, List.mem_flatMap, List.mem_flatMap]
    constructor
    · intro hmem
      obtain ⟨c, -, hc⟩ := hmem
      exact (unbracketed_escapeChar c).1 hc
    · intro hmem
      obtain ⟨c, -, hc⟩ := hmem
      exact (unbracketed_escapeChar c).2 hc
  · intro rest
    rw [escape, String.toList_ofList, escapeChars_eq]
    induction text.toList with
    | nil => rfl
    | cons c text ih =>
      rw [List.flatMap_cons, List.append_assoc, unescape_escapeChar, ih, List.cons_append]

/-- A character that is no markup, wherever it stands. -/
def isPlainChar (c : Char) : Bool :=
  c != '&' && c != '<' && c != '>'

/-- A text without characters of markup. -/
def isPlain (text : String) : Bool :=
  text.toList.all isPlainChar

theorem isPlain_append {a b : String} (ha : isPlain a = true) (hb : isPlain b = true) :
    isPlain (a ++ b) = true := by
  unfold isPlain at ha hb ⊢
  rw [String.toList_append, List.all_append, ha, hb]
  rfl

/-- A plain text stands for itself. -/
theorem shows_plain {text : String} (h : isPlain text = true) : Shows text text := by
  have hplain : ∀ c ∈ text.toList, (c ≠ '&' ∧ c ≠ '<') ∧ c ≠ '>' := by
    intro c hc
    have hchar := List.all_eq_true.mp h c hc
    unfold isPlainChar at hchar
    simpa using hchar
  refine ⟨⟨fun hmem => (hplain _ hmem).1.2 rfl, fun hmem => (hplain _ hmem).2 rfl⟩, ?_⟩
  intro rest
  generalize text.toList = chars at hplain
  induction chars with
  | nil => rfl
  | cons c chars ih =>
    obtain ⟨hc, hchars⟩ := List.forall_mem_cons.mp hplain
    rw [List.cons_append, unescape_cons hc.1.1, ih hchars, List.cons_append]

/-! ## Writing a page -/

/-- A part of a page: a tag, or a text as it is shown. -/
inductive PagePart where
  | tag (name : String)
  | text (shown : String)
deriving Repr, DecidableEq

/-- The page shows these parts. -/
inductive Writes : String → List PagePart → Prop
  | nil : Writes "" []
  | tag {name page : String} {parts : List PagePart} (hname : Unbracketed name)
    (hpage : Writes page parts) : Writes ("<" ++ name ++ ">" ++ page) (.tag name :: parts)
  | text {source shown page : String} {parts : List PagePart} (hsource : Shows source shown)
    (hpage : Writes page parts) : Writes (source ++ page) (.text shown :: parts)

theorem Writes.append {first second : String} {before after : List PagePart}
    (hfirst : Writes first before) (hsecond : Writes second after) :
    Writes (first ++ second) (before ++ after) := by
  induction hfirst with
  | nil =>
    rw [String.empty_append]
    exact hsecond
  | tag hname _ ih =>
    rw [String.append_assoc]
    exact .tag hname ih
  | text hsource _ ih =>
    rw [String.append_assoc]
    exact .text hsource ih

theorem Writes.join {α : Type} {write : α → String} {parts : α → List PagePart} {items : List α}
    (h : ∀ item ∈ items, Writes (write item) (parts item)) :
    Writes (String.join (items.map write)) (items.flatMap parts) := by
  induction items with
  | nil => exact .nil
  | cons item items ih =>
    obtain ⟨hitem, hitems⟩ := List.forall_mem_cons.mp h
    rw [List.map_cons, String.join_cons, List.flatMap_cons]
    exact hitem.append (ih hitems)

theorem Shows.writes {source shown : String} (h : Shows source shown) :
    Writes source [.text shown] := by
  have hwrites := Writes.text h .nil
  rwa [String.append_empty] at hwrites

/-- A part as it is written, if it is plain. -/
def PagePart.source : PagePart → String
  | .tag name => "<" ++ name ++ ">"
  | .text shown => shown

def PagePart.isPlain : PagePart → Bool
  | .tag name => Html.isPlain name
  | .text shown => Html.isPlain shown

/-- Parts without characters of markup are written as they are. -/
theorem Writes.plain {page : String} {parts : List PagePart}
    (hplain : parts.all PagePart.isPlain = true)
    (hpage : page = String.join (parts.map PagePart.source)) : Writes page parts := by
  subst hpage
  induction parts with
  | nil => exact .nil
  | cons part parts ih =>
    rw [List.all_cons, Bool.and_eq_true] at hplain
    rw [List.map_cons, String.join_cons]
    cases part with
    | tag name => exact .tag (shows_plain hplain.1).unbracketed (ih hplain.2)
    | text shown => exact .text (shows_plain hplain.1) (ih hplain.2)

/-! ## Reading what was written -/

/-- The text in front of the first tag. -/
def leading : List PagePart → String
  | .text shown :: rest => shown ++ leading rest
  | _ => ""

/-- Each tag with the text behind it. -/
def collect : List PagePart → List Element
  | [] => []
  | .tag name :: rest => ⟨name, leading rest⟩ :: collect rest
  | .text _ :: rest => collect rest

theorem splitOn_append_of_notMem {separator : Char} {first : List Char} (h : separator ∉ first)
    {rest piece : List Char} {pieces : List (List Char)}
    (hrest : rest.splitOn separator = piece :: pieces) :
    (first ++ rest).splitOn separator = (first ++ piece) :: pieces := by
  induction first with
  | nil => exact hrest
  | cons c first ih =>
    rw [List.mem_cons, not_or] at h
    rw [List.cons_append, List.splitOn_cons_eq_if_modifyHead, ih h.2,
      if_neg (by simpa using fun hc => h.1 hc.symm)]
    rfl

theorem readElement_chars {e : Element} (htag : Unbracketed e.tag) (htext : Unbracketed e.text) :
    readElement e.chars = some e := by
  rw [readElement, Element.chars, List.splitOn_append_cons_self_of_not_mem htag.2,
    List.splitOn_eq_singleton htext.2]
  simp

theorem mapM_readElement {elements : List Element}
    (h : ∀ e ∈ elements, readElement e.chars = some e) :
    (elements.map Element.chars).mapM readElement = some elements := by
  induction elements with
  | nil => rfl
  | cons e elements ih =>
    obtain ⟨he, helements⟩ := List.forall_mem_cons.mp h
    rw [List.map_cons, List.mapM_cons, he, ih helements]
    rfl

/-- What is written is cut in front of each tag. -/
theorem Writes.splitOn {page : String} {parts : List PagePart} (h : Writes page parts) :
    ∃ (lead : String) (elements : List Element),
      page.toList.splitOn '<' = lead.toList :: elements.map Element.chars ∧
      Shows lead (leading parts) ∧ (∀ e ∈ elements, readElement e.chars = some e) ∧
      elements.map Element.unescaped = collect parts := by
  induction h with
  | nil => exact ⟨"", [], rfl, shows_plain rfl, by simp, rfl⟩
  | @tag name page parts hname _ ih =>
    obtain ⟨lead, elements, hsplit, hlead, hread, hcollect⟩ := ih
    -- the page is cut in front of the tag, and what led the rest is the text behind it
    refine ⟨"", ⟨name, lead⟩ :: elements, ?_, shows_plain rfl, ?_, ?_⟩
    · have hbehind : '<' ∉ name.toList ++ ['>'] := by
        simpa using hname.1
      have hpage : ("<" ++ name ++ ">" ++ page).toList =
          '<' :: (name.toList ++ ['>'] ++ page.toList) := by
        simp
      rw [hpage, List.splitOn_cons_eq_if_modifyHead, if_pos (beq_self_eq_true '<'),
        splitOn_append_of_notMem hbehind hsplit]
      simp [Element.chars]
    · exact List.forall_mem_cons.mpr ⟨readElement_chars hname hlead.unbracketed, hread⟩
    · have hshown := hlead.unescape_append []
      rw [List.append_nil, unescape, List.append_nil] at hshown
      rw [List.map_cons, hcollect, Element.unescaped, hshown, String.ofList_toList, collect]
  | @text source shown page parts hsource _ ih =>
    obtain ⟨lead, elements, hsplit, hlead, hread, hcollect⟩ := ih
    -- the text is put in front of what led the rest
    refine ⟨source ++ lead, elements, ?_, ⟨⟨?_, ?_⟩, ?_⟩, hread, hcollect⟩
    · rw [String.toList_append, splitOn_append_of_notMem hsource.unbracketed.1 hsplit,
        String.toList_append]
    · simpa using ⟨hsource.unbracketed.1, hlead.unbracketed.1⟩
    · simpa using ⟨hsource.unbracketed.2, hlead.unbracketed.2⟩
    · intro rest
      rw [String.toList_append, List.append_assoc, hsource.unescape_append,
        hlead.unescape_append, leading, String.toList_append, List.append_assoc]

/-- **A page that starts with a tag is read as what it shows.** -/
theorem Writes.read_eq {page name : String} {parts : List PagePart}
    (h : Writes page (.tag name :: parts)) :
    ∃ elements, read page = some elements ∧
      elements.map Element.unescaped = collect (.tag name :: parts) := by
  obtain ⟨lead, elements, hsplit, hlead, hread, hcollect⟩ := h.splitOn
  -- what is shown in front of the first tag is nothing, so nothing is written there
  have hnothing : lead.toList = [] := by
    have hshown := hlead.unescape_append []
    rw [List.append_nil] at hshown
    exact eq_nil_of_unescape hshown
  refine ⟨elements, ?_, hcollect⟩
  rw [read, hsplit, hnothing]
  exact mapM_readElement hread

/-- Outside of a tag there is no closing bracket, and inside no opening one. -/
example : read "<p>a &lt; b</p>\n" = some [⟨"p", "a &lt; b"⟩, ⟨"/p", "\n"⟩] ∧
    read "<p>a > b</p>" = none ∧ read "<p>a < b</p>" = none := by
  decide

end Readability.Render.Html
