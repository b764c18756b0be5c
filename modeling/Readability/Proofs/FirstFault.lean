import Mathlib
import Readability.Proofs.Addresses

/-!
# The first fault of a tree

A tree with a fault is refused with the line of its first fault, which is looked for only
below nodes that are marked to have one. Where every node above a fault is marked
(`Tree.Marked`), the search passes over no fault but those that are not marked themselves
(`firstFault?_eq`).

Main statement: `parseSource_refuses`. The line is that of the first marked fault. This is the
first fault of all where a fault without a mark stands below another fault
(`Tree.Sheltered`); elsewhere it need not be (`parseSource_passes_unmarked`).
-/

namespace Readability.Source

namespace Tree

/-- Every node above a fault is marked to have one. The fault itself may be without a mark. -/
def Marked (t : Tree) : Prop :=
  ∀ p ∈ t.addresses, ∀ n ∈ t.at? p, isFault n.info = true → ∀ a ∈ t.above p, a.info.hasError = true

/-- A fault without a mark stands below another fault. -/
def Sheltered (t : Tree) : Prop :=
  ∀ p ∈ t.addresses, ∀ n ∈ t.at? p, isFault n.info = true → n.info.hasError = false →
    ∃ a ∈ t.above p, isFault a.info = true

/-- A fault with a mark. -/
def isMarkedFault (info : NodeInfo) : Bool :=
  isFault info && info.hasError

instance (t : Tree) : Decidable t.Marked :=
  inferInstanceAs (Decidable (∀ p ∈ t.addresses, ∀ n ∈ t.at? p, isFault n.info = true →
    ∀ a ∈ t.above p, a.info.hasError = true))

instance (t : Tree) : Decidable t.Sheltered :=
  inferInstanceAs (Decidable (∀ p ∈ t.addresses, ∀ n ∈ t.at? p, isFault n.info = true →
    n.info.hasError = false → ∃ a ∈ t.above p, isFault a.info = true))

variable {t below : Tree} {i : Nat}

/-- The node at an address of a child is one of the tree. -/
theorem mem_addresses_cons (hchild : t.children[i]? = some below) {p : List Nat} {n : Tree}
    (hn : n ∈ below.at? p) : i :: p ∈ t.addresses ∧ n ∈ t.at? (i :: p) := by
  have hplace : t.at? (i :: p) = some n := (at?_cons_of_getElem? hchild p).trans hn
  exact ⟨mem_addresses.mpr (Option.isSome_of_eq_some hplace), hplace⟩

theorem Marked.child (h : t.Marked) (hchild : t.children[i]? = some below) : below.Marked := by
  intro p _ n hn hfault a ha
  obtain ⟨hp, hn⟩ := mem_addresses_cons hchild hn
  refine h (i :: p) hp n hn hfault a ?_
  rw [above_cons hchild]
  exact List.mem_cons_of_mem t ha

theorem Sheltered.child (h : t.Sheltered) (hroot : isFault t.info = false)
    (hchild : t.children[i]? = some below) : below.Sheltered := by
  intro p _ n hn hfault hclean
  obtain ⟨hp, hn⟩ := mem_addresses_cons hchild hn
  obtain ⟨a, ha, hafault⟩ := h (i :: p) hp n hn hfault hclean
  rw [above_cons hchild, List.mem_cons] at ha
  rcases ha with rfl | ha
  · rw [hroot] at hafault
    cases hafault
  · exact ⟨a, ha, hafault⟩

/-- A node without a mark has no marked fault. -/
theorem Marked.find?_eq_none (h : t.Marked) (hclean : t.info.hasError = false) :
    t.nodes.find? isMarkedFault = none := by
  rw [List.find?_eq_none]
  intro n hn hfault
  rw [isMarkedFault, Bool.and_eq_true] at hfault
  rw [nodes_eq_filterMap, List.mem_filterMap] at hn
  obtain ⟨p, hp, hn⟩ := hn
  obtain ⟨m, hm, rfl⟩ := Option.map_eq_some_iff.mp hn
  cases p with
  | nil =>
    obtain rfl := Option.some.inj hm
    rw [hclean] at hfault
    cases hfault.2
  | cons i p =>
    have habove : t ∈ t.above (i :: p) := List.mem_cons_self
    have hmarked := h _ hp m hm hfault.1 t habove
    rw [hclean] at hmarked
    cases hmarked

/-- A search gives the same where the tests agree on what is searched. -/
theorem findSome?_congr_mem {α β : Type} {f g : α → Option β} {xs : List α}
    (h : ∀ x ∈ xs, f x = g x) : xs.findSome? f = xs.findSome? g := by
  induction xs with
  | nil => rfl
  | cons x xs ih =>
    rw [List.findSome?_cons, List.findSome?_cons, h x List.mem_cons_self,
      ih fun y hy => h y (List.mem_cons_of_mem x hy)]

theorem firstFaultIn?_eq_findSome? (ts : List Tree) :
    firstFaultIn? ts =
      ts.findSome? fun t => if t.info.hasError then t.firstFault? else none := by
  induction ts with
  | nil => rw [firstFaultIn?, List.findSome?_nil]
  | cons t ts ih =>
    rw [firstFaultIn?, List.findSome?_cons, ih]
    rcases t.info.hasError with _ | _
    · rfl
    · rw [if_pos rfl, if_pos rfl]
      cases t.firstFault? <;> rfl

/-- **The search finds the first marked fault.** -/
theorem firstFault?_eq (h : t.Marked) (hroot : t.info.hasError = true) :
    t.firstFault? = (t.nodes.find? isMarkedFault).map (·.start) := by
  induction t using byChildren with
  | node info children ih =>
    change info.hasError = true at hroot
    rw [firstFault?, nodes_eq_flatMap, List.find?_cons, isMarkedFault, hroot, Bool.and_true]
    rcases isFault info with _ | _
    · rw [if_neg Bool.false_ne_true, firstFaultIn?_eq_findSome?, List.find?_flatMap,
        List.map_findSome?]
      refine findSome?_congr_mem fun child hchild => ?_
      obtain ⟨i, hi⟩ := List.getElem?_of_mem hchild
      have hmarked := h.child hi
      rcases hchildroot : child.info.hasError with _ | _
      · rw [if_neg Bool.false_ne_true, Function.comp_apply, hmarked.find?_eq_none hchildroot]
        rfl
      · rw [if_pos rfl]
        exact ih child hchild hmarked hchildroot
    · rfl

/-- **The first marked fault is the first fault**, if those without a mark stand below others. -/
theorem Sheltered.find?_eq (h : t.Sheltered) :
    t.nodes.find? isMarkedFault = t.nodes.find? isFault := by
  induction t using byChildren with
  | node info children ih =>
    rw [nodes_eq_flatMap, List.find?_cons, List.find?_cons, isMarkedFault]
    rcases hfault : isFault info with _ | _
    · rw [Bool.false_and, List.find?_flatMap, List.find?_flatMap]
      refine findSome?_congr_mem fun child hchild => ?_
      obtain ⟨i, hi⟩ := List.getElem?_of_mem hchild
      exact ih child hchild (h.child hfault hi)
    · -- nothing is above the root, so it has a mark
      rcases hroot : info.hasError with _ | _
      · obtain ⟨a, ha, -⟩ := h [] (mem_addresses.mpr rfl) _ rfl hfault hroot
        cases ha
      · rfl

end Tree

/-- The line that a fault is reported on; the first one if there is none. -/
def faultLine (text : String) (fault : Option NodeInfo) : Nat :=
  match fault with
  | some n => (SourceText.ofString text).row n.start + 1
  | none => 1

/-- The text is refused with a fault on that line. -/
def refusal (language : Language) (line : Nat) : Except UnitError Tree :=
  .error (.parse (language.name ++ " syntax error near line " ++ toString line))

/-- **A tree with a fault is refused with the line of its first marked fault.** This holds when all
nodes above a fault are marked. It is the first fault of all if faults without a mark stand below
other faults. -/
theorem parseSource_refuses {parser : Parser} {language : Language} {text : String} {t : Tree}
    (hparser : parser language text = some t) (hroot : t.info.hasError = true)
    (hmarked : t.Marked) :
    parseSource parser language text =
        refusal language (faultLine text (t.nodes.find? Tree.isMarkedFault)) ∧
      (t.Sheltered → parseSource parser language text =
        refusal language (faultLine text (t.nodes.find? Tree.isFault))) := by
  have hrefused : parseSource parser language text =
      refusal language (faultLine text (t.nodes.find? Tree.isMarkedFault)) := by
    rw [parseSource, hparser]
    dsimp only
    rw [if_pos hroot, Tree.firstFault?_eq hmarked hroot]
    rcases t.nodes.find? Tree.isMarkedFault with _ | n <;> rfl
  exact ⟨hrefused, fun hsheltered => hsheltered.find?_eq ▸ hrefused⟩

/-- The second line opens a directive, a node of that kind, and in it a text that does not end. The
last leaf is a fault without a mark. -/
def openDirective (kind : String) : Tree :=
  let leaf (kind : String) (start stop : Nat) : Tree :=
    .node ⟨kind, true, false, false, start, stop, .none⟩ []
  .node ⟨"translation_unit", true, false, true, 0, 17, .none⟩
    [leaf "declaration" 0 6,
      .node ⟨kind, true, false, true, 7, 17, .none⟩
        [leaf "preproc_directive" 7 13, leaf "ERROR" 14 17]]

/-- The parser that gives this tree. -/
def parseDirective (kind : String) : Parser := fun _ _ => some (openDirective kind)

/-- A fault inside another that is marked. -/
theorem parseSource_refuses_openDirective :
    let t := openDirective "ERROR"
    let text := "int a;\n#error \"no"
    t.info.hasError = true ∧ t.Marked ∧ t.Sheltered ∧
      faultLine text (t.nodes.find? Tree.isFault) = 2 ∧
      parseSource (parseDirective "ERROR") .c text = refusal .c 2 := by
  intro t text
  have hmarked : t.Marked := by decide +kernel
  have hsheltered : t.Sheltered := by decide +kernel
  have hline : faultLine text (t.nodes.find? Tree.isFault) = 2 := by decide +kernel
  have hparser : parseDirective "ERROR" .c text = some t := rfl
  have hrefused := (parseSource_refuses hparser rfl hmarked).2 hsheltered
  rw [hline] at hrefused
  exact ⟨rfl, hmarked, hsheltered, hline, hrefused⟩

/-- **The search passes over a fault without a mark.** The only fault is on the second line and all
nodes above it are marked. The line in the refusal is the first one. -/
theorem parseSource_passes_unmarked :
    let t := openDirective "preproc_call"
    let text := "int a;\n#error \"no"
    t.info.hasError = true ∧ t.Marked ∧ (t.nodes.find? Tree.isFault).isSome ∧
      faultLine text (t.nodes.find? Tree.isFault) = 2 ∧
      parseSource (parseDirective "preproc_call") .c text = refusal .c 1 := by
  intro t text
  have hroot : t.info.hasError = true := rfl
  have hnone : t.firstFault? = none := by decide +kernel
  refine ⟨hroot, by decide +kernel, by decide +kernel, by decide +kernel, ?_⟩
  rw [parseSource, parseDirective]
  dsimp only
  rw [if_pos hroot, hnone]
  rfl

end Readability.Source
