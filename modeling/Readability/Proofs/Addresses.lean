import Mathlib
import Readability.Proofs.NestedNodes

/-!
# Addresses of nodes

A node of a tree has an address: which child to take at each step from the root (`at?`).
The nodes passed on the way are the ones above it (`above`). Addresses in the order of
lists are the preorder of the nodes: a node comes before those below it, and siblings come
one after the other.

A tree has one address for each node, in this order (`mem_addresses`,
`pairwise_addresses`), and a walk over the tree that passes something down to the children
is a walk along the addresses (`filterMap_addresses`).

In a nested tree a later address means a later start (`Nested.start_le_of_lt`), and a node
below another one lies inside it (`Nested.within_of_prefix`).
-/

namespace Readability.Source.Tree

/-- The node at an address. -/
def at? : Tree → List Nat → Option Tree
  | t, [] => some t
  | t, i :: p => t.children[i]?.bind fun child => child.at? p

/-- The nodes above an address, the root first. -/
def above : Tree → List Nat → List Tree
  | _, [] => []
  | t, i :: p =>
    t :: match t.children[i]? with
      | some child => child.above p
      | none => []

mutual

/-- The addresses of all nodes, in preorder. -/
def addresses : Tree → List (List Nat)
  | node _ children => [] :: addressesBelow 0 children

/-- The addresses of some siblings and of what is below them, the first one being the child with
that number. -/
def addressesBelow (number : Nat) : List Tree → List (List Nat)
  | [] => []
  | child :: siblings =>
    child.addresses.map (number :: ·) ++ addressesBelow (number + 1) siblings

end

mutual

/-- What holds of a node when it holds of its children holds of all trees. -/
@[elab_as_elim]
theorem byChildren {motive : Tree → Prop}
    (node : ∀ info children, (∀ child ∈ children, motive child) → motive (.node info children)) :
    ∀ t, motive t
  | .node info children => node info children (byChildrenBelow node children)

theorem byChildrenBelow {motive : Tree → Prop}
    (node : ∀ info children, (∀ child ∈ children, motive child) → motive (.node info children)) :
    ∀ ts : List Tree, ∀ t ∈ ts, motive t
  | [] => List.forall_mem_nil _
  | t :: ts => List.forall_mem_cons.mpr ⟨byChildren node t, byChildrenBelow node ts⟩

end

theorem at?_cons (t : Tree) (i : Nat) (p : List Nat) :
    t.at? (i :: p) = t.children[i]?.bind fun child => child.at? p := rfl

theorem at?_cons_of_getElem? {t child : Tree} {i : Nat} (h : t.children[i]? = some child)
    (p : List Nat) : t.at? (i :: p) = child.at? p := by
  rw [at?_cons, h, Option.bind_some]

theorem at?_cons_eq_some_iff {t n : Tree} {i : Nat} {p : List Nat} :
    t.at? (i :: p) = some n ↔ ∃ child, t.children[i]? = some child ∧ child.at? p = some n :=
  Option.bind_eq_some_iff

theorem at?_append (t : Tree) (p q : List Nat) :
    t.at? (p ++ q) = (t.at? p).bind fun n => n.at? q := by
  induction p generalizing t with
  | nil => rfl
  | cons i p ih =>
    rw [List.cons_append, at?_cons, at?_cons, Option.bind_assoc]
    exact congrArg _ (funext fun child => ih child)

theorem above_cons {t child : Tree} {i : Nat} (h : t.children[i]? = some child) (p : List Nat) :
    t.above (i :: p) = t :: child.above p := by
  rw [above, h]

/-- The root is above all other nodes, and the parent is the last one above. -/
theorem getLast?_above_cons {t child : Tree} {i : Nat} (h : t.children[i]? = some child)
    (p : List Nat) :
    (t.above (i :: p)).getLast? = (child.above p).getLast?.or (some t) := by
  rw [above_cons h, List.getLast?_cons, Option.or_some]

/-! ## All addresses -/

theorem addressesBelow_eq_flatMap (number : Nat) (ts : List Tree) :
    addressesBelow number ts =
      (ts.zipIdx number).flatMap fun child => child.1.addresses.map (child.2 :: ·) := by
  induction ts generalizing number with
  | nil => rfl
  | cons t ts ih => rw [addressesBelow, ih, List.zipIdx_cons, List.flatMap_cons]

theorem addresses_node (info : NodeInfo) (children : List Tree) :
    (node info children).addresses =
      [] :: children.zipIdx.flatMap fun child => child.1.addresses.map (child.2 :: ·) := by
  rw [addresses, addressesBelow_eq_flatMap]

/-- **The addresses are those of the nodes.** -/
theorem mem_addresses {t : Tree} {p : List Nat} : p ∈ t.addresses ↔ (t.at? p).isSome := by
  induction t using byChildren generalizing p with
  | node info children ih =>
    rw [addresses_node, List.mem_cons]
    cases p with
    | nil => exact iff_of_true (.inl rfl) rfl
    | cons i p =>
      rw [or_iff_right (List.cons_ne_nil i p), List.mem_flatMap, Prod.exists,
        Option.isSome_iff_exists]
      simp only [List.mem_zipIdx_iff_getElem?, List.mem_map, List.cons.injEq,
        at?_cons_eq_some_iff]
      constructor
      · rintro ⟨child, _, hchild, _, hp, rfl, rfl⟩
        obtain ⟨n, hn⟩ := Option.isSome_iff_exists.mp
          ((ih child (List.mem_of_getElem? hchild)).mp hp)
        exact ⟨n, child, hchild, hn⟩
      · rintro ⟨n, child, hchild, hn⟩
        have hp := (ih child (List.mem_of_getElem? hchild)).mpr
          (Option.isSome_iff_exists.mpr ⟨n, hn⟩)
        exact ⟨child, i, hchild, p, hp, rfl, rfl⟩

/-- **Addresses are in order**, so that none comes twice. -/
theorem pairwise_addresses (t : Tree) : t.addresses.Pairwise (· < ·) := by
  induction t using byChildren with
  | node info children ih =>
    have hnumbers : children.zipIdx.Pairwise fun child other => child.2 < other.2 := by
      rw [← List.pairwise_map, List.zipIdx_map_snd]
      exact List.pairwise_lt_range'
    rw [addresses_node, List.pairwise_cons, List.pairwise_flatMap]
    refine ⟨fun p hp => ?_, fun child hchild => ?_, hnumbers.imp fun {child other} hlt => ?_⟩
    · obtain ⟨child, -, hp⟩ := List.mem_flatMap.mp hp
      obtain ⟨q, -, rfl⟩ := List.mem_map.mp hp
      exact List.nil_lt_cons _ _
    · rw [List.pairwise_map]
      refine (ih child.1 (List.fst_mem_of_mem_zipIdx hchild)).imp fun hlt => ?_
      exact List.cons_lt_cons_iff.mpr (.inr ⟨rfl, hlt⟩)
    · intro p hp q hq
      obtain ⟨p, -, rfl⟩ := List.mem_map.mp hp
      obtain ⟨q, -, rfl⟩ := List.mem_map.mp hq
      exact List.cons_lt_cons_iff.mpr (.inl hlt)

/-- **A walk along the addresses** is a walk over the root and over its children, if it does at a
child what `g` does there. -/
theorem filterMap_addresses {β : Type} (info : NodeInfo) (children : List Tree)
    {f : List Nat → Option β} {g : Tree → List Nat → Option β}
    (h : ∀ {i child}, children[i]? = some child → ∀ p, f (i :: p) = g child p) :
    (node info children).addresses.filterMap f =
      (f []).toList ++ children.flatMap fun child => child.addresses.filterMap (g child) := by
  have hbelow : (children.zipIdx.flatMap fun child =>
      (child.1.addresses.map (child.2 :: ·)).filterMap f) =
      children.zipIdx.flatMap fun child => child.1.addresses.filterMap (g child.1) := by
    refine List.flatMap_congr fun child hchild => ?_
    rw [List.filterMap_map]
    refine List.filterMap_congr fun p _ => ?_
    exact h (List.mem_zipIdx_iff_getElem?.mp hchild) p
  have hroot : ([] :: ([] : List (List Nat))).filterMap f = (f []).toList := by
    cases hf : f [] <;> simp [hf]
  rw [addresses_node, ← List.singleton_append, List.filterMap_append, hroot, List.filterMap_flatMap,
    hbelow]
  conv_rhs => rw [← List.zipIdx_map_fst 0 children, List.flatMap_map]

/-- **Elements for some addresses of a tree**, one for each address that is chosen, in preorder. -/
structure Enumerates {β : Type} (entries : List (List Nat × β)) (chosen : List Nat → Bool)
    (elements : List β) : Prop where
  elements : entries.map (·.2) = elements
  ordered : (entries.map (·.1)).Pairwise (· < ·)
  complete : ∀ p, p ∈ entries.map (·.1) ↔ chosen p = true

/-- The entries of a walk along the addresses. -/
def entriesOf {β : Type} (t : Tree) (f : List Nat → Option β) : List (List Nat × β) :=
  t.addresses.filterMap fun p => (f p).map fun element => (p, element)

section Entries

variable {β : Type} {t : Tree} {f : List Nat → Option β}

theorem mem_entriesOf (h : ∀ p, (f p).isSome → (t.at? p).isSome) {e : List Nat × β} :
    e ∈ t.entriesOf f ↔ f e.1 = some e.2 := by
  simp only [entriesOf, List.mem_filterMap, Option.map_eq_some_iff]
  constructor
  · rintro ⟨p, -, element, hp, rfl⟩
    exact hp
  · intro he
    have hp := mem_addresses.mpr (h e.1 (Option.isSome_of_eq_some he))
    exact ⟨e.1, hp, e.2, he, rfl⟩

/-- A walk along the addresses has its elements in preorder. -/
theorem enumerates_entriesOf (h : ∀ p, (f p).isSome → (t.at? p).isSome) :
    Enumerates (t.entriesOf f) (fun p => (f p).isSome) (t.addresses.filterMap f) where
  elements := by
    rw [entriesOf, List.map_filterMap]
    refine List.filterMap_congr fun p _ => ?_
    rw [Option.map_map]
    exact Option.map_id'
  ordered := by
    rw [List.pairwise_map]
    refine (List.pairwise_filterMap.mpr ?_)
    refine t.pairwise_addresses.imp fun hlt e he e' he' => ?_
    obtain ⟨_, -, rfl⟩ := Option.map_eq_some_iff.mp he
    obtain ⟨_, -, rfl⟩ := Option.map_eq_some_iff.mp he'
    exact hlt
  complete p := by
    rw [List.mem_map, Option.isSome_iff_exists]
    simp only [mem_entriesOf h]
    constructor
    · rintro ⟨e, he, rfl⟩
      exact ⟨e.2, he⟩
    · rintro ⟨element, helement⟩
      exact ⟨(p, element), helement, rfl⟩

end Entries

theorem nodes_eq_flatMap (info : NodeInfo) (children : List Tree) :
    (node info children).nodes = info :: children.flatMap nodes := by
  rw [nodes, nodesBelow_eq_flatMap]

/-- The nodes of a tree are those at its addresses. -/
theorem nodes_eq_filterMap (t : Tree) :
    t.nodes = t.addresses.filterMap fun p => (t.at? p).map (·.info) := by
  induction t using byChildren with
  | node info children ih =>
    have hwalk := filterMap_addresses info children
      (f := fun p => ((node info children).at? p).map (·.info))
      (g := fun child p => (child.at? p).map (·.info)) fun hchild p =>
        congrArg (Option.map _) (at?_cons_of_getElem? hchild p)
    rw [nodes_eq_flatMap, hwalk]
    exact congrArg (info :: ·) (List.flatMap_congr ih)

/-! ## Nested trees -/

theorem NestedBelow.of_mem {first last : Nat} {ts : List Tree} (h : NestedBelow first last ts)
    {t : Tree} (ht : t ∈ ts) : t.Nested first last := by
  induction ts generalizing first with
  | nil => cases ht
  | cons child siblings ih =>
    rcases List.mem_cons.mp ht with rfl | ht
    · exact h.1
    · have hinfo := h.1.info
      exact (ih h.2 ht).mono (hinfo.start.trans hinfo.order) le_rfl

/-- Siblings come one after the other. -/
theorem NestedBelow.pairwise {first last : Nat} {ts : List Tree} (h : NestedBelow first last ts) :
    ts.Pairwise fun t t' => t.info.stop ≤ t'.info.start := by
  induction ts generalizing first with
  | nil => exact .nil
  | cons child siblings ih =>
    exact .cons (fun t ht => (h.2.of_mem ht).info.start) (ih h.2)

theorem Nested.of_at? {first last : Nat} {t n : Tree} {p : List Nat} (h : t.Nested first last)
    (hn : t.at? p = some n) : n.Nested first last := by
  induction p generalizing t first last with
  | nil =>
    obtain rfl := Option.some.inj hn
    exact h
  | cons i p ih =>
    obtain ⟨info, children⟩ := t
    obtain ⟨child, hchild, hn⟩ := at?_cons_eq_some_iff.mp hn
    exact (ih (h.2.of_mem (List.mem_of_getElem? hchild)) hn).mono h.1.start h.1.stop

theorem info_mem_nodes_of_at? {t n : Tree} {p : List Nat} (hn : t.at? p = some n) :
    n.info ∈ t.nodes := by
  rw [nodes_eq_filterMap, List.mem_filterMap]
  exact ⟨p, mem_addresses.mpr (Option.isSome_iff_exists.mpr ⟨n, hn⟩), congrArg (Option.map _) hn⟩

/-- All nodes lie in the root. -/
theorem Nested.within_of_at? {first last : Nat} {t n : Tree} {p : List Nat}
    (h : t.Nested first last) (hn : t.at? p = some n) :
    n.info.Within t.info.start t.info.stop :=
  h.within_root _ (info_mem_nodes_of_at? hn)

/-- **A node below another one lies in it.** -/
theorem Nested.within_of_prefix {first last : Nat} {t n m : Tree} {p q : List Nat}
    (h : t.Nested first last) (hn : t.at? p = some n) (hm : t.at? q = some m) (hpq : p <+: q) :
    m.info.Within n.info.start n.info.stop := by
  obtain ⟨rest, rfl⟩ := hpq
  rw [at?_append, hn, Option.bind_some] at hm
  exact (h.of_at? hn).within_of_at? hm

/-- **A later node starts no earlier.** -/
theorem Nested.start_le_of_lt {first last : Nat} {t n m : Tree} {p q : List Nat}
    (h : t.Nested first last) (hn : t.at? p = some n) (hm : t.at? q = some m) (hpq : p < q) :
    n.info.start ≤ m.info.start := by
  induction p generalizing t q first last with
  | nil =>
    obtain rfl := Option.some.inj hn
    exact (h.within_of_at? hm).start
  | cons i p ih =>
    obtain ⟨info, children⟩ := t
    cases q with
    | nil => exact absurd hpq (List.not_lt_nil _)
    | cons j q =>
      obtain ⟨child, hchild, hn⟩ := at?_cons_eq_some_iff.mp hn
      obtain ⟨child', hchild', hm⟩ := at?_cons_eq_some_iff.mp hm
      have hnested := h.2.of_mem (List.mem_of_getElem? hchild)
      have hnested' := h.2.of_mem (List.mem_of_getElem? hchild')
      rcases List.cons_lt_cons_iff.mp hpq with hlt | ⟨rfl, hlt⟩
      · -- the one node lies in a sibling before that of the other
        have hinside := hnested.within_of_at? hn
        have hinside' := hnested'.within_of_at? hm
        obtain ⟨hi, rfl⟩ := List.getElem?_eq_some_iff.mp hchild
        obtain ⟨hj, rfl⟩ := List.getElem?_eq_some_iff.mp hchild'
        have hstop := List.pairwise_iff_getElem.mp h.2.pairwise i j hi hj hlt
        exact hinside.order.trans (hinside.stop.trans (hstop.trans hinside'.start))
      · obtain rfl := Option.some.inj (hchild.symm.trans hchild')
        exact ih hnested hn hm hlt

end Readability.Source.Tree
