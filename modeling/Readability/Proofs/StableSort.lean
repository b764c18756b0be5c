import Mathlib.Data.List.Nodup
import Mathlib.Data.List.Pairwise
import Mathlib.Data.List.Perm.Basic

/-!
# Stable sorting, up to the order of arrival

A stable sort leaves elements that tie in the order they came in. So two lists
are sorted alike as soon as they hold the same elements and agree on the order
within each class of ties:

> `mergeSort_congr`: permuted lists that agree on every class of ties have the
> same sorted list.

The class of an element is a filter of the list. It passes through the sort
unchanged (`filter_tie_mergeSort`), and a sorted list is determined by its
classes (`eq_of_filter_tie_eq`).

So lists may be looked through before they are sorted or after
(`filter_mergeSort`), and blocks of which one comes before the other are sorted
each on its own (`mergeSort_flatMap`, `mergeSort_eq_flatMap`).
-/

namespace Readability.Sorting

variable {α : Type} {le : α → α → Bool}

/-- Whether neither of two elements has to come before the other. -/
def tie (le : α → α → Bool) (a b : α) : Bool := le a b && le b a

theorem tie_self (total : ∀ a b, le a b || le b a) (a : α) : tie le a a = true := by
  have h := total a a
  rw [Bool.or_self] at h
  rw [tie, h]
  rfl

/-- Elements that tie with the same one are in order, either way round. -/
theorem pairwise_filter_tie (trans : ∀ a b c, le a b → le b c → le a c) (a : α) :
    ∀ (l : List α), (l.filter (tie le a)).Pairwise (fun x y => le x y) := by
  intro l
  have hany : (l.filter (tie le a)).Pairwise fun _ _ => True :=
    List.pairwise_of_forall fun _ _ => trivial
  refine hany.imp_of_mem ?_
  intro x y hx hy _
  have hax := (List.mem_filter.mp hx).2
  have hay := (List.mem_filter.mp hy).2
  rw [tie, Bool.and_eq_true] at hax hay
  exact trans x a y hax.2 hay.1

/-- Sorting keeps each class of ties as it is. -/
theorem filter_tie_mergeSort (trans : ∀ a b c, le a b → le b c → le a c)
    (total : ∀ a b, le a b || le b a) (l : List α) (a : α) :
    (l.mergeSort le).filter (tie le a) = l.filter (tie le a) := by
  have hsub : (l.filter (tie le a)).Sublist (l.mergeSort le) :=
    List.sublist_mergeSort trans total (pairwise_filter_tie trans a l) List.filter_sublist
  have hsub' := hsub.filter (tie le a)
  rw [List.filter_filter] at hsub'
  simp only [Bool.and_self] at hsub'
  -- a sublist of the same length is the whole
  have hlen := ((List.mergeSort_perm l le).filter (tie le a)).length_eq
  exact (hsub'.eq_of_length hlen.symm).symm

/-- A sorted list is determined by its elements and their order among ties. -/
theorem eq_of_filter_tie_eq (total : ∀ a b, le a b || le b a) :
    ∀ (l₁ l₂ : List α), l₁.Pairwise (fun x y => le x y) → l₂.Pairwise (fun x y => le x y) →
      l₁.Perm l₂ → (∀ a ∈ l₁, l₁.filter (tie le a) = l₂.filter (tie le a)) → l₁ = l₂ := by
  intro l₁
  induction l₁ with
  | nil =>
    intro l₂ _ _ hperm _
    exact hperm.nil_eq
  | cons a t₁ ih =>
    intro l₂ h₁ h₂ hperm hties
    cases l₂ with
    | nil => exact absurd hperm.symm.nil_eq (by simp)
    | cons b t₂ =>
      have hself : ∀ c, le c c = true := fun c => by
        have h := total c c
        rwa [Bool.or_self] at h
      have hba : le b a = true := by
        rcases List.mem_cons.mp (hperm.subset (List.mem_cons_self ..)) with rfl | hmem
        · exact hself a
        · exact (List.pairwise_cons.mp h₂).1 a hmem
      have hab : le a b = true := by
        rcases List.mem_cons.mp (hperm.symm.subset (List.mem_cons_self ..)) with rfl | hmem
        · exact hself b
        · exact (List.pairwise_cons.mp h₁).1 b hmem
      have htab : tie le a b = true := by
        rw [tie, hab, hba]
        rfl
      -- the two heads tie, so each of them is the first of the same class
      have hheads := hties a (List.mem_cons_self ..)
      rw [List.filter_cons_of_pos (tie_self total a), List.filter_cons_of_pos htab] at hheads
      obtain ⟨rfl, -⟩ := List.cons.inj hheads
      refine congrArg (a :: ·) (ih t₂ h₁.of_cons h₂.of_cons (hperm.cons_inv) ?_)
      intro c hc
      have hclass := hties c (List.mem_cons_of_mem _ hc)
      by_cases hca : tie le c a = true
      · rw [List.filter_cons_of_pos hca, List.filter_cons_of_pos hca] at hclass
        exact (List.cons.inj hclass).2
      · rw [List.filter_cons_of_neg hca, List.filter_cons_of_neg hca] at hclass
        exact hclass

/-- **Stable sorting forgets the order of arrival**, but for the order among
ties. -/
theorem mergeSort_congr (trans : ∀ a b c, le a b → le b c → le a c)
    (total : ∀ a b, le a b || le b a) {l₁ l₂ : List α} (hperm : l₁.Perm l₂)
    (hties : ∀ a ∈ l₁, l₁.filter (tie le a) = l₂.filter (tie le a)) :
    l₁.mergeSort le = l₂.mergeSort le := by
  refine eq_of_filter_tie_eq total _ _ (List.pairwise_mergeSort trans total l₁)
    (List.pairwise_mergeSort trans total l₂) ?_ ?_
  · exact (List.mergeSort_perm l₁ le).trans (hperm.trans (List.mergeSort_perm l₂ le).symm)
  · intro a ha
    rw [filter_tie_mergeSort trans total, filter_tie_mergeSort trans total]
    exact hties a (List.mem_mergeSort.mp ha)

/-! ## Sorting by a key -/

theorem key_eq_of_mem_zip {β : Type} {key : α → β} :
    ∀ (l₁ l₂ : List α), l₁.map key = l₂.map key → ∀ p ∈ l₁.zip l₂, key p.1 = key p.2 := by
  intro l₁
  induction l₁ with
  | nil => exact fun _ _ p hp => absurd hp (List.not_mem_nil)
  | cons a t₁ ih =>
    intro l₂ hkeys p hp
    cases l₂ with
    | nil => exact absurd hkeys (List.cons_ne_nil _ _)
    | cons b t₂ =>
      obtain ⟨hhead, htail⟩ := List.cons.inj hkeys
      rcases List.mem_cons.mp hp with rfl | hp
      · exact hhead
      · exact ih t₂ htail p hp

/-- Lists with the same keys, one by one, are moved alike when they are sorted by
key: they come out the same only if they were the same. -/
theorem eq_of_mergeSort_eq {β : Type} (key : α → β)
    (hle : ∀ a b c d, key a = key c → key b = key d → le a b = le c d) {l₁ l₂ : List α}
    (hkeys : l₁.map key = l₂.map key) (hsorted : l₁.mergeSort le = l₂.mergeSort le) : l₁ = l₂ := by
  have hlen : l₁.length = l₂.length := by
    have h := congrArg List.length hkeys
    rwa [List.length_map, List.length_map] at h
  have hfst : (l₁.zip l₂).map Prod.fst = l₁ := List.map_fst_zip (Nat.le_of_eq hlen)
  have hsnd : (l₁.zip l₂).map Prod.snd = l₂ := List.map_snd_zip (Nat.le_of_eq hlen.symm)
  -- the pairs of both lists are sorted once; each list is a projection of that
  have hpair := key_eq_of_mem_zip l₁ l₂ hkeys
  have h₁ : ((l₁.zip l₂).mergeSort fun p q => le p.1 q.1).map Prod.fst =
      ((l₁.zip l₂).map Prod.fst).mergeSort le :=
    List.map_mergeSort fun _ _ _ _ => rfl
  have h₂ : ((l₁.zip l₂).mergeSort fun p q => le p.1 q.1).map Prod.snd =
      ((l₁.zip l₂).map Prod.snd).mergeSort le :=
    List.map_mergeSort fun p hp q hq => hle _ _ _ _ (hpair p hp) (hpair q hq)
  rw [hfst] at h₁
  rw [hsnd] at h₂
  rw [← h₁, ← h₂, List.map_inj_left] at hsorted
  have hsame : (l₁.zip l₂).map Prod.fst = (l₁.zip l₂).map Prod.snd :=
    List.map_congr_left fun p hp => hsorted p (List.mem_mergeSort.mpr hp)
  rwa [hfst, hsnd] at hsame

/-- Only how elements of the list compare matters. -/
theorem mergeSort_congr_of_mem {le' : α → α → Bool} {l : List α}
    (h : ∀ a ∈ l, ∀ b ∈ l, le a b = le' a b) : l.mergeSort le = l.mergeSort le' := by
  have hmap := List.map_mergeSort (f := id) h
  rwa [List.map_id, List.map_id] at hmap

/-! ## Sorting by blocks -/

theorem tie_comm (a b : α) : tie le a b = tie le b a :=
  Bool.and_comm _ _

/-- What is sorted can be looked through before or after. -/
theorem filter_mergeSort (trans : ∀ a b c, le a b → le b c → le a c)
    (total : ∀ a b, le a b || le b a) (p : α → Bool) (l : List α) :
    (l.mergeSort le).filter p = (l.filter p).mergeSort le := by
  refine eq_of_filter_tie_eq total _ _ ((List.pairwise_mergeSort trans total l).filter p)
    (List.pairwise_mergeSort trans total _) ?_ ?_
  · exact ((List.mergeSort_perm l le).filter p).trans (List.mergeSort_perm _ le).symm
  · intro a _
    rw [filter_tie_mergeSort trans total, List.filter_comm, filter_tie_mergeSort trans total,
      List.filter_comm]

/-- The values of one element can be looked for there alone when no other
element has any. -/
theorem filter_flatMap_of_unique {α β : Type} {f : α → List β} {p : β → Bool} {a : α} :
    ∀ (l : List α), l.Nodup → a ∈ l → (∀ c ∈ l, c ≠ a → ∀ b ∈ f c, p b = false) →
      (l.flatMap f).filter p = (f a).filter p := by
  intro l
  induction l with
  | nil => exact fun _ ha => absurd ha List.not_mem_nil
  | cons c l ih =>
    intro hnodup ha hother
    obtain ⟨hc, hl⟩ := List.nodup_cons.mp hnodup
    have hnone : ∀ d ∈ c :: l, d ≠ a → (f d).filter p = [] := by
      intro d hd hda
      refine List.filter_eq_nil_iff.mpr ?_
      intro b hb
      rw [hother d hd hda b hb]
      exact Bool.false_ne_true
    rw [List.flatMap_cons, List.filter_append]
    by_cases hca : c = a
    · -- it does not come again, so the rest holds none of its values
      subst hca
      have hrest : (l.flatMap f).filter p = [] := by
        rw [List.filter_flatMap]
        refine List.flatMap_eq_nil_iff.mpr ?_
        intro d hd
        exact hnone d (List.mem_cons_of_mem c hd) fun h => hc (h ▸ hd)
      rw [hrest, List.append_nil]
    · have ha' : a ∈ l := (List.mem_cons.mp ha).resolve_left (Ne.symm hca)
      rw [hnone c (List.mem_cons_self ..) hca, List.nil_append]
      exact ih hl ha' fun d hd => hother d (List.mem_cons_of_mem c hd)

/-- Blocks of which each comes before the next. -/
def InBlocks (le : α → α → Bool) {β : Type} (f : β → List α) (l : List β) : Prop :=
  l.Pairwise fun a b => ∀ x ∈ f a, ∀ y ∈ f b, le x y = true ∧ le y x = false

/-- Nothing ties with an element of another block. -/
theorem InBlocks.tie_eq_false {β : Type} {f : β → List α} {l : List β} (h : InBlocks le f l)
    {a b : β} (ha : a ∈ l) (hb : b ∈ l) (hba : b ≠ a) {x y : α} (hx : x ∈ f a) (hy : y ∈ f b) :
    tie le x y = false := by
  have hapart : l.Pairwise fun a b => ∀ x ∈ f a, ∀ y ∈ f b, tie le x y = false := by
    refine List.Pairwise.imp ?_ h
    intro a b hab x hx y hy
    rw [tie, (hab x hx y hy).2, Bool.and_false]
  have hsymm : Std.Symm fun a b => ∀ x ∈ f a, ∀ y ∈ f b, tie le x y = false := by
    refine ⟨fun a b hab x hx y hy => ?_⟩
    rw [tie_comm]
    exact hab y hy x hx
  exact hapart.forall ha hb hba.symm x hx y hy

/-- **Blocks that come one before the other are sorted each on its own**, in
whatever order they were put. -/
theorem mergeSort_flatMap (trans : ∀ a b c, le a b → le b c → le a c)
    (total : ∀ a b, le a b || le b a) {β : Type} {f : β → List α} {l l' : List β}
    (hperm : l'.Perm l) (hnodup : l.Nodup)
    (hblocks : InBlocks le f l) :
    (l'.flatMap f).mergeSort le = l.flatMap fun a => (f a).mergeSort le := by
  have hsorted : (l.flatMap fun a => (f a).mergeSort le).Pairwise fun x y => le x y := by
    rw [List.pairwise_flatMap]
    refine ⟨fun a _ => List.pairwise_mergeSort trans total _, List.Pairwise.imp ?_ hblocks⟩
    intro a b hab x hx y hy
    exact (hab x (List.mem_mergeSort.mp hx) y (List.mem_mergeSort.mp hy)).1
  refine eq_of_filter_tie_eq total _ _ (List.pairwise_mergeSort trans total _) hsorted ?_ ?_
  · exact (List.mergeSort_perm _ le).trans ((hperm.flatMap_right f).trans
      (List.Perm.flatMap_left l fun a _ => (List.mergeSort_perm (f a) le).symm))
  · -- all that ties with an element is in its block
    intro x hx
    obtain ⟨a, ha, hxa⟩ := List.mem_flatMap.mp (List.mem_mergeSort.mp hx)
    have hal : a ∈ l := hperm.mem_iff.mp ha
    rw [filter_tie_mergeSort trans total,
      filter_flatMap_of_unique l' (hperm.nodup_iff.mpr hnodup) ha fun b hb hba y hy =>
        hblocks.tie_eq_false hal (hperm.mem_iff.mp hb) hba hxa hy,
      filter_flatMap_of_unique l hnodup hal fun b hb hba y hy =>
        hblocks.tie_eq_false hal hb hba hxa (List.mem_mergeSort.mp hy),
      filter_tie_mergeSort trans total]

/-- The elements of a list, key by key. -/
theorem flatMap_filter_perm {β : Type} [BEq β] [LawfulBEq β] (key : α → β) :
    ∀ (keys : List β) (l : List α), keys.Nodup → (∀ a ∈ l, key a ∈ keys) →
      (keys.flatMap fun k => l.filter fun a => key a == k).Perm l := by
  intro keys
  induction keys with
  | nil =>
    intro l _ hkeys
    rw [List.eq_nil_iff_forall_not_mem.mpr fun a ha => List.not_mem_nil (hkeys a ha)]
    exact List.Perm.nil
  | cons k keys ih =>
    intro l hnodup hkeys
    obtain ⟨hk, hnodup⟩ := List.nodup_cons.mp hnodup
    -- the elements of the other keys are those that are left without this one's
    have hrest : (keys.flatMap fun k' => l.filter fun a => key a == k') =
        keys.flatMap fun k' => (l.filter fun a => !(key a == k)).filter fun a => key a == k' := by
      refine List.flatMap_congr ?_
      intro k' hk'
      rw [List.filter_filter]
      refine List.filter_congr ?_
      intro a _
      rw [Bool.eq_self_and, Bool.not_eq_true', beq_iff_eq, beq_eq_false_iff_ne]
      rintro rfl rfl
      exact hk hk'
    rw [List.flatMap_cons, hrest]
    refine ((ih _ hnodup ?_).append_left _).trans (List.filter_append_perm _ l)
    intro a ha
    obtain ⟨ha, hother⟩ := List.mem_filter.mp ha
    rw [Bool.not_eq_true', beq_eq_false_iff_ne] at hother
    exact (List.mem_cons.mp (hkeys a ha)).resolve_left hother

/-- **A list is sorted by sorting the elements of each key on their own**, if the
elements of one key come before those of the next. -/
theorem mergeSort_eq_flatMap (trans : ∀ a b c, le a b → le b c → le a c)
    (total : ∀ a b, le a b || le b a) {β : Type} [BEq β] [LawfulBEq β] (key : α → β)
    {keys : List β} {l : List α} (hnodup : keys.Nodup) (hkeys : ∀ a ∈ l, key a ∈ keys)
    (hblocks : InBlocks le (fun k => l.filter fun a => key a == k) keys) :
    l.mergeSort le = keys.flatMap fun k => (l.filter fun a => key a == k).mergeSort le := by
  rw [← mergeSort_flatMap trans total (List.Perm.refl keys) hnodup hblocks]
  refine mergeSort_congr trans total (flatMap_filter_perm key keys l hnodup hkeys).symm ?_
  intro a ha
  have hown : ∀ k, ∀ b ∈ l, key b = k → b ∈ l.filter fun a => key a == k :=
    fun k b hb hk => List.mem_filter.mpr ⟨hb, beq_iff_eq.mpr hk⟩
  have hapart : ∀ k ∈ keys, k ≠ key a → ∀ b ∈ l, key b = k → tie le a b = false :=
    fun k hk hka b hb hbk =>
      hblocks.tie_eq_false (hkeys a ha) hk hka (hown _ a ha rfl) (hown k b hb hbk)
  rw [filter_flatMap_of_unique keys hnodup (hkeys a ha), List.filter_filter]
  · -- what ties with the element has its key
    refine List.filter_congr ?_
    intro b hb
    rw [Bool.eq_self_and, beq_iff_eq]
    intro htie
    by_contra hkey
    rw [hapart _ (hkeys b hb) hkey b hb rfl] at htie
    cases htie
  · intro k hk hka b hb
    obtain ⟨hb, hbk⟩ := List.mem_filter.mp hb
    exact hapart k hk hka b hb (beq_iff_eq.mp hbk)

/-! ## Sorting by a comparison -/

section Comparison

variable {cmp : α → α → Ordering} [Std.TransCmp cmp]

theorem isLE_trans_of_cmp (a b c : α) (hab : (cmp a b).isLE = true) (hbc : (cmp b c).isLE = true) :
    (cmp a c).isLE = true :=
  Std.TransCmp.isLE_trans hab hbc

theorem isLE_total_of_cmp (a b : α) : ((cmp a b).isLE || (cmp b a).isLE) = true := by
  have hswap : cmp b a = (cmp a b).swap := Std.OrientedCmp.eq_swap
  rw [hswap]
  cases cmp a b <;> rfl

theorem tie_cmp_iff (a b : α) : tie (fun x y => (cmp x y).isLE) a b = true ↔ cmp a b = .eq := by
  have hswap : cmp b a = (cmp a b).swap := Std.OrientedCmp.eq_swap
  rw [tie, hswap]
  cases cmp a b <;> decide

/-- The order of arrival is forgotten but among elements that compare equal. -/
theorem mergeSort_cmp_congr {l₁ l₂ : List α} (hperm : l₁.Perm l₂)
    (hties : ∀ a ∈ l₁, l₁.filter (fun b => cmp a b = .eq) = l₂.filter (fun b => cmp a b = .eq)) :
    l₁.mergeSort (fun x y => (cmp x y).isLE) = l₂.mergeSort (fun x y => (cmp x y).isLE) := by
  refine mergeSort_congr isLE_trans_of_cmp isLE_total_of_cmp hperm ?_
  intro a ha
  have hclass : tie (fun x y => (cmp x y).isLE) a = fun b => decide (cmp a b = .eq) := by
    funext b
    rw [Bool.eq_iff_iff, tie_cmp_iff, decide_eq_true_iff]
  rw [hclass]
  exact hties a ha

end Comparison

end Readability.Sorting
