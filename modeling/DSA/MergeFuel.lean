/-
How deep the recursion of a merge goes.  `mergeWith` bounds the nesting of
its recursive merges by twice the number of nodes plus one; the bound never
cuts a merge short.  Before it recurses, every level of a merge either
forwards one live node into another, which joins two classes, or folds a live
node, which closes an open class; every other step only coarsens the store,
and no step adds a node.  So the classes plus the open classes of the store,
at most twice its nodes, bound the depth, and any fuel above them gives the
same merge.
-/
import DSA.Allocation

namespace DSA

namespace NodeStore

/-- The classes of the arena: the representatives its nodes read through. -/
def classes (st : NodeStore) : Finset Nat := (Finset.range st.length).image st.rep

/-- The classes whose representative is not completely folded. -/
def openClasses (st : NodeStore) : Finset Nat :=
  ((Finset.range st.length).filter fun n => (st.repNode n).isNodeCompletelyFolded = false).image
    st.rep

/-- What the nesting of a merge can still use up: each level joins two
classes or closes an open one. -/
def mergeBudget (st : NodeStore) : Nat := st.classes.card + st.openClasses.card

theorem mergeBudget_le (st : NodeStore) : st.mergeBudget ≤ 2 * st.length := by
  have h₁ : st.classes.card ≤ st.length :=
    Finset.card_image_le.trans (Finset.card_range _).le
  have h₂ : st.openClasses.card ≤ st.length :=
    Finset.card_image_le.trans ((Finset.card_filter_le _ _).trans (Finset.card_range _).le)
  unfold mergeBudget
  omega

theorem mem_classes {st : NodeStore} {n : Nat} (hn : (st.node n).forward = none)
    (hnlt : n < st.length) : n ∈ st.classes :=
  Finset.mem_image.mpr ⟨n, Finset.mem_range.mpr hnlt, rep_of_forward_none st hn⟩

theorem mem_openClasses {st : NodeStore} {n : Nat} (hn : (st.node n).forward = none)
    (hnlt : n < st.length) (hopen : (st.node n).isNodeCompletelyFolded = false) :
    n ∈ st.openClasses := by
  have hrep := rep_of_forward_none st hn
  refine Finset.mem_image.mpr ⟨n, Finset.mem_filter.mpr ⟨Finset.mem_range.mpr hnlt, ?_⟩, hrep⟩
  rw [repNode, hrep]
  exact hopen

section Coarsening

variable {st st' : NodeStore} (hwf : st.WellFormed) (hc : st.Coarsens st')
  (hlen : st'.length = st.length)
include hwf hc hlen

/-- The classes after a coarsening are the images of the classes before. -/
theorem Coarsens.classes_eq : st'.classes = st.classes.image st'.rep := by
  rw [classes, classes, Finset.image_image, hlen]
  exact Finset.image_congr fun n _ => (hc.rep_eq _ _ (hwf.rep_rep n)).symm

/-- An open class after a coarsening is the image of an open class before that
is still open afterwards. -/
theorem Coarsens.openClasses_sub : st'.openClasses ⊆
    (st.openClasses.filter fun c => (st'.repNode c).isNodeCompletelyFolded = false).image st'.rep := by
  have hrep : ∀ m, st'.rep (st.rep m) = st'.rep m := fun m => hc.rep_eq _ _ (hwf.rep_rep m)
  intro c hcm
  simp only [openClasses, Finset.mem_image, Finset.mem_filter, Finset.mem_range, hlen] at hcm ⊢
  obtain ⟨m, ⟨hm, hopen⟩, rfl⟩ := hcm
  refine ⟨st.rep m, ⟨⟨m, ⟨hm, ?_⟩, rfl⟩, by rw [repNode, hrep]; exact hopen⟩, hrep m⟩
  cases h : (st.repNode m).isNodeCompletelyFolded
  · rfl
  · exact absurd (hc.hasFlag_mono m FoldedNode h)
      (by simpa [DSNode.isNodeCompletelyFolded] using hopen)

theorem Coarsens.openClasses_card_le : st'.openClasses.card ≤ st.openClasses.card :=
  (Finset.card_le_card (hc.openClasses_sub hwf hlen)).trans
    (Finset.card_image_le.trans (Finset.card_filter_le _ _))

theorem Coarsens.mergeBudget_le : st'.mergeBudget ≤ st.mergeBudget := by
  have hcl : st'.classes.card ≤ st.classes.card := by
    rw [hc.classes_eq hwf hlen]; exact Finset.card_image_le
  have hop := hc.openClasses_card_le hwf hlen
  unfold mergeBudget
  omega

/-- Joining two classes uses up budget. -/
theorem Coarsens.mergeBudget_lt_of_join {a b : Nat} (ha : a ∈ st.classes) (hb : b ∈ st.classes)
    (hab : a ≠ b) (hj : st'.rep a = st'.rep b) : st'.mergeBudget < st.mergeBudget := by
  have hcl : st'.classes.card < st.classes.card := by
    rw [hc.classes_eq hwf hlen]
    exact lt_of_le_of_ne Finset.card_image_le fun h => hab (Finset.card_image_iff.mp h ha hb hj)
  have hop := hc.openClasses_card_le hwf hlen
  unfold mergeBudget
  omega

/-- Folding an open class uses up budget. -/
theorem Coarsens.mergeBudget_lt_of_close {n : Nat} (hn : n ∈ st.openClasses)
    (hfold : (st'.repNode n).isNodeCompletelyFolded = true) :
    st'.mergeBudget < st.mergeBudget := by
  have hop : st'.openClasses.card < st.openClasses.card :=
    (Finset.card_le_card (hc.openClasses_sub hwf hlen)).trans_lt
      (Finset.card_image_le.trans_lt
        (Finset.card_lt_card (Finset.filter_ssubset.mpr ⟨n, hn, by simp [hfold]⟩)))
  have hcl : st'.classes.card ≤ st.classes.card := by
    rw [hc.classes_eq hwf hlen]; exact Finset.card_image_le
  unfold mergeBudget
  omega

end Coarsening

/-- The first step of `foldNodeCompletely` on a live node `n`: `n` marked
folded, without size, type record or links, closes the class of `n`. -/
theorem setFolded_spec {st : NodeStore} (hwf : st.WellFormed) {n : Nat}
    (hn : (st.node n).forward = none) (hnlt : n < st.length) :
    Evolves st (st.setNode n
      { (st.node n).setFlag FoldedNode with size := 0, types := [], links := [] }) ∧
    ((st.setNode n { (st.node n).setFlag FoldedNode with size := 0, types := [], links := [] }).repNode
      n).isNodeCompletelyFolded = true := by
  refine ⟨setNode_evolves rfl hwf (fun _ hx => hx)
    (fun b hb => by simp [DSNode.hasFlag, DSNode.setFlag, Nat.testBit_or] at hb ⊢; simp [hb])
    (fun x hx => ⟨n, hx⟩) (fun _ _ hl => by simp at hl), ?_⟩
  have hrep : (st.setNode n { (st.node n).setFlag FoldedNode with
      size := 0, types := [], links := [] }).rep n = n :=
    rep_of_forward_none _ (by rw [node_setNode_self _ _ _ hnlt]; exact hn)
  rw [repNode, hrep, node_setNode_self _ _ _ hnlt]
  simp [DSNode.isNodeCompletelyFolded, DSNode.hasFlag, DSNode.setFlag, Nat.testBit_or]

/-- Two loops agree when their steps agree on every state the first one
reaches. -/
theorem foldl_agree {α : Type} (f f' : NodeStore → α → NodeStore) (ok : NodeStore → α → Prop)
    (hok : ∀ st st' a, st.WellFormed → ok st a → Evolves st st' → st'.length = st.length →
      ok st' a)
    (hf : ∀ st a, st.WellFormed → ok st a → Evolves st (f st a) ∧ (f st a).length = st.length)
    (heq : ∀ st a, st.WellFormed → ok st a → f st a = f' st a) :
    ∀ (l : List α) (st : NodeStore), st.WellFormed → (∀ a ∈ l, ok st a) →
      l.foldl f st = l.foldl f' st
  | [], _, _, _ => rfl
  | a :: l, st, hwf, hl => by
      have ha := hl a (List.mem_cons_self _ _)
      obtain ⟨he, hlen⟩ := hf st a hwf ha
      rw [List.foldl_cons, List.foldl_cons, ← heq st a hwf ha]
      exact foldl_agree f f' ok hok hf heq l _ he.1
        fun b hb => hok _ _ b hwf (hl b (List.mem_cons_of_mem _ hb)) he hlen

section Agree

variable {merge merge' : NodeStore → DSNodeHandle → DSNodeHandle → NodeStore}
  (hm : IsCoarsening merge) (hml : ∀ st h1 h2, (merge st h1 h2).length = st.length) {k : Nat}
  (hagree : ∀ st h1 h2, st.WellFormed → h1.node < st.length → h2.node < st.length →
    st.mergeBudget < k → merge st h1 h2 = merge' st h1 h2)
include hm hml hagree

theorem addEdges_agree {st : NodeStore} (hwf : st.WellFormed)
    (dst : Nat × DSNodeHandle → DSNodeHandle) (links : List (Nat × DSNodeHandle))
    (hlinks : ∀ l ∈ links, l.2.node < st.length) (hk : st.mergeBudget < k) :
    links.foldl (fun st l => addEdgeTo merge st (dst l) l.2) st =
      links.foldl (fun st l => addEdgeTo merge' st (dst l) l.2) st := by
  refine foldl_agree _ _ (fun st l => l.2.node < st.length ∧ st.mergeBudget < k)
    (fun st st' _ hwf hl he hlen => ⟨hlen ▸ hl.1, (he.2.mergeBudget_le hwf hlen).trans_lt hl.2⟩)
    (fun st l hwf hl => ⟨addEdgeTo_evolves hm hwf _ hl.1, length_addEdgeTo hml _ _ _⟩)
    (fun st l hwf hl => ?_) links st hwf fun l hl => ⟨hlinks l hl, hk⟩
  unfold addEdgeTo
  dsimp only
  cases he : (st.node (st.normalize (dst l)).node).getLink (st.normalize (dst l)).offset with
  | none => rfl
  | some e =>
      exact hagree st e l.2 hwf (hwf.link_lt _ _ _ (DSNode.mem_links_of_getLink he)) hl.1 hl.2

theorem foldNodeCompletely_agree {st : NodeStore} (hwf : st.WellFormed) {n : Nat}
    (hn : (st.node n).forward = none) (hnlt : n < st.length) (hk : st.mergeBudget ≤ k) :
    foldNodeCompletely merge st n = foldNodeCompletely merge' st n := by
  unfold foldNodeCompletely
  dsimp only
  split_ifs with hfold
  · rfl
  · obtain ⟨h₁, hclosed⟩ := setFolded_spec hwf hn hnlt
    have hlen₁ := length_setNode st n
      { (st.node n).setFlag FoldedNode with size := 0, types := [], links := [] }
    have hk₁ := (h₁.2.mergeBudget_lt_of_close hwf hlen₁
      (mem_openClasses hn hnlt (Bool.eq_false_iff.mpr hfold)) hclosed).trans_le hk
    exact addEdges_agree hm hml hagree h₁.1 _ _
      (fun l hl => hlen₁ ▸ hwf.link_lt n l.1 l.2 hl) hk₁

theorem installTypes_agree {st : NodeStore} (hwf : st.WellFormed)
    (dst : Nat × Nat × Nat → DSNodeHandle) (types : List (Nat × Nat × Nat))
    (hdst : ∀ t ∈ types, (dst t).node < st.length) (hk : st.mergeBudget ≤ k) :
    types.foldl (fun st t => installType merge st (dst t) t.2) st =
      types.foldl (fun st t => installType merge' st (dst t) t.2) st := by
  refine foldl_agree _ _ (fun st t => (dst t).node < st.length ∧ st.mergeBudget ≤ k)
    (fun st st' _ hwf ht he hlen => ⟨hlen ▸ ht.1, (he.2.mergeBudget_le hwf hlen).trans ht.2⟩)
    (fun st t hwf _ => ⟨installType_evolves hm hwf _ _, length_installType hml _ _ _⟩)
    (fun st t hwf ht => ?_) types st hwf fun t ht => ⟨hdst t ht, hk⟩
  unfold installType
  dsimp only
  split_ifs
  · rfl
  · exact foldNodeCompletely_agree hm hml hagree hwf (hwf.normalize_forward _)
      (hwf.normalize_lt ht.1) ht.2
  · rfl

theorem mergeNodes_agree {st : NodeStore} (hwf : st.WellFormed) {r s : DSNodeHandle}
    (hrs : r.node ≠ s.node) (hr : (st.node r.node).forward = none)
    (hs : (st.node s.node).forward = none) (hrlt : r.node < st.length)
    (hslt : s.node < st.length) (hk : st.mergeBudget ≤ k) :
    mergeNodes merge st r s = mergeNodes merge' st r s := by
  obtain ⟨h₁, hrep_s, hrep_r⟩ := absorb_spec hwf hrs hr hs hrlt hslt
  have hlen₁ : (st.absorb r s).length = st.length := by simp [absorb]
  have hk₁ := (h₁.2.mergeBudget_lt_of_join hwf hlen₁ (mem_classes hr hrlt) (mem_classes hs hslt)
    hrs (hrep_r.trans hrep_s.symm)).trans_le hk
  have hlinks : ∀ l ∈ (st.node s.node).links, l.2.node < (st.absorb r s).length :=
    fun l hl => hlen₁ ▸ hwf.link_lt s.node l.1 l.2 hl
  have h₂ := addEdges_evolves hm h₁.1
    (fun l => ⟨r.node, (l.1 + (r.offset - s.offset : Int)).toNat⟩) _ hlinks
  have hlen₂ := foldl_keeps length (fun st (l : Nat × DSNodeHandle) => addEdgeTo merge st
    ⟨r.node, (l.1 + (r.offset - s.offset : Int)).toNat⟩ l.2)
    (fun st l => length_addEdgeTo hml st _ _) (st.node s.node).links (st.absorb r s)
  unfold mergeNodes
  dsimp only
  rw [← addEdges_agree hm hml hagree h₁.1
    (fun l => ⟨r.node, (l.1 + (r.offset - s.offset : Int)).toNat⟩) _ hlinks hk₁]
  exact installTypes_agree hm hml hagree h₂.1 _ _ (fun _ _ => by simpa [hlen₂, hlen₁] using hrlt)
    ((h₂.2.mergeBudget_le h₁.1 hlen₂).trans hk₁.le)

end Agree

/-- Once the fuel exceeds the budget, more fuel changes no merge. -/
theorem mergeWithFuel_agree : ∀ (fuel fuel' : Nat), fuel ≤ fuel' →
    ∀ (st : NodeStore) (h1 h2 : DSNodeHandle), st.WellFormed → h1.node < st.length →
      h2.node < st.length → st.mergeBudget < fuel →
        mergeWithFuel fuel' st h1 h2 = mergeWithFuel fuel st h1 h2
  | 0, _, _, _, _, _, _, _, _, hk => absurd hk (Nat.not_lt_zero _)
  | _ + 1, 0, hle, _, _, _, _, _, _, _ => absurd hle (Nat.not_succ_le_zero _)
  | fuel + 1, fuel' + 1, hle, st, h1, h2, hwf, h1lt, h2lt, hk => by
      have ih := mergeWithFuel_agree fuel fuel' (Nat.le_of_succ_le_succ hle)
      have hm := mergeWithFuel_isCoarsening fuel'
      have hml := length_mergeWithFuel fuel'
      have hk' := Nat.le_of_lt_succ hk
      unfold mergeWithFuel
      dsimp only
      split_ifs with hab hoff hsize
      · rfl
      · exact foldNodeCompletely_agree hm hml ih hwf (hwf.normalize_forward _)
          (hwf.normalize_lt h1lt) hk'
      · exact mergeNodes_agree hm hml ih hwf (Ne.symm hab) (hwf.normalize_forward _)
          (hwf.normalize_forward _) (hwf.normalize_lt h2lt) (hwf.normalize_lt h1lt) hk'
      · exact mergeNodes_agree hm hml ih hwf hab (hwf.normalize_forward _)
          (hwf.normalize_forward _) (hwf.normalize_lt h1lt) (hwf.normalize_lt h2lt) hk'

/-- The nesting of the recursive merge never exhausts its bound: the classes
plus the open classes of the store bound its depth, so every fuel above them
gives the merge `mergeWith` computes. -/
theorem mergeWithFuel_eq_mergeWith {st : NodeStore} (hwf : st.WellFormed) {h1 h2 : DSNodeHandle}
    (h1lt : h1.node < st.length) (h2lt : h2.node < st.length) {fuel : Nat}
    (hfuel : st.mergeBudget < fuel) : mergeWithFuel fuel st h1 h2 = st.mergeWith h1 h2 := by
  have hb := st.mergeBudget_le
  have h₁ := mergeWithFuel_agree fuel (max fuel (2 * st.length + 1)) (le_max_left _ _)
    st h1 h2 hwf h1lt h2lt hfuel
  have h₂ := mergeWithFuel_agree (2 * st.length + 1) (max fuel (2 * st.length + 1))
    (le_max_right _ _) st h1 h2 hwf h1lt h2lt (by omega)
  rw [mergeWith, ← h₁, h₂]

/-- Two nodes of four bytes, each linking to itself at offset zero and typed
differently there: merging them recurses on the links and folds on the types. -/
def selfLoopStore : NodeStore :=
  ⟨[{ size := 4, types := [(0, 1, 4)], links := [(0, ⟨0, 0⟩)] },
    { size := 4, types := [(0, 2, 4)], links := [(0, ⟨1, 0⟩)] }]⟩

theorem mergeWithFuel_eq_mergeWith_selfLoop : selfLoopStore.WellFormed ∧
    selfLoopStore.mergeBudget < 5 ∧
    mergeWithFuel 5 selfLoopStore ⟨0, 0⟩ ⟨1, 0⟩ = selfLoopStore.mergeWith ⟨0, 0⟩ ⟨1, 0⟩ :=
  ⟨by decide, by decide,
    mergeWithFuel_eq_mergeWith (by decide) (by decide) (by decide) (by decide)⟩

example : (selfLoopStore.mergeWith ⟨0, 0⟩ ⟨1, 0⟩).rep 1 = 0 ∧
    (selfLoopStore.mergeWith ⟨0, 0⟩ ⟨1, 0⟩).repNode 1 =
      { size := 0, nodeType := 1 <<< FoldedNode, links := [(0, ⟨0, 0⟩)],
        forward := none } := by
  decide

end NodeStore

end DSA
