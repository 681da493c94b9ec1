/-
Merges never lose a points-to edge.  Seen through classes, node `n` points to
node `m` when the representative of `n` holds a link into the class of `m`.
A merge keeps every such edge: forwarding moves the absorbed node's links to
the representative through `addEdgeTo`, which merges a link with the one
already at its offset, and folding re-adds every link at offset zero.  This
needs every nested merge to have fuel left, which the budget of the store
guarantees.  So `mergeWith`, both drivers' resolution steps and every state
of their fixpoint loops keep each edge of the entry graph: the result graph
is sound for the local graphs it started from.
-/
import DSA.MergeFuel

namespace DSA

namespace NodeStore

/-- Class-level points-to: the representative of `n` holds a link into the
class of `m`. -/
def PointsTo (st : NodeStore) (n m : Nat) : Prop :=
  ∃ l ∈ (st.repNode n).links, st.rep l.2.node = st.rep m

/-- `st'` keeps every class-level edge of `st`. -/
def KeepsEdges (st st' : NodeStore) : Prop := ∀ n m, st.PointsTo n m → st'.PointsTo n m

theorem KeepsEdges.refl (st : NodeStore) : KeepsEdges st st := fun _ _ h => h

theorem KeepsEdges.trans {st₁ st₂ st₃ : NodeStore} (h₁ : KeepsEdges st₁ st₂)
    (h₂ : KeepsEdges st₂ st₃) : KeepsEdges st₁ st₃ := fun n m h => h₂ n m (h₁ n m h)

variable {st st' : NodeStore}

theorem PointsTo.source {n n' m : Nat} (h : st.PointsTo n m) (hn : st.rep n = st.rep n') :
    st.PointsTo n' m := by
  obtain ⟨l, hl, hr⟩ := h
  exact ⟨l, by rwa [repNode, ← hn], hr⟩

theorem PointsTo.target {n m m' : Nat} (h : st.PointsTo n m) (hm : st.rep m = st.rep m') :
    st.PointsTo n m' := by
  obtain ⟨l, hl, hr⟩ := h
  exact ⟨l, hl, hr.trans hm⟩

/-- A record rewritten without touching its forwarding link, and keeping its
links, keeps every edge. -/
theorem keepsEdges_setNode {k : Nat} {N : DSNode} (hfwd : N.forward = (st.node k).forward)
    (hsub : ∀ l ∈ (st.node k).links, l ∈ N.links) : KeepsEdges st (st.setNode k N) := by
  rintro n m ⟨l, hl, hr⟩
  refine ⟨l, ?_, by simpa only [rep_setNode hfwd] using hr⟩
  rw [repNode_setNode hfwd]
  split_ifs with h
  · exact hsub l (by rw [h.1]; exact hl)
  · exact hl

/-- Rewriting another class's representative keeps the edges of `n`. -/
theorem PointsTo.setNode_of_ne {k n m : Nat} {N : DSNode} (hfwd : N.forward = (st.node k).forward)
    (h : st.PointsTo n m) (hn : st.rep n ≠ k) : (st.setNode k N).PointsTo n m := by
  obtain ⟨l, hl, hr⟩ := h
  refine ⟨l, ?_, by simpa only [rep_setNode hfwd] using hr⟩
  rw [repNode_setNode hfwd, if_neg fun h => hn h.1.symm]
  exact hl

theorem keepsEdges_createNode : KeepsEdges st st.createNode := by
  rintro n m ⟨l, hl, hr⟩
  exact ⟨l, by simpa [repNode] using hl, by simpa using hr⟩

/-- Absorbing `s` into `r` keeps the edges of every class but that of `s`,
whose links `mergeNodes` re-adds afterwards. -/
theorem absorb_pointsTo (hwf : st.WellFormed) {r s : DSNodeHandle} (hrs : r.node ≠ s.node)
    (hr : (st.node r.node).forward = none) (hs : (st.node s.node).forward = none)
    (hrlt : r.node < st.length) (hslt : s.node < st.length) {n m : Nat} (h : st.PointsTo n m)
    (hn : st.rep n ≠ s.node) : (st.absorb r s).PointsTo n m := by
  have hc := (absorb_spec hwf hrs hr hs hrlt hslt).1.2
  have hfwd := unite_forward (st.node r.node) (st.node s.node) (r.offset - s.offset)
  set st₁ := st.setNode r.node (unite (st.node r.node) (st.node s.node) (r.offset - s.offset))
  have hs₁ : (st₁.node s.node).forward = none := by rw [node_setNode_ne _ _ hrs]; exact hs
  have hslt₁ : s.node < st₁.length := by simpa [st₁] using hslt
  have hn₁ : st₁.rep n ≠ s.node := by rwa [rep_setNode hfwd]
  obtain ⟨l, hl, hlr⟩ := keepsEdges_setNode hfwd (fun l hl => hl) n m h
  refine ⟨l, ?_, hc.rep_eq _ _ (by simpa only [st₁, rep_setNode hfwd] using hlr)⟩
  rw [repNode, show st.absorb r s = st₁.forwardNode s.node r.node (r.offset - s.offset) from rfl,
    rep_forwardNode hs₁ hslt₁, if_neg hn₁, node_forwardNode, if_neg fun h => hn₁ h.1.symm,
    redirect_links]
  exact hl

section Step

variable {merge : NodeStore → DSNodeHandle → DSNodeHandle → NodeStore}
  (hm : IsCoarsening merge) (hml : ∀ st h1 h2, (merge st h1 h2).length = st.length) {k : Nat}
  (hkeep : ∀ st h1 h2, st.WellFormed → h1.node < st.length → h2.node < st.length →
    st.mergeBudget < k →
      KeepsEdges st (merge st h1 h2) ∧ (merge st h1 h2).rep h1.node = (merge st h1 h2).rep h2.node)
include hm hml hkeep

omit hm hml in
/-- `addEdgeTo` keeps every edge and adds one from the class of `dst` to the
class of `h`. -/
theorem addEdgeTo_keepsEdges (hwf : st.WellFormed) {dst h : DSNodeHandle}
    (hdst : dst.node < st.length) (hh : h.node < st.length) (hk : st.mergeBudget < k) :
    KeepsEdges st (addEdgeTo merge st dst h) ∧ (addEdgeTo merge st dst h).PointsTo dst.node h.node := by
  unfold addEdgeTo
  dsimp only
  split
  · next e he =>
      have hel := DSNode.mem_links_of_getLink he
      obtain ⟨hke, hj⟩ := hkeep st e h hwf (hwf.link_lt _ _ _ hel) hh hk
      have hpt : st.PointsTo dst.node e.node := ⟨_, by rwa [repNode, ← normalize_node], rfl⟩
      exact ⟨hke, (hke _ _ hpt).target hj⟩
  · next hnone =>
      have hold : ∀ l ∈ (st.node (st.normalize dst).node).links,
          l ∈ ((st.node (st.normalize dst).node).setLink (st.normalize dst).offset h).links := by
        intro l hl
        have hne : (st.normalize dst).offset ≠ l.1 := by
          simpa using List.lookup_eq_none_iff.mp hnone l hl
        exact List.mem_cons_of_mem _ (List.mem_filter.mpr ⟨hl, by simpa using hne.symm⟩)
      refine ⟨keepsEdges_setNode rfl hold, ⟨((st.normalize dst).offset, h), ?_, rfl⟩⟩
      rw [repNode, rep_setNode (DSNode.setLink_forward _ _ _), ← normalize_node,
        node_setNode_self _ _ _ (hwf.normalize_lt hdst)]
      exact List.mem_cons_self _ _

/-- Adding a list of links keeps every edge and adds one for each link. -/
theorem addEdges_keepsEdges (dst : Nat × DSNodeHandle → DSNodeHandle) :
    ∀ (links : List (Nat × DSNodeHandle)) {st : NodeStore}, st.WellFormed →
      (∀ l ∈ links, (dst l).node < st.length ∧ l.2.node < st.length) → st.mergeBudget < k →
      let st' := links.foldl (fun st l => addEdgeTo merge st (dst l) l.2) st
      KeepsEdges st st' ∧ ∀ l ∈ links, st'.PointsTo (dst l).node l.2.node
  | [], _, _, _, _ => ⟨KeepsEdges.refl _, fun _ hl => absurd hl (List.not_mem_nil _)⟩
  | a :: links, st, hwf, hl, hk => by
      obtain ⟨hda, hla⟩ := hl a (List.mem_cons_self _ _)
      obtain ⟨hke₁, hpt₁⟩ := addEdgeTo_keepsEdges hkeep hwf hda hla hk
      have he₁ := addEdgeTo_evolves hm hwf (dst a) hla
      have hlen₁ := length_addEdgeTo hml st (dst a) a.2
      obtain ⟨hke₂, hpt₂⟩ := addEdges_keepsEdges dst links he₁.1
        (fun l hl' => hlen₁ ▸ hl l (List.mem_cons_of_mem _ hl'))
        ((he₁.2.mergeBudget_le hwf hlen₁).trans_lt hk)
      refine ⟨hke₁.trans hke₂, fun l hl' => ?_⟩
      rcases List.mem_cons.mp hl' with rfl | hl'
      · exact hke₂ _ _ hpt₁
      · exact hpt₂ l hl'

/-- Folding a live node keeps every edge: its links come back at offset
zero. -/
theorem foldNodeCompletely_keepsEdges (hwf : st.WellFormed) {n : Nat}
    (hn : (st.node n).forward = none) (hnlt : n < st.length) (hk : st.mergeBudget ≤ k) :
    KeepsEdges st (foldNodeCompletely merge st n) := by
  unfold foldNodeCompletely
  dsimp only
  split_ifs with hfold
  · exact KeepsEdges.refl st
  · obtain ⟨h₁, hclosed⟩ := setFolded_spec hwf hn hnlt
    have hlen₁ := length_setNode st n
      { (st.node n).setFlag FoldedNode with size := 0, types := [], links := [] }
    have hk₁ := (h₁.2.mergeBudget_lt_of_close hwf hlen₁
      (mem_openClasses hn hnlt (Bool.eq_false_iff.mpr hfold)) hclosed).trans_le hk
    have hlinks : ∀ l ∈ (st.node n).links, l.2.node < st.length := fun l hl =>
      hwf.link_lt n l.1 l.2 hl
    obtain ⟨hke, hpt⟩ := addEdges_keepsEdges hm hml hkeep (fun _ => ⟨n, 0⟩) _ h₁.1
      (fun l hl => hlen₁ ▸ ⟨hnlt, hlinks l hl⟩) hk₁
    have hc := h₁.2.trans (addEdges_evolves hm h₁.1 (fun _ => ⟨n, 0⟩) _
      (fun l hl => hlen₁ ▸ hlinks l hl)).2
    intro a m ha
    by_cases han : st.rep a = n
    · obtain ⟨l, hl, hr⟩ := ha
      rw [repNode, han] at hl
      exact ((hpt l hl).source (hc.rep_eq _ _ (han.trans (rep_of_forward_none st hn).symm)).symm).target
        (hc.rep_eq _ _ hr)
    · exact hke _ _ (ha.setNode_of_ne rfl han)

theorem installType_keepsEdges (hwf : st.WellFormed) {dst : DSNodeHandle} (hdst : dst.node < st.length)
    (t : Nat × Nat) (hk : st.mergeBudget ≤ k) : KeepsEdges st (installType merge st dst t) := by
  unfold installType
  dsimp only
  split_ifs
  · exact KeepsEdges.refl st
  · exact foldNodeCompletely_keepsEdges hm hml hkeep hwf (hwf.normalize_forward _)
      (hwf.normalize_lt hdst) hk
  · exact keepsEdges_setNode rfl fun _ hl => hl

theorem installTypes_keepsEdges (dst : Nat × Nat × Nat → DSNodeHandle) :
    ∀ (types : List (Nat × Nat × Nat)) {st : NodeStore}, st.WellFormed →
      (∀ t ∈ types, (dst t).node < st.length) → st.mergeBudget ≤ k →
      KeepsEdges st (types.foldl (fun st t => installType merge st (dst t) t.2) st)
  | [], _, _, _, _ => KeepsEdges.refl _
  | t :: types, st, hwf, hd, hk => by
      have he₁ := installType_evolves hm hwf (dst t) t.2
      have hlen₁ := length_installType hml st (dst t) t.2
      exact (installType_keepsEdges hm hml hkeep hwf (hd t (List.mem_cons_self _ _)) t.2 hk).trans
        (installTypes_keepsEdges dst types he₁.1 (fun t' ht => hlen₁ ▸ hd t' (List.mem_cons_of_mem _ ht))
          ((he₁.2.mergeBudget_le hwf hlen₁).trans hk))

/-- Merging two live nodes keeps every edge: those of the absorbed class
through the links re-added to the representative. -/
theorem mergeNodes_keepsEdges (hwf : st.WellFormed) {r s : DSNodeHandle}
    (hrs : r.node ≠ s.node) (hr : (st.node r.node).forward = none)
    (hs : (st.node s.node).forward = none) (hrlt : r.node < st.length)
    (hslt : s.node < st.length) (hk : st.mergeBudget ≤ k) :
    KeepsEdges st (mergeNodes merge st r s) := by
  obtain ⟨h₁, hrep_s, hrep_r⟩ := absorb_spec hwf hrs hr hs hrlt hslt
  have hlen₁ : (st.absorb r s).length = st.length := by simp [absorb]
  have hk₁ := (h₁.2.mergeBudget_lt_of_join hwf hlen₁ (mem_classes hr hrlt) (mem_classes hs hslt)
    hrs (hrep_r.trans hrep_s.symm)).trans_le hk
  let dst := fun l : Nat × DSNodeHandle => (⟨r.node, (l.1 + (r.offset - s.offset : Int)).toNat⟩ :
    DSNodeHandle)
  have hlinks : ∀ l ∈ (st.node s.node).links, l.2.node < (st.absorb r s).length :=
    fun l hl => hlen₁ ▸ hwf.link_lt s.node l.1 l.2 hl
  obtain ⟨hke₂, hpt₂⟩ := addEdges_keepsEdges hm hml hkeep dst _ h₁.1
    (fun l hl => ⟨hlen₁ ▸ hrlt, hlinks l hl⟩) hk₁
  have h₂ := addEdges_evolves hm h₁.1 dst _ hlinks
  have hlen₂ := foldl_keeps length (fun st (l : Nat × DSNodeHandle) => addEdgeTo merge st (dst l) l.2)
    (fun st l => length_addEdgeTo hml st _ _) (st.node s.node).links (st.absorb r s)
  have hke₃ := installTypes_keepsEdges hm hml hkeep
    (fun t => ⟨r.node, (t.1 + (r.offset - s.offset : Int)).toNat⟩) (st.node s.node).types h₂.1
    (fun _ _ => by simpa [hlen₂, hlen₁] using hrlt) ((h₂.2.mergeBudget_le h₁.1 hlen₂).trans hk₁.le)
  have hc := h₁.2.trans h₂.2
  unfold mergeNodes
  dsimp only
  intro a m ha
  refine hke₃ a m ?_
  by_cases has : st.rep a = s.node
  · obtain ⟨l, hl, hlr⟩ := ha
    rw [repNode, has] at hl
    have hsrc : (st.absorb r s).rep r.node = (st.absorb r s).rep a :=
      hrep_r.trans (hrep_s.symm.trans (h₁.2.rep_eq _ _ (has.trans (rep_of_forward_none st hs).symm)).symm)
    exact ((hpt₂ l hl).source (h₂.2.rep_eq _ _ hsrc)).target (hc.rep_eq _ _ hlr)
  · exact hke₂ _ _ (absorb_pointsTo hwf hrs hr hs hrlt hslt ha has)

end Step

/-- A merge with more fuel than the budget keeps every edge and joins its two
handles. -/
theorem mergeWithFuel_keepsEdges : ∀ (fuel : Nat) (st : NodeStore) (h1 h2 : DSNodeHandle),
    st.WellFormed → h1.node < st.length → h2.node < st.length → st.mergeBudget < fuel →
    KeepsEdges st (mergeWithFuel fuel st h1 h2) ∧
      (mergeWithFuel fuel st h1 h2).rep h1.node = (mergeWithFuel fuel st h1 h2).rep h2.node
  | 0, _, _, _, _, _, _, hk => absurd hk (Nat.not_lt_zero _)
  | fuel + 1, st, h1, h2, hwf, h1lt, h2lt, hk => by
      have ih := mergeWithFuel_keepsEdges fuel
      have hm := mergeWithFuel_isCoarsening fuel
      have hml := length_mergeWithFuel fuel
      have hk' := Nat.le_of_lt_succ hk
      refine ⟨?_, mergeWithFuel_rep_eq hwf fuel h1lt h2lt⟩
      unfold mergeWithFuel
      dsimp only
      split_ifs with hab hoff hsize
      · exact KeepsEdges.refl st
      · exact foldNodeCompletely_keepsEdges hm hml ih hwf (hwf.normalize_forward _)
          (hwf.normalize_lt h1lt) hk'
      · exact mergeNodes_keepsEdges hm hml ih hwf (Ne.symm hab) (hwf.normalize_forward _)
          (hwf.normalize_forward _) (hwf.normalize_lt h2lt) (hwf.normalize_lt h1lt) hk'
      · exact mergeNodes_keepsEdges hm hml ih hwf hab (hwf.normalize_forward _)
          (hwf.normalize_forward _) (hwf.normalize_lt h1lt) (hwf.normalize_lt h2lt) hk'

theorem mergeWith_keepsEdges (hwf : st.WellFormed) {h1 h2 : DSNodeHandle}
    (h1lt : h1.node < st.length) (h2lt : h2.node < st.length) :
    KeepsEdges st (st.mergeWith h1 h2) :=
  (mergeWithFuel_keepsEdges _ st h1 h2 hwf h1lt h2lt (by have := st.mergeBudget_le; omega)).1

end NodeStore

namespace DSGraph

/-- `g'` evolves from `g` and keeps every class-level edge of its store. -/
def Grows (g g' : DSGraph) : Prop := Evolves g g' ∧ g.store.KeepsEdges g'.store

theorem Grows.refl {g : DSGraph} (hwf : g.WellFormed) : Grows g g :=
  ⟨Evolves.refl hwf, NodeStore.KeepsEdges.refl _⟩

theorem Grows.trans {g₁ g₂ g₃ : DSGraph} (h₁ : Grows g₁ g₂) (h₂ : Grows g₂ g₃) : Grows g₁ g₃ :=
  ⟨h₁.1.trans h₂.1, h₁.2.trans h₂.2⟩

variable {g : DSGraph}

theorem mergeWith_grows (hwf : g.WellFormed) {h1 h2 : DSNodeHandle}
    (h1lt : h1.node < g.store.length) (h2lt : h2.node < g.store.length) :
    Grows g (g.mergeWith h1 h2) :=
  ⟨mergeWith_evolves hwf h1lt h2lt, NodeStore.mergeWith_keepsEdges hwf.store h1lt h2lt⟩

theorem mergeOpt_grows (hwf : g.WellFormed) {o1 o2 : Option DSNodeHandle}
    (h1lt : ∀ h ∈ o1, h.node < g.store.length) (h2lt : ∀ h ∈ o2, h.node < g.store.length) :
    Grows g (g.mergeOpt o1 o2) := by
  cases o1 <;> cases o2
  all_goals first
    | exact Grows.refl hwf
    | exact mergeWith_grows hwf (h1lt _ rfl) (h2lt _ rfl)

theorem getNodeForValue_grows (hwf : g.WellFormed) (v : Nat) : Grows g (g.getNodeForValue v).1 := by
  refine ⟨(getNodeForValue_evolves hwf v).1, ?_⟩
  unfold getNodeForValue
  split
  · exact NodeStore.KeepsEdges.refl _
  · exact NodeStore.keepsEdges_createNode

theorem getNodesForValues_grows : ∀ (vs : List Nat) {g : DSGraph}, g.WellFormed →
    Grows g (g.getNodesForValues vs).1
  | [], _, hwf => Grows.refl hwf
  | v :: vs, _, hwf =>
      have h₁ := getNodeForValue_grows hwf v
      h₁.trans (getNodesForValues_grows vs h₁.1.wf)

/-- A loop of growing steps grows, when what each step needs of its item
survives evolution. -/
theorem foldl_grows {α : Type} (f : DSGraph → α → DSGraph) (ok : DSGraph → α → Prop)
    (hok : ∀ g g' a, ok g a → Evolves g g' → ok g' a)
    (hf : ∀ g a, g.WellFormed → ok g a → Grows g (f g a)) :
    ∀ (l : List α) (g : DSGraph), g.WellFormed → (∀ a ∈ l, ok g a) → Grows g (l.foldl f g)
  | [], _, hwf, _ => Grows.refl hwf
  | a :: l, g, hwf, hl => by
      have ha := hf g a hwf (hl a (List.mem_cons_self _ _))
      exact ha.trans (foldl_grows f ok hok hf l _ ha.1.wf
        (fun b hb => hok _ _ b (hl b (List.mem_cons_of_mem _ hb)) ha.1))

theorem extras_grows (hwf : g.WellFormed) {va : Option DSNodeHandle}
    (hva : ∀ h ∈ va, h.node < g.store.length) (extras : List DSNodeHandle)
    (hex : InArena g extras) :
    Grows g (extras.foldl (fun g h => g.mergeOpt va (some h)) g) :=
  foldl_grows _ (fun g h => (∀ x ∈ va, x.node < g.store.length) ∧ h.node < g.store.length)
    (fun _ _ _ hh hg => ⟨fun x hx => hg.lt (hh.1 x hx), hg.lt hh.2⟩)
    (fun _ _ hwf hh => mergeOpt_grows hwf hh.1 (fun _ hx => by cases hx; exact hh.2))
    extras g hwf (fun h hh => ⟨hva, hex h hh⟩)

theorem bindArguments_grows {va : Option DSNodeHandle} :
    ∀ {g : DSGraph} (fs as : List DSNodeHandle), g.WellFormed →
      (∀ h ∈ va, h.node < g.store.length) → InArena g fs → InArena g as →
      Grows g (g.bindArguments va fs as)
  | g, f :: fs, a :: as, hwf, hva, hfs, has => by
      have h₁ := mergeWith_grows hwf (hfs f (List.mem_cons_self _ _)) (has a (List.mem_cons_self _ _))
      exact h₁.trans (bindArguments_grows fs as h₁.1.wf (fun x hx => h₁.1.lt (hva x hx))
        (fun x hx => h₁.1.lt (hfs x (List.mem_cons_of_mem _ hx)))
        (fun x hx => h₁.1.lt (has x (List.mem_cons_of_mem _ hx))))
  | g, [], extras, hwf, hva, _, has => by
      simpa only [bindArguments] using extras_grows hwf hva extras has
  | g, _ :: _, [], hwf, hva, hfs, _ => by
      simpa only [bindArguments] using extras_grows hwf hva _ hfs

/-- `mergeInGraph` keeps every edge of the graph. -/
theorem mergeInGraph_grows (hwf : g.WellFormed) {cs : DSCallSite} (hcs : InArena g cs.handles)
    (F : Function) : Grows g (g.mergeInGraph cs F) := by
  obtain ⟨-, hlen, hlook⟩ := getNodesForValues_evolves hwf (F.ptrArgs.map (·.value))
  set r := g.getNodesForValues (F.ptrArgs.map (·.value))
  have h₁ : Grows g r.1 := getNodesForValues_grows _ hwf
  set g₂ := r.1.mergeOpt (r.1.getReturnNodeFor F.id) cs.retVal
  have h₂ : Grows r.1 g₂ := mergeOpt_grows h₁.1.wf (fun h hh => h₁.1.wf.getReturnNodeFor_lt hh)
    (fun h hh => (hcs.mono h₁.1) h (DSCallSite.retVal_mem_handles hh))
  set g₃ := g₂.mergeOpt (g₂.getVANodeFor F.id) cs.vaVal
  have h₃ : Grows g₂ g₃ := mergeOpt_grows h₂.1.wf (fun h hh => h₂.1.wf.getVANodeFor_lt hh)
    (fun h hh => (hcs.mono (h₁.1.trans h₂.1)) h (DSCallSite.vaVal_mem_handles hh))
  have h₁₃ := h₁.trans (h₂.trans h₃)
  have hva : ∀ h ∈ (match g₃.getVANodeFor F.id with
      | some h => some h
      | none => cs.vaVal), h.node < g₃.store.length := by
    intro h hh
    split at hh
    · next x hx => cases hh; exact h₃.1.wf.getVANodeFor_lt hx
    · exact hcs.mono h₁₃.1 h (DSCallSite.vaVal_mem_handles hh)
  have hformals : InArena g₃ r.2 := by
    intro h hh
    obtain ⟨k, hk, rfl⟩ := List.getElem_of_mem hh
    have := hlook k (by simpa [hlen] using hk)
    exact (h₂.1.trans h₃.1).lt (h₁.1.wf.lookup_lt (this.trans (List.getElem?_eq_getElem hk)))
  have hargs : InArena g₃ cs.ptrArgs := fun h hh => hcs.mono h₁₃.1 h (DSCallSite.ptrArg_mem_handles hh)
  exact h₁₃.trans (bindArguments_grows r.2 cs.ptrArgs h₃.1.wf hva hformals hargs)

theorem resolvePtrArgs_grows {valMap : List (Nat × DSNodeHandle)} :
    ∀ {g : DSGraph} (args : List Argument) (ps : List DSNodeHandle), g.WellFormed →
      MapInArena g valMap → InArena g ps → Grows g (resolvePtrArgs valMap g args ps)
  | g, a :: as, p :: ps, hwf, hvm, hps => by
      simp only [resolvePtrArgs]
      split
      · next h hh =>
          have h₁ := mergeWith_grows hwf (hvm _ _ (mem_of_lookup_eq_some hh))
            (hps p (List.mem_cons_self _ _))
          exact h₁.trans (resolvePtrArgs_grows as ps h₁.1.wf (fun v x hx => h₁.1.lt (hvm v x hx))
            (fun x hx => h₁.1.lt (hps x (List.mem_cons_of_mem _ hx))))
      · exact resolvePtrArgs_grows as (p :: ps) hwf hvm hps
  | g, [], _, hwf, _, _ => by simpa only [resolvePtrArgs] using Grows.refl hwf
  | g, _ :: _, [], hwf, _, _ => by simpa only [resolvePtrArgs] using Grows.refl hwf

/-- `ResolveFunctionCall` keeps every edge of the graph. -/
theorem resolveFunctionCall_grows (hwf : g.WellFormed) {cs : DSCallSite}
    (hcs : InArena g cs.handles) (F : Function) : Grows g (g.resolveFunctionCall F cs) := by
  set g₂ := g.mergeOpt (g.getReturnNodeFor F.id) cs.retVal
  have h₂ : Grows g g₂ := mergeOpt_grows hwf (fun h hh => hwf.getReturnNodeFor_lt hh)
    (fun h hh => hcs h (DSCallSite.retVal_mem_handles hh))
  have h₃ : Grows g₂ (g₂.mergeOpt (g₂.getVANodeFor F.id) cs.vaVal) :=
    mergeOpt_grows h₂.1.wf (fun h hh => h₂.1.wf.getVANodeFor_lt hh)
      (fun h hh => hcs.mono h₂.1 h (DSCallSite.vaVal_mem_handles hh))
  have h₂₃ := h₂.trans h₃
  exact h₂₃.trans (resolvePtrArgs_grows F.args cs.ptrArgs h₂₃.1.wf
    (fun v h hh => h₂₃.1.lt (hwf.scalar_lt v h hh))
    (fun h hh => hcs.mono h₂₃.1 h (DSCallSite.ptrArg_mem_handles hh)))

end DSGraph

namespace Steensgaard

section Run

variable {M : Module} {resolve : DSGraph → DSCallSite → Function → DSGraph} {g0 : DSGraph}
  (hg : ∀ g cs F, g.WellFormed → cs ∈ g.functionCalls → DSGraph.Grows g (resolve g cs F))
include hg

theorem resolveTargets_grows (cs : DSCallSite) : ∀ (targets : List Nat) {g : DSGraph},
    g.WellFormed → cs ∈ g.functionCalls → DSGraph.Grows g (resolveTargets M resolve cs g targets)
  | [], _, hwf, _ => DSGraph.Grows.refl hwf
  | f :: fs, g, hwf, hcs => by
      have h₁ : DSGraph.Grows g (resolveTarget M resolve cs g f) := by
        unfold resolveTarget
        split
        · split_ifs
          · exact DSGraph.Grows.refl hwf
          · exact hg g cs _ hwf hcs
        · exact DSGraph.Grows.refl hwf
      exact h₁.trans (resolveTargets_grows cs fs h₁.1.wf (h₁.1.functionCalls ▸ hcs))

theorem resolveCalls_grows : ∀ (calls : List DSCallSite) (targets : List FuncSet) {g : DSGraph},
    g.WellFormed → (∀ cs ∈ calls, cs ∈ g.functionCalls) →
      DSGraph.Grows g (resolveCalls M resolve g calls targets)
  | cs :: calls, ts :: targets, g, hwf, hcalls => by
      have h₁ : DSGraph.Grows g (resolveTargets M resolve cs g ts.toList) :=
        resolveTargets_grows hg cs ts.toList hwf (hcalls cs (List.mem_cons_self _ _))
      exact h₁.trans (resolveCalls_grows calls targets h₁.1.wf
        (fun c hc => h₁.1.functionCalls ▸ hcalls c (List.mem_cons_of_mem _ hc)))
  | [], _, _, hwf, _ => DSGraph.Grows.refl hwf
  | _ :: _, [], _, hwf, _ => DSGraph.Grows.refl hwf

/-- Every state at a test of the loop condition grows from the entry graph. -/
theorem Reachable.grows (hwf : g0.WellFormed) {g : DSGraph} {cg : List FuncSet}
    (hr : Reachable M resolve g0 g cg) : DSGraph.Grows g0 g := by
  induction hr with
  | entry => exact DSGraph.Grows.refl hwf
  | round _ _ ih => exact ih.trans (resolveCalls_grows hg _ _ ih.1.wf fun _ hc => hc)

end Run

/-- Both drivers' fixpoint loops keep every class-level points-to edge of the
entry graph: at every test of the loop condition, and in the graph they
return, the class of `n` points to the class of `m` whenever it did on
entry. -/
theorem fixpoint_keepsEdges (M : Module) (g0 : DSGraph) (hwf : g0.WellFormed) :
    (∀ g cg, Reachable M mergeInGraphStep g0 g cg → g0.store.KeepsEdges g.store) ∧
    (∀ g cg, Reachable M resolveFunctionCallStep g0 g cg → g0.store.KeepsEdges g.store) ∧
    (∀ fuel r, steensgaardFixpoint M fuel g0 = some r → g0.store.KeepsEdges r.1.store) ∧
    (∀ fuel r, basicFixpoint M fuel g0 = some r → g0.store.KeepsEdges r.1.store) := by
  have hs : ∀ g cg, Reachable M mergeInGraphStep g0 g cg → g0.store.KeepsEdges g.store :=
    fun _ _ hr => (hr.grows (fun g cs F hwf hcs =>
      DSGraph.mergeInGraph_grows hwf (hwf.call_inArena hcs) F) hwf).2
  have hb : ∀ g cg, Reachable M resolveFunctionCallStep g0 g cg → g0.store.KeepsEdges g.store :=
    fun _ _ hr => (hr.grows (fun g cs F hwf hcs =>
      DSGraph.resolveFunctionCall_grows hwf (hwf.call_inArena hcs) F) hwf).2
  refine ⟨hs, hb, fun fuel r h => ?_, fun fuel r h => ?_⟩
  · obtain ⟨cg, hr, -⟩ := fixpoint_exit fuel Reachable.entry h
    exact hs _ _ hr
  · obtain ⟨cg, hr, -⟩ := fixpoint_exit fuel Reachable.entry h
    exact hb _ _ hr

theorem fixpoint_keepsEdges_fp : fpGraph.WellFormed ∧
    (∀ fuel r, steensgaardFixpoint fpModule fuel fpGraph = some r →
      fpGraph.store.KeepsEdges r.1.store) ∧
    (∀ fuel r, basicFixpoint fpModule fuel fpGraph = some r → fpGraph.store.KeepsEdges r.1.store) :=
  have hwf : fpGraph.WellFormed := by decide
  ⟨hwf, (fixpoint_keepsEdges fpModule fpGraph hwf).2.2⟩

end Steensgaard

end DSA
