/-
`BasicDataStructures::runOnModule` (`Basic.cpp`): the analysis that assumes
every pointer may point anywhere.  Globals that are declarations or visible
outside the module share one node of the globals graph and the defined
internal globals another; each defined function gets a graph in which its
pointer arguments and its instructions share one node.

The shared nodes are created first, merged into the nodes of the values, and
then folded and marked through the raw node pointers.  A merge of two nodes of
equal size keeps the first handle's node, so the first merge already forwards
the raw node into a value's node: the folding and marking after the loop reach
a forwarded node, and the representative the values normalize to keeps none
of it.

`formGlobalECs`, which groups the globals of a node into classes, is left out.
`DSNode::maskNodeTypes` is not in the repository and the spec does not
describe it; it is taken as a parameter.
-/
import DSA.Graph
import Mathlib.Data.List.Nodup

namespace DSA

namespace Basic

open DSGraph

/-- A graph with no node and no binding. -/
def emptyGraph : DSGraph := ⟨⟨[]⟩, [], [], [], []⟩

/-- `new DSNode(G)`: a fresh node at the end of the arena, with its index. -/
def newNode (g : DSGraph) : DSGraph × Nat := ({ g with store := g.store.createNode }, g.store.length)

/-- `G->getNodeForValue(v).mergeWith(N)` for the raw node `n`. -/
def mergeValueInto (n : Nat) (g : DSGraph) (v : Nat) : DSGraph :=
  let r := g.getNodeForValue v
  r.1.mergeWith r.2 ⟨n, 0⟩

/-- `N->foldNodeCompletely()` through the raw node `n`. -/
def foldNode (g : DSGraph) (n : Nat) : DSGraph :=
  { g with store := NodeStore.foldNodeCompletely NodeStore.mergeWith g.store n }

/-- `N->setExternalMarker()` through the raw node `n`. -/
def setExternalMarker (g : DSGraph) (n : Nat) : DSGraph :=
  { g with store := g.store.setNode n ((g.store.node n).setFlag ExternalNode) }

/-- `N->maskNodeTypes(mask)` through the raw node `n`. -/
def maskNode (maskNodeTypes : DSNode → Nat → DSNode) (g : DSGraph) (n mask : Nat) : DSGraph :=
  { g with store := g.store.setNode n (maskNodeTypes (g.store.node n) mask) }

/-- The globals loop: the node of each global is merged with the external
node `external` when the global is a declaration or not internal, with the
internal node `internal` otherwise. -/
def mergeGlobalNodes (internal external : Nat) (g : DSGraph) (gvs : List GlobalVariable) :
    DSGraph :=
  gvs.foldl (fun g I =>
    mergeValueInto (if I.isDeclaration || !I.hasInternalLinkage then external else internal) g I.id) g

/-- The node a value normalizes to, if it is bound. -/
def valueNode (g : DSGraph) (v : Nat) : Option DSNode :=
  (g.scalarMap.lookup v).map fun h => g.store.repNode h.node

section

variable (maskNodeTypes : DSNode → Nat → DSNode)

/-- The globals part of `runOnModule`, with the raw internal and external nodes. -/
def buildGlobalsGraph (M : Module) : DSGraph × Nat × Nat :=
  let (g, internal) := newNode emptyGraph
  let (g, external) := newNode g
  let g := mergeGlobalNodes internal external g M.globals
  let g := maskNode maskNodeTypes (foldNode g internal) internal IncompleteNode
  (setExternalMarker (foldNode g external) external, internal, external)

/-- The graph `runOnModule` builds for a defined function, with its raw node. -/
def buildFunctionGraph (F : Function) : DSGraph × Nat :=
  let (g, node) := newNode emptyGraph
  let g := if !F.hasInternalLinkage then setExternalMarker g node else g
  let g := F.ptrArgs.foldl (fun g a => mergeValueInto node g a.value) g
  let g := F.blocks.flatten.foldl (fun g I => mergeValueInto node g I.value) g
  (maskNode maskNodeTypes (foldNode g node) node IncompleteNode, node)

/-- `BasicDataStructures::runOnModule`: the globals graph and the graph of
each defined function. -/
def runOnModule (M : Module) : DSGraph × List (Nat × DSGraph) :=
  ((buildGlobalsGraph maskNodeTypes M).1,
    (M.functions.filter (!·.isDeclaration)).map fun F => (F.id, (buildFunctionGraph maskNodeTypes F).1))

end

section Frame

variable {n : Nat} {g g' : DSGraph}

/-- `g'` differs from `g` at most in the record of node `n`. -/
def WritesOnly (n : Nat) (g g' : DSGraph) : Prop :=
  g'.scalarMap = g.scalarMap ∧ ∀ k, k ≠ n → g'.store.node k = g.store.node k

theorem WritesOnly.trans {g'' : DSGraph} (h₁ : WritesOnly n g g') (h₂ : WritesOnly n g' g'') :
    WritesOnly n g g'' :=
  ⟨h₂.1.trans h₁.1, fun k hk => (h₂.2 k hk).trans (h₁.2 k hk)⟩

/-- A value whose node and representative avoid `n` normalizes to the same
record after a write to `n`. -/
theorem WritesOnly.valueNode (hw : WritesOnly n g g') {v : Nat} {h : DSNodeHandle}
    (hv : g.scalarMap.lookup v = some h) (hn : h.node ≠ n) (hr : g.store.rep h.node ≠ n) :
    valueNode g' v = valueNode g v := by
  have hrep : g'.store.rep h.node = g.store.rep h.node := by
    simp only [NodeStore.rep, hw.2 _ hn]
  simp only [Basic.valueNode, hw.1, hv, Option.map_some', NodeStore.repNode, hrep, hw.2 _ hr]

theorem maskNode_writesOnly (maskNodeTypes : DSNode → Nat → DSNode) (mask : Nat) :
    WritesOnly n g (maskNode maskNodeTypes g n mask) :=
  ⟨rfl, fun _ hk => NodeStore.node_setNode_ne _ _ (Ne.symm hk)⟩

theorem setExternalMarker_writesOnly : WritesOnly n g (setExternalMarker g n) :=
  ⟨rfl, fun _ hk => NodeStore.node_setNode_ne _ _ (Ne.symm hk)⟩

/-- Folding a node without links writes only that node. -/
theorem foldNode_writesOnly (hl : (g.store.node n).links = []) : WritesOnly n g (foldNode g n) := by
  refine ⟨rfl, fun k hk => ?_⟩
  simp only [foldNode, NodeStore.foldNodeCompletely]
  split_ifs
  · rfl
  · rw [hl, List.foldl_nil, NodeStore.node_setNode_ne _ _ (Ne.symm hk)]

end Frame

section Classes

variable {g : DSGraph} {n : Nat}

theorem WritesOnly.rep (hw : WritesOnly n g g') {k : Nat} (hk : k ≠ n) :
    g'.store.rep k = g.store.rep k := by
  simp only [NodeStore.rep, hw.2 k hk]

theorem getNodeForValue_rep (v t : Nat) : (g.getNodeForValue v).1.store.rep t = g.store.rep t := by
  unfold DSGraph.getNodeForValue
  split
  · rfl
  · exact NodeStore.rep_createNode t

theorem getNodeForValue_bare (hb : g.store.Bare) (v : Nat) : (g.getNodeForValue v).1.store.Bare := by
  unfold DSGraph.getNodeForValue
  split
  · exact hb
  · exact hb.createNode

theorem getNodeForValue_lookup (v w : Nat) :
    (g.getNodeForValue v).1.scalarMap.lookup w =
      if w = v then some (g.getNodeForValue v).2 else g.scalarMap.lookup w := by
  unfold DSGraph.getNodeForValue
  split
  · next x hv => split_ifs with hw <;> simp [hw, hv]
  · by_cases hw : w = v
    · simp [List.lookup_cons, hw]
    · simp [List.lookup_cons, hw, beq_eq_false_iff_ne.mpr hw]

theorem getNodeForValue_snd_of_none {v : Nat} (h : g.scalarMap.lookup v = none) :
    (g.getNodeForValue v).2 = ⟨g.store.length, 0⟩ := by
  simp [DSGraph.getNodeForValue, h]

theorem getNodeForValue_snd_of_some {v : Nat} {x : DSNodeHandle} (h : g.scalarMap.lookup v = some x) :
    (g.getNodeForValue v).2 = x := by
  simp [DSGraph.getNodeForValue, h]

@[simp] theorem mergeValueInto_scalarMap (v : Nat) :
    (mergeValueInto n g v).scalarMap = (g.getNodeForValue v).1.scalarMap := rfl

theorem mergeValueInto_evolves (hwf : g.WellFormed) (hn : n < g.store.length) (v : Nat) :
    Evolves g (mergeValueInto n g v) := by
  obtain ⟨h₁, hv⟩ := getNodeForValue_evolves hwf v
  exact h₁.trans (mergeWith_evolves h₁.wf (h₁.wf.lookup_lt hv) (lt_of_lt_of_le hn h₁.store.length_le))

theorem mergeValueInto_bare (hb : g.store.Bare) (v : Nat) : (mergeValueInto n g v).store.Bare :=
  (getNodeForValue_bare hb v).mergeWith _ _

/-- Merging a value into the raw node `n` of a bare graph moves the class of
`n` into the class of the value's node. -/
theorem mergeValueInto_rep (hwf : g.WellFormed) (hb : g.store.Bare) (hn : n < g.store.length)
    (v t : Nat) :
    (mergeValueInto n g v).store.rep t =
      if g.store.rep t = g.store.rep n then g.store.rep (g.getNodeForValue v).2.node
      else g.store.rep t := by
  have h₁ := (getNodeForValue_evolves hwf v).1
  simp only [mergeValueInto, DSGraph.mergeWith]
  rw [NodeStore.Bare.rep_mergeWith h₁.wf.store (getNodeForValue_bare hb v)
    (lt_of_lt_of_le hn h₁.store.length_le), getNodeForValue_rep, getNodeForValue_rep,
    getNodeForValue_rep]

theorem lookup_foldl_mergeValueInto {α : Type} (f : α → Nat) (w : Nat) :
    ∀ (l : List α) (g : DSGraph),
      ((l.foldl (fun g a => mergeValueInto n g (f a)) g).scalarMap.lookup w).isSome ↔
        w ∈ l.map f ∨ (g.scalarMap.lookup w).isSome
  | [], g => by simp
  | a :: l, g => by
      rw [List.foldl_cons, lookup_foldl_mergeValueInto f w l, mergeValueInto_scalarMap,
        getNodeForValue_lookup]
      by_cases hw : w = f a <;> simp [hw]

/-- What the loops over a function's values keep: a well-formed bare graph in
which every bound value has a node other than the raw node `n` and reads
through the class of `n`. -/
structure OneClass (n : Nat) (g : DSGraph) : Prop where
  wf : g.WellFormed
  bare : g.store.Bare
  lt : n < g.store.length
  bound : ∀ v h, g.scalarMap.lookup v = some h → h.node ≠ n ∧ g.store.rep h.node = g.store.rep n

theorem OneClass.mergeValueInto (hg : OneClass n g) (v : Nat) :
    OneClass n (mergeValueInto n g v) := by
  have he := mergeValueInto_evolves hg.wf hg.lt v
  refine ⟨he.wf, mergeValueInto_bare hg.bare v, lt_of_lt_of_le hg.lt he.store.length_le,
    fun w h hw => ?_⟩
  have hx : (g.getNodeForValue v).2.node ≠ n := by
    cases hv : g.scalarMap.lookup v with
    | none => rw [getNodeForValue_snd_of_none hv]; exact Nat.ne_of_gt hg.lt
    | some y => rw [getNodeForValue_snd_of_some hv]; exact (hg.bound v y hv).1
  have hrep := mergeValueInto_rep hg.wf hg.bare hg.lt v
  rw [mergeValueInto_scalarMap, getNodeForValue_lookup] at hw
  rw [hrep, hrep, if_pos rfl]
  split_ifs at hw
  · cases hw; exact ⟨hx, by split_ifs <;> rfl⟩
  · obtain ⟨hne, hr⟩ := hg.bound w h hw
    exact ⟨hne, if_pos hr⟩

theorem OneClass.foldl {α : Type} (f : α → Nat) :
    ∀ (l : List α) {g : DSGraph}, OneClass n g →
      OneClass n (l.foldl (fun g a => Basic.mergeValueInto n g (f a)) g)
  | [], _, hg => hg
  | a :: l, _, hg => OneClass.foldl f l (hg.mergeValueInto (f a))

theorem emptyGraph_bare : emptyGraph.store.Bare := fun n => by
  rw [NodeStore.node_of_length_le _ (Nat.zero_le n)]
  exact ⟨rfl, rfl, rfl⟩

/-- What the globals loop keeps: the raw nodes `0` and `1` in different
classes, and each global seen so far bound, and only those, each to a node of
its own that reads through the class of the raw node for its linkage. -/
structure TwoClasses (g : DSGraph) (done : List GlobalVariable) : Prop where
  wf : g.WellFormed
  bare : g.store.Bare
  two_le : 2 ≤ g.store.length
  raw_ne : g.store.rep 0 ≠ g.store.rep 1
  bound : ∀ I ∈ done, ∃ h, g.scalarMap.lookup I.id = some h ∧ 2 ≤ h.node ∧
    g.store.rep h.node = g.store.rep (if I.isDeclaration || !I.hasInternalLinkage then 1 else 0)
  only : ∀ v, (g.scalarMap.lookup v).isSome → v ∈ done.map (·.id)

theorem TwoClasses.mergeValueInto {done : List GlobalVariable} (hg : TwoClasses g done)
    {I : GlobalVariable} (hI : I.id ∉ done.map (·.id)) :
    TwoClasses (Basic.mergeValueInto (if I.isDeclaration || !I.hasInternalLinkage then 1 else 0)
      g I.id) (done ++ [I]) := by
  have h2 := hg.two_le
  have hs : (if I.isDeclaration || !I.hasInternalLinkage then 1 else 0) < g.store.length := by
    split <;> omega
  have hfresh : g.scalarMap.lookup I.id = none := by
    cases h : g.scalarMap.lookup I.id
    · rfl
    · exact absurd (hg.only _ (by simp [h])) hI
  have hx := getNodeForValue_snd_of_none hfresh
  have hL : g.store.rep g.store.length = g.store.length :=
    g.store.rep_of_forward_none (by rw [g.store.node_of_length_le le_rfl])
  have hrep := fun t => (mergeValueInto_rep hg.wf hg.bare hs I.id t).trans (by rw [hx, hL])
  have he := mergeValueInto_evolves hg.wf hs I.id
  refine ⟨he.wf, mergeValueInto_bare hg.bare _, le_trans h2 he.store.length_le, ?_, ?_, ?_⟩
  · have h0 := hg.wf.store.rep_lt (show 0 < g.store.length by omega)
    have h1 := hg.wf.store.rep_lt (show 1 < g.store.length by omega)
    have hne := hg.raw_ne
    rw [hrep, hrep]
    split_ifs <;> omega
  · intro J hJ
    rw [mergeValueInto_scalarMap]
    rcases List.mem_append.mp hJ with hJ | hJ
    · obtain ⟨h, hl, h2, hr⟩ := hg.bound J hJ
      have hne : J.id ≠ I.id := fun e => hI (e ▸ List.mem_map_of_mem _ hJ)
      refine ⟨h, by rw [getNodeForValue_lookup, if_neg hne, hl], h2, ?_⟩
      rw [hrep, hrep, hr]
    · rw [List.mem_singleton] at hJ
      subst hJ
      refine ⟨⟨g.store.length, 0⟩, by rw [getNodeForValue_lookup, if_pos rfl, hx], h2, ?_⟩
      rw [hrep, hrep, hL]
      simp
  · intro v hv
    rw [mergeValueInto_scalarMap, getNodeForValue_lookup] at hv
    rw [List.map_append, List.mem_append]
    split_ifs at hv with hvI
    · exact Or.inr (by simp [hvI])
    · exact Or.inl (hg.only v hv)

theorem TwoClasses.mergeGlobalNodes : ∀ (gs : List GlobalVariable) {g : DSGraph}
    {done : List GlobalVariable}, TwoClasses g done → ((done ++ gs).map (·.id)).Nodup →
      TwoClasses (Basic.mergeGlobalNodes 0 1 g gs) (done ++ gs)
  | [], g, done, hg, _ => by simpa [Basic.mergeGlobalNodes] using hg
  | I :: gs, g, done, hg, hnd => by
      have hI : I.id ∉ done.map (·.id) := by
        rw [List.map_append, List.nodup_append] at hnd
        exact fun h => hnd.2.2 h (List.mem_map_of_mem _ (List.mem_cons_self I gs))
      have := TwoClasses.mergeGlobalNodes gs (hg.mergeValueInto hI) (by simpa using hnd)
      rw [List.append_assoc, List.singleton_append] at this
      exact this

end Classes

variable (maskNodeTypes : DSNode → Nat → DSNode)

/-- The graph `runOnModule` builds for a defined function binds exactly the
function's pointer arguments and its instructions, and all of them read through
one node, whatever `maskNodeTypes` does. -/
theorem buildFunctionGraph_one_class (F : Function) :
    let g := (buildFunctionGraph maskNodeTypes F).1
    (∀ v, (g.scalarMap.lookup v).isSome ↔
      v ∈ F.ptrArgs.map (·.value) ∨ v ∈ F.blocks.flatten.map (·.value)) ∧
    ∀ v w h h', g.scalarMap.lookup v = some h → g.scalarMap.lookup w = some h' →
      g.repOf h = g.repOf h' := by
  let g₀ := if !F.hasInternalLinkage then setExternalMarker (newNode emptyGraph).1 0
    else (newNode emptyGraph).1
  have hb₀ := emptyGraph_bare.createNode
  have h₀ : OneClass 0 g₀ := by
    refine ⟨by simp only [g₀]; split <;> decide, ?_, by simp only [g₀]; split <;> decide,
      fun v h hv => by simp only [g₀] at hv; split at hv <;> cases hv⟩
    simp only [g₀]
    split
    · exact hb₀.setNode ⟨(hb₀ 0).1, (hb₀ 0).2.1, (hb₀ 0).2.2⟩
    · exact hb₀
  let pre := F.blocks.flatten.foldl (fun g I => mergeValueInto 0 g I.value)
    (F.ptrArgs.foldl (fun g a => mergeValueInto 0 g a.value) g₀)
  have hpre : OneClass 0 pre :=
    (h₀.foldl (fun a : Argument => a.value) F.ptrArgs).foldl (fun I : Instruction => I.value) _
  have hw : WritesOnly 0 pre (maskNode maskNodeTypes (foldNode pre 0) 0 IncompleteNode) :=
    (foldNode_writesOnly (hpre.bare 0).1).trans (maskNode_writesOnly _ _)
  intro g
  have e : g = maskNode maskNodeTypes (foldNode pre 0) 0 IncompleteNode := rfl
  rw [e]
  refine ⟨fun v => ?_, fun v w h h' hv hw' => ?_⟩
  · have h0 : g₀.scalarMap.lookup v = none := by simp only [g₀]; split <;> rfl
    rw [hw.1, lookup_foldl_mergeValueInto, lookup_foldl_mergeValueInto, h0]
    simp [or_comm]
  · rw [hw.1] at hv hw'
    obtain ⟨hn, hr⟩ := hpre.bound v h hv
    obtain ⟨hn', hr'⟩ := hpre.bound w h' hw'
    show (maskNode _ _ _ _).store.rep h.node = (maskNode _ _ _ _).store.rep h'.node
    rw [hw.rep hn, hw.rep hn', hr, hr']

/-- In the globals graph `runOnModule` builds, every global is bound, and two
globals share a node exactly when both are declarations or externally visible,
or both are internal definitions, whatever `maskNodeTypes` does. -/
theorem buildGlobalsGraph_two_classes (M : Module) (hnd : (M.globals.map (·.id)).Nodup) :
    let g := (buildGlobalsGraph maskNodeTypes M).1
    (∀ v, (g.scalarMap.lookup v).isSome ↔ v ∈ M.globals.map (·.id)) ∧
    ∀ I ∈ M.globals, ∀ J ∈ M.globals, ∀ h h', g.scalarMap.lookup I.id = some h →
      g.scalarMap.lookup J.id = some h' →
      (g.repOf h = g.repOf h' ↔
        (I.isDeclaration || !I.hasInternalLinkage) = (J.isDeclaration || !J.hasInternalLinkage)) := by
  have h₀ : TwoClasses (newNode (newNode emptyGraph).1).1 [] :=
    ⟨by decide, emptyGraph_bare.createNode.createNode, by decide, by decide,
      fun _ h => absurd h (List.not_mem_nil _), fun v hv => by simp [newNode, emptyGraph] at hv⟩
  let pre := mergeGlobalNodes 0 1 (newNode (newNode emptyGraph).1).1 M.globals
  have hpre : TwoClasses pre M.globals := TwoClasses.mergeGlobalNodes M.globals h₀ hnd
  let g₁ := maskNode maskNodeTypes (foldNode pre 0) 0 IncompleteNode
  have hw₁ : WritesOnly 0 pre g₁ := (foldNode_writesOnly (hpre.bare 0).1).trans (maskNode_writesOnly _ _)
  have hw₂ : WritesOnly 1 g₁ (setExternalMarker (foldNode g₁ 1) 1) :=
    (foldNode_writesOnly (by rw [hw₁.2 1 (by decide)]; exact (hpre.bare 1).1)).trans
      setExternalMarker_writesOnly
  intro g
  have e : g = setExternalMarker (foldNode g₁ 1) 1 := rfl
  rw [e]
  have hsm : (setExternalMarker (foldNode g₁ 1) 1).scalarMap = pre.scalarMap := hw₂.1.trans hw₁.1
  have hrep : ∀ t, 2 ≤ t → (setExternalMarker (foldNode g₁ 1) 1).store.rep t = pre.store.rep t :=
    fun t ht => (hw₂.rep (by omega)).trans (hw₁.rep (by omega))
  refine ⟨fun v => ?_, fun I hI J hJ h h' hh hh' => ?_⟩
  · rw [hsm]
    refine ⟨hpre.only v, fun hv => ?_⟩
    obtain ⟨I, hI, rfl⟩ := List.mem_map.mp hv
    obtain ⟨h, hl, -⟩ := hpre.bound I hI
    simp [hl]
  · rw [hsm] at hh hh'
    obtain ⟨x, hx, hx2, hxr⟩ := hpre.bound I hI
    obtain ⟨y, hy, hy2, hyr⟩ := hpre.bound J hJ
    rw [hx, Option.some.injEq] at hh
    rw [hy, Option.some.injEq] at hh'
    subst hh hh'
    show (setExternalMarker _ _).store.rep x.node = (setExternalMarker _ _).store.rep y.node ↔ _
    rw [hrep _ hx2, hrep _ hy2, hxr, hyr]
    have hne := hpre.raw_ne
    cases I.isDeclaration || !I.hasInternalLinkage <;>
      cases J.isDeclaration || !J.hasInternalLinkage <;> simp [hne, Ne.symm hne]

/-- A module with an internal definition `@a` (id 2), an external definition
`@b` (3) and a declaration `@c` (4). -/
def globalsModule : Module :=
  ⟨[], [⟨2, false, true⟩, ⟨3, false, false⟩, ⟨4, true, false⟩], fun _ _ => true⟩

theorem buildGlobalsGraph_two_classes_globalsModule :
    (globalsModule.globals.map (·.id)).Nodup ∧
      let g := (buildGlobalsGraph (fun N _ => N) globalsModule).1
      (∀ v, (g.scalarMap.lookup v).isSome ↔ v ∈ globalsModule.globals.map (·.id)) ∧
      ∀ I ∈ globalsModule.globals, ∀ J ∈ globalsModule.globals, ∀ h h',
        g.scalarMap.lookup I.id = some h → g.scalarMap.lookup J.id = some h' →
        (g.repOf h = g.repOf h' ↔
          (I.isDeclaration || !I.hasInternalLinkage) = (J.isDeclaration || !J.hasInternalLinkage)) :=
  ⟨by decide, buildGlobalsGraph_two_classes (fun N _ => N) globalsModule (by decide)⟩

/-- A module with one external global `@G` (id 2), a declaration, and one
external function `@f` (id 1) whose body is `ret void` (value 5). -/
def basicFunction : Function := ⟨1, false, false, [], [[.other 5]]⟩

def basicModule : Module := ⟨[basicFunction], [⟨2, true, false⟩], fun _ _ => true⟩

/-- Whatever `maskNodeTypes` does: `@G` normalizes to a node that is neither
folded nor external, and `ret void` of `@f` to a node that is not folded. -/
theorem runOnModule_misses_representatives (maskNodeTypes : DSNode → Nat → DSNode) :
    (valueNode (buildGlobalsGraph maskNodeTypes basicModule).1 2).map
        (fun N => (N.isNodeCompletelyFolded, N.isExternalNode)) = some (false, false) ∧
      (valueNode (buildFunctionGraph maskNodeTypes basicFunction).1 5).map
        (fun N => (N.isNodeCompletelyFolded, N.isExternalNode)) = some (false, true) := by
  constructor
  · let pre := mergeGlobalNodes 0 1 (newNode (newNode emptyGraph).1).1 basicModule.globals
    let g₁ := maskNode maskNodeTypes (foldNode pre 0) 0 IncompleteNode
    have hw₁ : WritesOnly 0 pre g₁ :=
      (foldNode_writesOnly (by decide)).trans (maskNode_writesOnly _ _)
    have hw₂ : WritesOnly 1 g₁ (setExternalMarker (foldNode g₁ 1) 1) :=
      (foldNode_writesOnly (by rw [hw₁.2 1 (by decide)]; decide)).trans setExternalMarker_writesOnly
    have hv₁ : g₁.scalarMap.lookup 2 = some ⟨2, 0⟩ := by rw [hw₁.1]; decide
    have hr₁ : g₁.store.rep 2 = 2 := by
      simp only [NodeStore.rep, hw₁.2 2 (by decide)]; decide
    show (valueNode (setExternalMarker (foldNode g₁ 1) 1) 2).map _ = _
    rw [hw₂.valueNode hv₁ (by decide) (by rw [hr₁]; decide),
      hw₁.valueNode (show pre.scalarMap.lookup 2 = some ⟨2, 0⟩ by decide) (by decide) (by decide)]
    decide
  · let pre := ([.other 5] : List Instruction).foldl (fun g I => mergeValueInto 0 g I.value)
      (setExternalMarker (newNode emptyGraph).1 0)
    have hw : WritesOnly 0 pre (maskNode maskNodeTypes (foldNode pre 0) 0 IncompleteNode) :=
      (foldNode_writesOnly (by decide)).trans (maskNode_writesOnly _ _)
    show (valueNode (maskNode maskNodeTypes (foldNode pre 0) 0 IncompleteNode) 5).map _ = _
    rw [hw.valueNode (show pre.scalarMap.lookup 5 = some ⟨1, 0⟩ by decide) (by decide) (by decide)]
    decide

end Basic

end DSA
