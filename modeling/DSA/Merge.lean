/-
Unification of two handles.  The representative with the larger size absorbs
the other; the absorbed node's offsets shift by the difference of the handle
offsets, node-type bits and globals are united, its links are merged
recursively into the representative, and its types are installed there,
folding the representative on a conflict.  A node met at two different
offsets of itself is folded: all of its links collapse onto offset zero.

The recursion is bounded by fuel; every nested merge first forwards or folds a
node, so the nesting depth never exceeds twice the number of nodes.  The one
fact the rest of the development uses is that every step of it only coarsens
the store: classes join, never split, and what a class records only grows.
-/
import DSA.Node

namespace DSA

/-- Union the globals of an absorbed node into a representative's list,
keeping insertion order and dropping duplicates. -/
def mergeGlobals (gs hs : List GlobalValue) : List GlobalValue :=
  gs ++ hs.filter (fun x => x ∉ gs)

theorem mem_mergeGlobals {gs hs : List GlobalValue} {x : GlobalValue} :
    x ∈ mergeGlobals gs hs ↔ x ∈ gs ∨ x ∈ hs := by
  by_cases hx : x ∈ gs <;> simp [mergeGlobals, hx]

namespace NodeStore

/-- Re-point a forwarding link that names `s` to `r`, composing the shifts. -/
def redirect (s r : Nat) (δ : Int) (N : DSNode) : DSNode :=
  match N.forward with
  | some f => if f.node = s then { N with forward := some ⟨r, f.delta + δ⟩ } else N
  | none => N

/-- Forward node `s` into node `r` at shift `δ`: `s` gives up its links, types
and globals.  Where the spec keeps forwarding chains and shortens them lazily,
the nodes already forwarded to `s` are re-pointed at `r` at once; `rep` and
`normalize` read the same class and offset either way. -/
def forwardNode (st : NodeStore) (s r : Nat) (δ : Int) : NodeStore :=
  (⟨st.nodes.map (redirect s r δ)⟩ : NodeStore).setNode s
    { st.node s with links := [], types := [], globals := [], forward := some ⟨r, δ⟩ }

/-- The representative's record after absorbing `S` at shift `δ`: grown to
cover `S` (unless one is an array), with the node-type bits and globals of
both. -/
def unite (R S : DSNode) (δ : Int) : DSNode :=
  { R with
    size := if R.isArrayNode || S.isArrayNode then R.size else max R.size (S.size + δ).toNat
    nodeType := R.nodeType ||| S.nodeType
    globals := mergeGlobals R.globals S.globals }

@[simp] theorem unite_forward (R S : DSNode) (δ : Int) : (unite R S δ).forward = R.forward := rfl

@[simp] theorem unite_links (R S : DSNode) (δ : Int) : (unite R S δ).links = R.links := rfl

@[simp] theorem unite_globals (R S : DSNode) (δ : Int) :
    (unite R S δ).globals = mergeGlobals R.globals S.globals := rfl

@[simp] theorem unite_hasFlag (R S : DSNode) (δ : Int) (b : Nat) :
    (unite R S δ).hasFlag b = (R.hasFlag b || S.hasFlag b) := by
  simp [unite, DSNode.hasFlag, Nat.testBit_or]

/-- Steps 5, 6 and 9 of a merge: `r` absorbs `s`, which then forwards to it. -/
def absorb (st : NodeStore) (r s : DSNodeHandle) : NodeStore :=
  let δ : Int := r.offset - s.offset
  (st.setNode r.node (unite (st.node r.node) (st.node s.node) δ)).forwardNode s.node r.node δ

section Step

variable (merge : NodeStore → DSNodeHandle → DSNodeHandle → NodeStore)

/-- `addEdgeTo`: let the link at handle `dst` point to `h`, merging `h` with
the link already there. -/
def addEdgeTo (st : NodeStore) (dst h : DSNodeHandle) : NodeStore :=
  let p := st.normalize dst
  match (st.node p.node).getLink p.offset with
  | some e => merge st e h
  | none => st.setNode p.node ((st.node p.node).setLink p.offset h)

/-- `foldNodeCompletely`: mark node `n` folded, drop its size and type record,
and collapse its links onto offset zero by merging them pairwise. -/
def foldNodeCompletely (st : NodeStore) (n : Nat) : NodeStore :=
  let N := st.node n
  if N.isNodeCompletelyFolded then st
  else
    N.links.foldl (fun st l => addEdgeTo merge st ⟨n, 0⟩ l.2)
      (st.setNode n { N.setFlag FoldedNode with size := 0, types := [], links := [] })

/-- Install type `t = (type, extent)` at handle `dst`, folding the node when a
different type already covers an overlapping extent. -/
def installType (st : NodeStore) (dst : DSNodeHandle) (t : Nat × Nat) : NodeStore :=
  let p := st.normalize dst
  let N := st.node p.node
  if N.isNodeCompletelyFolded then st
  else if N.types.any (fun e => e.2.1 != t.1 && e.1 < p.offset + t.2 && p.offset < e.1 + e.2.2)
  then foldNodeCompletely merge st p.node
  else st.setNode p.node { N with types := (p.offset, t) :: N.types }

/-- Merge two live nodes met at handles `r` (the representative) and `s`. -/
def mergeNodes (st : NodeStore) (r s : DSNodeHandle) : NodeStore :=
  let S := st.node s.node
  let δ : Int := r.offset - s.offset
  let st := S.links.foldl (fun st l => addEdgeTo merge st ⟨r.node, (l.1 + δ).toNat⟩ l.2)
    (st.absorb r s)
  S.types.foldl (fun st t => installType merge st ⟨r.node, (t.1 + δ).toNat⟩ t.2) st

end Step

/-- `mergeWith` with an explicit bound on the nesting of recursive merges. -/
def mergeWithFuel : Nat → NodeStore → DSNodeHandle → DSNodeHandle → NodeStore
  | 0, st, _, _ => st
  | fuel + 1, st, h1, h2 =>
    let a := st.normalize h1
    let b := st.normalize h2
    if a.node = b.node then
      if a.offset = b.offset then st
      else foldNodeCompletely (mergeWithFuel fuel) st a.node
    else if (st.node a.node).size < (st.node b.node).size then
      mergeNodes (mergeWithFuel fuel) st b a
    else mergeNodes (mergeWithFuel fuel) st a b

/-- Modelled from the spec: `DSNodeHandle::mergeWith` (merge, §4.1).  The
larger node absorbs the smaller one; on a tie the first handle's node wins. -/
def mergeWith (st : NodeStore) (h1 h2 : DSNodeHandle) : NodeStore :=
  mergeWithFuel (2 * st.length + 1) st h1 h2

section Forwarding

variable {st : NodeStore} {s r : Nat} {δ : Int}

@[simp] theorem redirect_empty : redirect s r δ {} = {} := rfl

theorem redirect_of_forward_none {N : DSNode} (hN : N.forward = none) :
    redirect s r δ N = N := by
  simp [redirect, hN]

@[simp] theorem redirect_links (N : DSNode) : (redirect s r δ N).links = N.links := by
  unfold redirect; split <;> (try split) <;> rfl

@[simp] theorem redirect_globals (N : DSNode) : (redirect s r δ N).globals = N.globals := by
  unfold redirect; split <;> (try split) <;> rfl

theorem node_map_redirect (t : Nat) :
    (⟨st.nodes.map (redirect s r δ)⟩ : NodeStore).node t = redirect s r δ (st.node t) := by
  simp only [node, List.getD_eq_getElem?_getD, List.getElem?_map]
  cases st.nodes[t]? <;> rfl

theorem node_forwardNode (t : Nat) :
    (st.forwardNode s r δ).node t =
      if s = t ∧ s < st.length then
        { st.node s with links := [], types := [], globals := [], forward := some ⟨r, δ⟩ }
      else redirect s r δ (st.node t) := by
  simp only [forwardNode, node_setNode, node_map_redirect, length, List.length_map]

/-- After forwarding `s` into `r`, a node forwards to `r`, or keeps a link
that did not lead to `s`. -/
theorem forward_forwardNode {t : Nat} {f : Forward}
    (hf : ((st.forwardNode s r δ).node t).forward = some f) :
    f.node = r ∨ ((st.node t).forward = some f ∧ f.node ≠ s) := by
  rw [node_forwardNode] at hf
  split_ifs at hf
  · cases hf; exact Or.inl rfl
  · cases ht : (st.node t).forward with
    | none => simp [redirect, ht] at hf
    | some g =>
        by_cases hgs : g.node = s
        · simp only [redirect, ht, hgs, if_true, Option.some.injEq] at hf
          exact Or.inl (hf ▸ rfl)
        · simp only [redirect, ht, hgs, if_false, Option.some.injEq] at hf
          exact Or.inr ⟨hf ▸ rfl, hf ▸ hgs⟩

@[simp] theorem length_forwardNode : (st.forwardNode s r δ).length = st.length := by
  simp [forwardNode, length, setNode]

variable (hs : (st.node s).forward = none) (hslt : s < st.length)
include hs hslt

theorem rep_forwardNode (t : Nat) :
    (st.forwardNode s r δ).rep t = if st.rep t = s then r else st.rep t := by
  by_cases hts : s = t
  · subst hts
    simp [rep, node_forwardNode, hslt, hs]
  · unfold rep
    rw [node_forwardNode t, if_neg (fun h => hts h.1)]
    cases hf : (st.node t).forward with
    | none => simp [redirect_of_forward_none hf, hf, Ne.symm hts]
    | some f => by_cases hfs : f.node = s <;> simp [redirect, hf, hfs]

variable (hwf : st.WellFormed) (hr : (st.node r).forward = none) (hsr : s ≠ r)
include hwf hr hsr

theorem repNode_forwardNode (t : Nat) :
    (st.forwardNode s r δ).repNode t = if st.rep t = s then st.node r else st.repNode t := by
  unfold repNode
  rw [rep_forwardNode hs hslt, node_forwardNode]
  split_ifs with h₁ h₂ h₂
  · exact absurd h₂.1 hsr
  · exact redirect_of_forward_none hr
  · exact absurd h₂.1.symm h₁
  · exact redirect_of_forward_none (hwf.repNode_forward t)

/-- Forwarding a live node into another live node that already holds its
globals and node-type bits keeps the invariant and only coarsens. -/
theorem forwardNode_evolves (hrlt : r < st.length)
    (hglob : ∀ x ∈ (st.node s).globals, x ∈ (st.node r).globals)
    (hflag : ∀ b, (st.node s).hasFlag b = true → (st.node r).hasFlag b = true) :
    Evolves st (st.forwardNode s r δ) := by
  have hnode_r : (st.forwardNode s r δ).node r = st.node r := by
    rw [node_forwardNode, if_neg (fun h => hsr h.1)]
    exact redirect_of_forward_none hr
  refine ⟨⟨fun t f hf => ?_, fun t f hf => ?_, ?_⟩, ⟨by simp, ?_, ?_, ?_, ?_⟩⟩
  · rcases forward_forwardNode hf with hfr | ⟨ht, hfs⟩
    · rw [hfr, hnode_r]; exact hr
    · rw [node_forwardNode, if_neg (fun h => hfs h.1.symm),
        redirect_of_forward_none (hwf.forward_live t f ht)]
      exact hwf.forward_live t f ht
  · rcases forward_forwardNode hf with hfr | ⟨ht, -⟩
    · simpa [hfr] using hrlt
    · simpa using hwf.forward_lt t f ht
  · intro t o h hl
    rw [node_forwardNode] at hl
    split_ifs at hl
    · simp at hl
    · simpa using hwf.link_lt t o h (by simpa using hl)
  · intro n m hnm
    simp only [rep_forwardNode hs hslt, hnm]
  · intro n x hx
    rw [repNode_forwardNode hs hslt hwf hr hsr]
    split_ifs with h
    · exact hglob x (by rw [← h]; exact hx)
    · exact hx
  · intro n b hb
    rw [repNode_forwardNode hs hslt hwf hr hsr]
    split_ifs with h
    · exact hflag b (by rw [← h]; exact hb)
    · exact hb
  · intro t x hx
    rw [node_forwardNode] at hx
    split_ifs at hx
    · simp at hx
    · exact ⟨t, by simpa using hx⟩

end Forwarding

theorem Evolves.refl {st : NodeStore} (hwf : st.WellFormed) : Evolves st st :=
  ⟨hwf, Coarsens.refl st⟩

/-- Steps 5, 6 and 9 join the two nodes: afterwards both read through `r`. -/
theorem absorb_spec {st : NodeStore} (hwf : st.WellFormed) {r s : DSNodeHandle}
    (hrs : r.node ≠ s.node) (hr : (st.node r.node).forward = none)
    (hs : (st.node s.node).forward = none) (hrlt : r.node < st.length)
    (hslt : s.node < st.length) :
    Evolves st (st.absorb r s) ∧ (st.absorb r s).rep s.node = r.node ∧
      (st.absorb r s).rep r.node = r.node := by
  let united := unite (st.node r.node) (st.node s.node) (r.offset - s.offset)
  have h₁ : Evolves st (st.setNode r.node united) :=
    setNode_evolves rfl hwf (fun x hx => by simp [united, mem_mergeGlobals, hx])
      (fun b hb => by simp [united, hb])
      (fun x hx => by
        rcases mem_mergeGlobals.mp (by simpa [united] using hx) with hx | hx
        · exact ⟨r.node, hx⟩
        · exact ⟨s.node, hx⟩)
      (fun o h hl => hwf.link_lt r.node o h hl)
  have hs₁ : ((st.setNode r.node united).node s.node).forward = none := by
    rw [node_setNode_ne _ _ hrs]; exact hs
  have hr₁ : ((st.setNode r.node united).node r.node).forward = none := by
    rw [node_setNode_self _ _ _ hrlt]; exact hr
  have hslt₁ : s.node < (st.setNode r.node united).length := by simpa using hslt
  have h₂ : Evolves _ ((st.setNode r.node united).forwardNode s.node r.node (r.offset - s.offset)) :=
    forwardNode_evolves hs₁ hslt₁ h₁.1 hr₁ (Ne.symm hrs)
    (by simpa using hrlt)
    (fun x hx => by
      rw [node_setNode_ne _ _ hrs] at hx
      simp [node_setNode_self _ _ _ hrlt, united, mem_mergeGlobals, hx])
    (fun b hb => by
      rw [node_setNode_ne _ _ hrs] at hb
      simp [node_setNode_self _ _ _ hrlt, united, hb])
  have hrep_s : (st.setNode r.node united).rep s.node = s.node := by
    rw [rep_setNode (unite_forward _ _ _)]; exact rep_of_forward_none _ hs
  have hrep_r : (st.setNode r.node united).rep r.node = r.node := by
    rw [rep_setNode (unite_forward _ _ _)]; exact rep_of_forward_none _ hr
  rw [show st.absorb r s = (st.setNode r.node united).forwardNode s.node r.node
      (r.offset - s.offset) from rfl, rep_forwardNode hs₁ hslt₁, rep_forwardNode hs₁ hslt₁,
    hrep_s, hrep_r, if_pos rfl, if_neg hrs]
  exact ⟨h₁.trans h₂, rfl, rfl⟩

/-- A merge function that, on handles into the arena, keeps the invariant and
only coarsens. -/
def IsCoarsening (merge : NodeStore → DSNodeHandle → DSNodeHandle → NodeStore) : Prop :=
  ∀ st h1 h2, st.WellFormed → h1.node < st.length → h2.node < st.length →
    Evolves st (merge st h1 h2)

/-- A loop of coarsening steps coarsens, when what each step needs of its
item survives coarsening. -/
theorem foldl_evolves {α : Type} (f : NodeStore → α → NodeStore)
    (ok : NodeStore → α → Prop) (hok : ∀ st st' a, ok st a → st.Coarsens st' → ok st' a)
    (hf : ∀ st a, st.WellFormed → ok st a → Evolves st (f st a)) :
    ∀ (l : List α) (st : NodeStore), st.WellFormed → (∀ a ∈ l, ok st a) →
      Evolves st (l.foldl f st)
  | [], _, hwf, _ => Evolves.refl hwf
  | a :: l, st, hwf, hl => by
      have ha := hf st a hwf (hl a (List.mem_cons_self _ _))
      exact ha.trans (foldl_evolves f ok hok hf l _ ha.1
        (fun b hb => hok _ _ b (hl b (List.mem_cons_of_mem _ hb)) ha.2))

section Step

variable {merge : NodeStore → DSNodeHandle → DSNodeHandle → NodeStore}
  (hm : IsCoarsening merge)
include hm

theorem addEdgeTo_evolves {st : NodeStore} (hwf : st.WellFormed) (dst : DSNodeHandle)
    {h : DSNodeHandle} (hh : h.node < st.length) : Evolves st (addEdgeTo merge st dst h) := by
  unfold addEdgeTo
  dsimp only
  split
  · next e he =>
      exact hm st e h hwf (hwf.link_lt _ _ _ (DSNode.mem_links_of_getLink he)) hh
  · exact setNode_evolves rfl hwf (fun _ hx => hx) (fun _ hb => hb) (fun x hx => ⟨_, hx⟩)
      (fun o l hl => by
      rcases DSNode.mem_setLink_links hl with hl | hl
      · cases hl; exact hh
      · exact hwf.link_lt _ o l hl)

/-- Adding every link of a list at shifted offsets coarsens. -/
theorem addEdges_evolves {st : NodeStore} (hwf : st.WellFormed)
    (dst : Nat × DSNodeHandle → DSNodeHandle) (links : List (Nat × DSNodeHandle))
    (hlinks : ∀ l ∈ links, l.2.node < st.length) :
    Evolves st (links.foldl (fun st l => addEdgeTo merge st (dst l) l.2) st) :=
  foldl_evolves _ (fun st l => l.2.node < st.length)
    (fun _ _ _ hl hc => lt_of_lt_of_le hl hc.length_le)
    (fun _ l hwf hl => addEdgeTo_evolves hm hwf (dst l) hl) links st hwf hlinks

theorem foldNodeCompletely_evolves {st : NodeStore} (hwf : st.WellFormed) (n : Nat) :
    Evolves st (foldNodeCompletely merge st n) := by
  unfold foldNodeCompletely
  dsimp only
  split_ifs
  · exact Evolves.refl hwf
  · have h₁ := setNode_evolves
      (show ({ (st.node n).setFlag FoldedNode with size := 0, types := [], links := [] } : DSNode).forward
        = (st.node n).forward from rfl) hwf (fun _ hx => hx) (fun b hb => by simp [DSNode.hasFlag, DSNode.setFlag, Nat.testBit_or] at hb ⊢; simp [hb])
      (fun x hx => ⟨n, hx⟩) (fun _ _ hl => by simp at hl)
    exact h₁.trans (addEdges_evolves hm h₁.1 _ _ (fun l hl =>
      lt_of_lt_of_le (hwf.link_lt n l.1 l.2 hl) h₁.2.length_le))

theorem installType_evolves {st : NodeStore} (hwf : st.WellFormed) (dst : DSNodeHandle)
    (t : Nat × Nat) : Evolves st (installType merge st dst t) := by
  unfold installType
  dsimp only
  split_ifs
  · exact Evolves.refl hwf
  · exact foldNodeCompletely_evolves hm hwf _
  · exact setNode_evolves rfl hwf (fun _ hx => hx) (fun _ hb => hb) (fun x hx => ⟨_, hx⟩)
      (fun o l hl => hwf.link_lt _ o l hl)

/-- Merging two live nodes coarsens and leaves them in one class. -/
theorem mergeNodes_spec {st : NodeStore} (hwf : st.WellFormed) {r s : DSNodeHandle}
    (hrs : r.node ≠ s.node) (hr : (st.node r.node).forward = none)
    (hs : (st.node s.node).forward = none) (hrlt : r.node < st.length)
    (hslt : s.node < st.length) :
    Evolves st (mergeNodes merge st r s) ∧
      (mergeNodes merge st r s).rep r.node = (mergeNodes merge st r s).rep s.node := by
  obtain ⟨h₁, hrep_s, hrep_r⟩ := absorb_spec hwf hrs hr hs hrlt hslt
  have h₂ := addEdges_evolves hm h₁.1 (fun l => ⟨r.node, (l.1 + (r.offset - s.offset : Int)).toNat⟩)
    (st.node s.node).links (fun l hl =>
      lt_of_lt_of_le (hwf.link_lt s.node l.1 l.2 hl) h₁.2.length_le)
  have h₃ := foldl_evolves (fun st t => installType merge st
      ⟨r.node, (t.1 + (r.offset - s.offset : Int)).toNat⟩ t.2)
    (fun _ _ => True) (fun _ _ _ h _ => h) (fun _ t hwf _ => installType_evolves hm hwf _ _)
    (st.node s.node).types _ h₂.1 (fun _ _ => trivial)
  have hall := (h₂.trans h₃).2
  exact ⟨h₁.trans (h₂.trans h₃), hall.rep_eq _ _ (hrep_r.trans hrep_s.symm)⟩

end Step

/-- Every bounded merge keeps the invariant and only coarsens. -/
theorem mergeWithFuel_isCoarsening : ∀ fuel, IsCoarsening (mergeWithFuel fuel)
  | 0 => fun _ _ _ hwf _ _ => Evolves.refl hwf
  | fuel + 1 => fun st h1 h2 hwf h1lt h2lt => by
      have ih := mergeWithFuel_isCoarsening fuel
      unfold mergeWithFuel
      dsimp only
      split_ifs with hab hoff hsize
      · exact Evolves.refl hwf
      · exact foldNodeCompletely_evolves ih hwf _
      · exact (mergeNodes_spec ih hwf (Ne.symm hab) (hwf.normalize_forward _)
          (hwf.normalize_forward _) (hwf.normalize_lt h2lt) (hwf.normalize_lt h1lt)).1
      · exact (mergeNodes_spec ih hwf hab (hwf.normalize_forward _)
          (hwf.normalize_forward _) (hwf.normalize_lt h1lt) (hwf.normalize_lt h2lt)).1

/-- A merge with any fuel left leaves the two handles in one class. -/
theorem mergeWithFuel_rep_eq {st : NodeStore} (hwf : st.WellFormed) (fuel : Nat)
    {h1 h2 : DSNodeHandle} (h1lt : h1.node < st.length) (h2lt : h2.node < st.length) :
    (mergeWithFuel (fuel + 1) st h1 h2).rep h1.node =
      (mergeWithFuel (fuel + 1) st h1 h2).rep h2.node := by
  have ih := mergeWithFuel_isCoarsening fuel
  have hc := (mergeWithFuel_isCoarsening (fuel + 1) st h1 h2 hwf h1lt h2lt).2
  have key : (mergeWithFuel (fuel + 1) st h1 h2).rep (st.normalize h1).node =
      (mergeWithFuel (fuel + 1) st h1 h2).rep (st.normalize h2).node := by
    unfold mergeWithFuel
    dsimp only
    split_ifs with hab hoff hsize
    · rw [hab]
    · rw [hab]
    · exact (mergeNodes_spec ih hwf (Ne.symm hab) (hwf.normalize_forward _)
        (hwf.normalize_forward _) (hwf.normalize_lt h2lt) (hwf.normalize_lt h1lt)).2.symm
    · exact (mergeNodes_spec ih hwf hab (hwf.normalize_forward _)
        (hwf.normalize_forward _) (hwf.normalize_lt h1lt) (hwf.normalize_lt h2lt)).2
  calc _ = (mergeWithFuel (fuel + 1) st h1 h2).rep (st.normalize h1).node :=
        hc.rep_eq _ _ (by rw [normalize_node, hwf.rep_rep])
    _ = (mergeWithFuel (fuel + 1) st h1 h2).rep (st.normalize h2).node := key
    _ = _ := hc.rep_eq _ _ (by rw [normalize_node, hwf.rep_rep])

theorem mergeWith_evolves {st : NodeStore} (hwf : st.WellFormed) {h1 h2 : DSNodeHandle}
    (h1lt : h1.node < st.length) (h2lt : h2.node < st.length) :
    Evolves st (st.mergeWith h1 h2) :=
  mergeWithFuel_isCoarsening _ st h1 h2 hwf h1lt h2lt

/-- After `mergeWith` the two handles read through one node. -/
theorem mergeWith_rep_eq {st : NodeStore} (hwf : st.WellFormed) {h1 h2 : DSNodeHandle}
    (h1lt : h1.node < st.length) (h2lt : h2.node < st.length) :
    (st.mergeWith h1 h2).rep h1.node = (st.mergeWith h1 h2).rep h2.node :=
  mergeWithFuel_rep_eq hwf (2 * st.length) h1lt h2lt

/-- A store whose nodes have no links, no type record and no size, as the
nodes `BasicDataStructures` merges: there a merge is a plain union of two
classes. -/
def Bare (st : NodeStore) : Prop :=
  ∀ n, (st.node n).links = [] ∧ (st.node n).types = [] ∧ (st.node n).size = 0

section Bare

variable {st : NodeStore}

@[simp] theorem redirect_types {s r : Nat} {δ : Int} (N : DSNode) :
    (redirect s r δ N).types = N.types := by
  unfold redirect; split <;> (try split) <;> rfl

@[simp] theorem redirect_size {s r : Nat} {δ : Int} (N : DSNode) :
    (redirect s r δ N).size = N.size := by
  unfold redirect; split <;> (try split) <;> rfl

theorem clampOffset_of_size_eq_zero {N : DSNode} (h : N.size = 0) (o : Nat) :
    N.clampOffset o = 0 := by
  simp [DSNode.clampOffset, h]

/-- On a bare store every handle reads as offset zero of its representative. -/
theorem Bare.normalize_eq (hb : st.Bare) (h : DSNodeHandle) :
    st.normalize h = ⟨st.rep h.node, 0⟩ := by
  unfold NodeStore.normalize NodeStore.rep
  split <;> simp [clampOffset_of_size_eq_zero (hb _).2.2]

theorem Bare.createNode (hb : st.Bare) : st.createNode.Bare := fun n => by
  rw [node_createNode]; exact hb n

theorem Bare.setNode (hb : st.Bare) {n : Nat} {N : DSNode}
    (hN : N.links = [] ∧ N.types = [] ∧ N.size = 0) : (st.setNode n N).Bare := fun m => by
  rw [node_setNode]
  split_ifs
  exacts [hN, hb m]

/-- `r` absorbing `s`, read through the classes: the class of `s` joins the
class of `r`. -/
theorem rep_absorb {r s : DSNodeHandle} (hs : (st.node s.node).forward = none)
    (hslt : s.node < st.length) (hrs : r.node ≠ s.node) (t : Nat) :
    (st.absorb r s).rep t = if st.rep t = s.node then r.node else st.rep t := by
  have hs₁ : ((st.setNode r.node (unite (st.node r.node) (st.node s.node) (r.offset - s.offset))).node
      s.node).forward = none := by
    rw [node_setNode_ne _ _ hrs]; exact hs
  unfold absorb
  dsimp only
  rw [rep_forwardNode hs₁ (by simpa using hslt), rep_setNode (unite_forward _ _ _)]

theorem Bare.absorb_bare (hb : st.Bare) (r s : Nat) : (st.absorb ⟨r, 0⟩ ⟨s, 0⟩).Bare := by
  have hu : ∀ m, ((st.setNode r (unite (st.node r) (st.node s) (0 - 0))).node m).links = [] ∧
      ((st.setNode r (unite (st.node r) (st.node s) (0 - 0))).node m).types = [] ∧
      ((st.setNode r (unite (st.node r) (st.node s) (0 - 0))).node m).size = 0 := by
    intro m
    rw [node_setNode]
    split_ifs
    · simp [unite, (hb r).1, (hb r).2.1, (hb r).2.2, (hb s).2.2]
    · exact hb m
  intro t
  unfold NodeStore.absorb
  dsimp only
  rw [node_forwardNode]
  split_ifs
  · simpa using (hu s).2.2
  · simpa using hu t

/-- On a bare store a merge with fuel left joins two classes, or nothing when
the handles already share one. -/
theorem Bare.mergeWithFuel_eq (hb : st.Bare) (fuel : Nat) (h1 h2 : DSNodeHandle) :
    mergeWithFuel (fuel + 1) st h1 h2 =
      if st.rep h1.node = st.rep h2.node then st
      else st.absorb ⟨st.rep h1.node, 0⟩ ⟨st.rep h2.node, 0⟩ := by
  have hsize : ∀ n, (st.node n).size = 0 := fun n => (hb n).2.2
  simp only [mergeWithFuel, hb.normalize_eq, hsize, lt_irrefl, if_false, if_true]
  split_ifs
  · rfl
  · simp [mergeNodes, (hb _).1, (hb _).2.1]

theorem Bare.mergeWith (hb : st.Bare) (h1 h2 : DSNodeHandle) : (st.mergeWith h1 h2).Bare := by
  rw [NodeStore.mergeWith, hb.mergeWithFuel_eq]
  split_ifs
  · exact hb
  · exact hb.absorb_bare _ _

/-- On a bare store, `mergeWith h1 h2` moves the class of `h2` into the class
of `h1` and leaves every other class as it was. -/
theorem Bare.rep_mergeWith (hwf : st.WellFormed) (hb : st.Bare) {h1 h2 : DSNodeHandle}
    (h2lt : h2.node < st.length) (t : Nat) :
    (st.mergeWith h1 h2).rep t = if st.rep t = st.rep h2.node then st.rep h1.node else st.rep t := by
  have hs : (st.node (st.rep h2.node)).forward = none := hwf.repNode_forward h2.node
  rw [NodeStore.mergeWith, hb.mergeWithFuel_eq]
  by_cases h12 : st.rep h1.node = st.rep h2.node
  · rw [if_pos h12]
    split_ifs with ht
    · rw [ht, h12]
    · rfl
  · rw [if_neg h12, rep_absorb hs (hwf.rep_lt h2lt) h12]

end Bare

end NodeStore

end DSA
