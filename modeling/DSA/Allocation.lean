/-
Which nodes the fixpoint loops allocate.  A merge never adds a node to the
store; the only allocation is `getNodeForValue` binding a fresh node to a
value the scalar map lacks, which `mergeInGraph` does for the pointer formals
of a callee.  So over a run of the `Steensgaard.cpp` loop the number of nodes
plus the number of unbound pointer formals of the module is conserved, and a
loop entered with every pointer formal bound allocates nothing; the loop of
`Basic.cpp` allocates no node and binds no value.
-/
import DSA.Steensgaard
import Mathlib.Data.List.Dedup

namespace DSA

/-- A fold whose every step keeps a quantity keeps it. -/
theorem foldl_keeps {α β γ : Type} (Φ : α → γ) (f : α → β → α) (hf : ∀ a b, Φ (f a b) = Φ a) :
    ∀ (l : List β) (a : α), Φ (l.foldl f a) = Φ a
  | [], _ => rfl
  | b :: l, a => (foldl_keeps Φ f hf l (f a b)).trans (hf a b)

/-- Turning one member `v` of a duplicate-free list from satisfying `p` to
not satisfying it, and leaving the others alone, lowers the count by one. -/
theorem countP_update {v : Nat} {p q : Nat → Bool} (hpq : ∀ w, w ≠ v → q w = p w)
    (hp : p v = true) (hq : q v = false) :
    ∀ {L : List Nat}, L.Nodup → v ∈ L → L.countP q + 1 = L.countP p
  | a :: L, hnd, hv => by
      rw [List.nodup_cons] at hnd
      rw [List.countP_cons, List.countP_cons]
      rcases List.mem_cons.mp hv with rfl | hv
      · have hL : L.countP q = L.countP p :=
          List.countP_congr fun w hw => by rw [hpq w fun h => hnd.1 (h ▸ hw)]
        simp [hp, hq, hL]
      · rw [hpq a fun h => hnd.1 (h ▸ hv), ← countP_update hpq hp hq hnd.2 hv]
        omega

namespace NodeStore

section Length

variable {merge : NodeStore → DSNodeHandle → DSNodeHandle → NodeStore}
  (hm : ∀ st h1 h2, (merge st h1 h2).length = st.length)
include hm

theorem length_addEdgeTo (st : NodeStore) (dst h : DSNodeHandle) :
    (addEdgeTo merge st dst h).length = st.length := by
  unfold addEdgeTo
  dsimp only
  split <;> simp [hm]

theorem length_foldNodeCompletely (st : NodeStore) (n : Nat) :
    (foldNodeCompletely merge st n).length = st.length := by
  unfold foldNodeCompletely
  dsimp only
  split_ifs
  · rfl
  · exact (foldl_keeps length _ (fun st l => length_addEdgeTo hm st _ _) _ _).trans
      (length_setNode _ _ _)

theorem length_installType (st : NodeStore) (dst : DSNodeHandle) (t : Nat × Nat) :
    (installType merge st dst t).length = st.length := by
  unfold installType
  dsimp only
  split_ifs
  · rfl
  · exact length_foldNodeCompletely hm st _
  · exact length_setNode _ _ _

theorem length_mergeNodes (st : NodeStore) (r s : DSNodeHandle) :
    (mergeNodes merge st r s).length = st.length := by
  unfold mergeNodes absorb
  dsimp only
  refine (foldl_keeps length _ (fun st t => length_installType hm st _ _) _ _).trans ?_
  refine (foldl_keeps length _ (fun st l => length_addEdgeTo hm st _ _) _ _).trans ?_
  simp

end Length

theorem length_mergeWithFuel : ∀ (fuel : Nat) (st : NodeStore) (h1 h2 : DSNodeHandle),
    (mergeWithFuel fuel st h1 h2).length = st.length
  | 0, _, _, _ => rfl
  | fuel + 1, st, h1, h2 => by
      unfold mergeWithFuel
      dsimp only
      split_ifs
      · rfl
      · exact length_foldNodeCompletely (length_mergeWithFuel fuel) st _
      · exact length_mergeNodes (length_mergeWithFuel fuel) st _ _
      · exact length_mergeNodes (length_mergeWithFuel fuel) st _ _

@[simp] theorem length_mergeWith (st : NodeStore) (h1 h2 : DSNodeHandle) :
    (st.mergeWith h1 h2).length = st.length :=
  length_mergeWithFuel _ st h1 h2

end NodeStore

namespace DSGraph

/-- What a merge leaves alone: the number of nodes and the scalar map. -/
def arena (g : DSGraph) : Nat × List (Nat × DSNodeHandle) := (g.store.length, g.scalarMap)

variable {g : DSGraph}

@[simp] theorem arena_mergeWith (h1 h2 : DSNodeHandle) : (g.mergeWith h1 h2).arena = g.arena := by
  simp [arena, mergeWith]

@[simp] theorem arena_mergeOpt (o1 o2 : Option DSNodeHandle) : (g.mergeOpt o1 o2).arena = g.arena := by
  cases o1 <;> cases o2 <;> simp [mergeOpt]

theorem arena_bindArguments (va : Option DSNodeHandle) :
    ∀ (g : DSGraph) (fs as : List DSNodeHandle), (g.bindArguments va fs as).arena = g.arena
  | g, f :: fs, a :: as => by
      rw [bindArguments, arena_bindArguments va _ fs as, arena_mergeWith]
  | g, [], extras => by
      rw [bindArguments]
      exact foldl_keeps arena _ (fun g h => arena_mergeOpt _ _) extras g
  | g, _ :: _, [] => by
      simp only [bindArguments]
      exact foldl_keeps arena _ (fun g h => arena_mergeOpt _ _) _ g

theorem arena_resolvePtrArgs (valMap : List (Nat × DSNodeHandle)) (args : List Argument)
    (ps : List DSNodeHandle) : (resolvePtrArgs valMap g args ps).arena = g.arena := by
  rw [resolvePtrArgs_eq_mergePairs, mergePairs]
  exact foldl_keeps arena _ (fun g p => arena_mergeWith _ _) _ g

/-- `ResolveFunctionCall` only merges. -/
theorem arena_resolveFunctionCall (F : Function) (cs : DSCallSite) :
    (g.resolveFunctionCall F cs).arena = g.arena := by
  simp only [resolveFunctionCall, arena_resolvePtrArgs, arena_mergeOpt]

/-- `mergeInGraph` allocates only while looking up the callee's formals. -/
theorem arena_mergeInGraph (cs : DSCallSite) (F : Function) :
    (g.mergeInGraph cs F).arena = (g.getNodesForValues (F.ptrArgs.map (·.value))).1.arena := by
  simp only [mergeInGraph, arena_bindArguments, arena_mergeOpt]

end DSGraph

namespace Steensgaard

open DSGraph

variable (M : Module)

/-- The pointer formals of the module's functions, each once. -/
def ptrFormals : List Nat := (M.functions.flatMap fun F => F.ptrArgs.map (·.value)).dedup

/-- The number of pointer formals the scalar map of `g` does not bind. -/
def unboundFormals (g : DSGraph) : Nat := (ptrFormals M).countP fun v => (g.scalarMap.lookup v).isNone

/-- Nodes plus unbound pointer formals, the quantity the loop conserves. -/
def allocationBalance (g : DSGraph) : Nat := g.store.length + unboundFormals M g

theorem allocationBalance_eq_of_arena {g g' : DSGraph} (h : g'.arena = g.arena) :
    allocationBalance M g' = allocationBalance M g := by
  simp only [arena, Prod.mk.injEq] at h
  simp only [allocationBalance, unboundFormals, h.1, h.2]

/-- Binding a fresh node to an unbound pointer formal adds a node and removes
an unbound formal. -/
theorem allocationBalance_getNodeForValue (g : DSGraph) {v : Nat} (hv : v ∈ ptrFormals M) :
    allocationBalance M (g.getNodeForValue v).1 = allocationBalance M g := by
  unfold getNodeForValue
  split
  · rfl
  · next hnone =>
      have h := @countP_update v (fun w => (g.scalarMap.lookup w).isNone)
        (fun w => (((v, (⟨g.store.length, 0⟩ : DSNodeHandle)) :: g.scalarMap).lookup w).isNone)
        (fun w hw => by simp [List.lookup_cons, beq_eq_false_iff_ne.mpr hw])
        (by simp [hnone]) (by simp [List.lookup_cons]) _ (show (ptrFormals M).Nodup from List.nodup_dedup _) hv
      simp only [allocationBalance, unboundFormals, NodeStore.length_createNode]
      omega

theorem allocationBalance_getNodesForValues : ∀ (g : DSGraph) (vs : List Nat),
    (∀ v ∈ vs, v ∈ ptrFormals M) →
      allocationBalance M (g.getNodesForValues vs).1 = allocationBalance M g
  | _, [], _ => rfl
  | g, v :: vs, h => by
      obtain ⟨hv, hvs⟩ := List.forall_mem_cons.mp h
      exact (allocationBalance_getNodesForValues _ vs hvs).trans
        (allocationBalance_getNodeForValue M g hv)

/-- Resolving a call against a function of the module keeps the balance. -/
theorem allocationBalance_mergeInGraph (g : DSGraph) (cs : DSCallSite) {F : Function}
    (hF : F ∈ M.functions) : allocationBalance M (g.mergeInGraph cs F) = allocationBalance M g := by
  rw [allocationBalance_eq_of_arena M (arena_mergeInGraph cs F)]
  refine allocationBalance_getNodesForValues M g _ fun v hv => ?_
  exact List.mem_dedup.mpr (List.mem_flatMap.mpr ⟨F, hF, hv⟩)

section Run

variable {M} {resolve : DSGraph → DSCallSite → Function → DSGraph} {α : Type}
  (Φ : DSGraph → α) (hΦ : ∀ g cs F, F ∈ M.functions → Φ (resolve g cs F) = Φ g)
include hΦ

theorem resolveTarget_keeps (cs : DSCallSite) (g : DSGraph) (f : Nat) :
    Φ (resolveTarget M resolve cs g f) = Φ g := by
  unfold resolveTarget
  split
  · next F hF =>
      split_ifs
      · rfl
      · exact hΦ g cs F (Module.mem_of_function? hF)
  · rfl

theorem resolveCalls_keeps : ∀ (g : DSGraph) (calls : List DSCallSite) (targets : List FuncSet),
    Φ (resolveCalls M resolve g calls targets) = Φ g
  | g, cs :: calls, ts :: targets =>
      (resolveCalls_keeps _ calls targets).trans
        (foldl_keeps Φ _ (resolveTarget_keeps Φ hΦ cs) ts.toList g)
  | _, [], _ => rfl
  | _, _ :: _, [] => rfl

/-- A quantity every resolution step keeps is the same at exit of the loop as
on entry. -/
theorem fixpoint_keeps : ∀ (fuel : Nat) (g : DSGraph) (cg : List FuncSet) (r : DSGraph × List FuncSet),
    fixpoint M resolve fuel g cg = some r → Φ r.1 = Φ g
  | 0, _, _, _, h => by cases h
  | fuel + 1, g, cg, r, h => by
      unfold fixpoint at h
      dsimp only at h
      split_ifs at h
      · exact (fixpoint_keeps fuel _ _ r h).trans (resolveCalls_keeps Φ hΦ g _ _)
      · cases h
        rfl

end Run

/-- The loops allocate a node only for a pointer formal of a callee that the
scalar map does not bind, and bind it at once: over a run of the
`Steensgaard.cpp` loop the number of nodes plus the number of unbound pointer
formals of the module does not change, so a loop entered with every pointer
formal bound allocates no node.  The loop of `Basic.cpp` allocates no node and
binds no value. -/
theorem fixpoint_allocation (M : Module) (g0 : DSGraph) :
    (∀ fuel r, steensgaardFixpoint M fuel g0 = some r →
      r.1.store.length + unboundFormals M r.1 = g0.store.length + unboundFormals M g0) ∧
    (∀ fuel r, basicFixpoint M fuel g0 = some r →
      r.1.store.length = g0.store.length ∧ r.1.scalarMap = g0.scalarMap) :=
  ⟨fun fuel r h => fixpoint_keeps (allocationBalance M)
      (fun g cs _ hF => allocationBalance_mergeInGraph M g cs hF) fuel g0 [] r h,
    fun fuel r h => Prod.ext_iff.mp (fixpoint_keeps arena
      (fun _ cs F _ => arena_resolveFunctionCall F cs) fuel g0 [] r h)⟩

/-- On `fp.ll` the pointer formals are bound on entry: the loop allocates no node. -/
example : unboundFormals fpModule fpGraph = 0 ∧
    (steensgaardFixpoint fpModule 2 fpGraph).map (·.1.store.length) = some fpGraph.store.length := by
  decide

end Steensgaard

end DSA
