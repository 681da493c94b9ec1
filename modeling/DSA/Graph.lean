/-
A DS graph: the node store together with the scalar map from program values
to handles, the return and vararg handles of each function, and the list of
call sites still to be resolved.  Graph operations change the store only by
merges and by fresh nodes, and the scalar map only by new bindings, so each of
them coarsens the graph.
-/
import DSA.Merge
import DSA.IR

namespace DSA

/-- The callee of a call-site record: a known function, or the node the
called pointer reaches. -/
inductive DSCallee where
  | direct (f : Nat)
  | indirect (callee : DSNodeHandle)
deriving DecidableEq, Repr

/-- `DSCallSite`: the IR call site, its callee, and the handles of its return
value, vararg area and pointer arguments (a missing handle is null). -/
structure DSCallSite where
  callSite : Nat
  callee : DSCallee
  retVal : Option DSNodeHandle
  vaVal : Option DSNodeHandle
  ptrArgs : List DSNodeHandle
deriving DecidableEq, Repr

namespace DSCallSite

def isDirectCall (cs : DSCallSite) : Bool :=
  match cs.callee with
  | .direct _ => true
  | .indirect _ => false

def getNumPtrArgs (cs : DSCallSite) : Nat := cs.ptrArgs.length

/-- Every handle the record holds. -/
def handles (cs : DSCallSite) : List DSNodeHandle :=
  (match cs.callee with
    | .direct _ => []
    | .indirect h => [h]) ++ cs.retVal.toList ++ cs.vaVal.toList ++ cs.ptrArgs

theorem retVal_mem_handles {cs : DSCallSite} {h : DSNodeHandle} (hr : cs.retVal = some h) :
    h ∈ cs.handles := by
  simp [handles, hr]

theorem vaVal_mem_handles {cs : DSCallSite} {h : DSNodeHandle} (hv : cs.vaVal = some h) :
    h ∈ cs.handles := by
  simp [handles, hv]

theorem ptrArg_mem_handles {cs : DSCallSite} {h : DSNodeHandle} (hp : h ∈ cs.ptrArgs) :
    h ∈ cs.handles := by
  simp [handles, hp]

theorem callee_mem_handles {cs : DSCallSite} {h : DSNodeHandle}
    (hc : cs.callee = .indirect h) : h ∈ cs.handles := by
  simp [handles, hc]

end DSCallSite

/-- Modelled from the spec: `DSGraph` (data model, DS graph). -/
structure DSGraph where
  store : NodeStore
  scalarMap : List (Nat × DSNodeHandle)
  returnNodes : List (Nat × DSNodeHandle)
  vaNodes : List (Nat × DSNodeHandle)
  functionCalls : List DSCallSite
deriving DecidableEq, Repr

namespace DSGraph

def getReturnNodeFor (g : DSGraph) (f : Nat) : Option DSNodeHandle := g.returnNodes.lookup f

def getVANodeFor (g : DSGraph) (f : Nat) : Option DSNodeHandle := g.vaNodes.lookup f

/-- The representative node a handle reads through. -/
def repOf (g : DSGraph) (h : DSNodeHandle) : Nat := g.store.rep h.node

/-- Merge two handles of the graph. -/
def mergeWith (g : DSGraph) (h1 h2 : DSNodeHandle) : DSGraph :=
  { g with store := g.store.mergeWith h1 h2 }

/-- Merge two possibly null handles: a null handle has no node to merge. -/
def mergeOpt (g : DSGraph) : Option DSNodeHandle → Option DSNodeHandle → DSGraph
  | some h1, some h2 => g.mergeWith h1 h2
  | _, _ => g

/-- Modelled from the spec: `getNodeForValue` (§4.2) returns the handle bound
to `v`, binding a fresh empty node first when there is none. -/
def getNodeForValue (g : DSGraph) (v : Nat) : DSGraph × DSNodeHandle :=
  match g.scalarMap.lookup v with
  | some h => (g, h)
  | none =>
    let h : DSNodeHandle := ⟨g.store.length, 0⟩
    ({ g with store := g.store.createNode, scalarMap := (v, h) :: g.scalarMap }, h)

/-- `getNodeForValue` over a list of values, in order. -/
def getNodesForValues (g : DSGraph) : List Nat → DSGraph × List DSNodeHandle
  | [] => (g, [])
  | v :: vs =>
    let r := g.getNodeForValue v
    let rs := r.1.getNodesForValues vs
    (rs.1, r.2 :: rs.2)

/-- Every handle the graph holds points into its arena, and the store keeps
its invariant. -/
structure WellFormed (g : DSGraph) : Prop where
  store : g.store.WellFormed
  scalar_lt : ∀ v h, (v, h) ∈ g.scalarMap → h.node < g.store.length
  return_lt : ∀ f h, (f, h) ∈ g.returnNodes → h.node < g.store.length
  va_lt : ∀ f h, (f, h) ∈ g.vaNodes → h.node < g.store.length
  call_lt : ∀ cs ∈ g.functionCalls, ∀ h ∈ cs.handles, h.node < g.store.length

/-- `WellFormed` with every quantifier bounded by a list of the graph. -/
theorem wellFormed_iff (g : DSGraph) : g.WellFormed ↔ g.store.WellFormed ∧
    (∀ p ∈ g.scalarMap, p.2.node < g.store.length) ∧
    (∀ p ∈ g.returnNodes, p.2.node < g.store.length) ∧
    (∀ p ∈ g.vaNodes, p.2.node < g.store.length) ∧
    ∀ cs ∈ g.functionCalls, ∀ h ∈ cs.handles, h.node < g.store.length :=
  ⟨fun h => ⟨h.store, fun p => h.scalar_lt p.1 p.2, fun p => h.return_lt p.1 p.2,
      fun p => h.va_lt p.1 p.2, h.call_lt⟩,
    fun ⟨hst, hs, hr, hv, hc⟩ => ⟨hst, fun v h => hs (v, h), fun f h => hr (f, h),
      fun f h => hv (f, h), hc⟩⟩

instance (g : DSGraph) : Decidable g.WellFormed := decidable_of_iff _ g.wellFormed_iff.symm

/-- `g'` arises from `g` by merges and new bindings: the graph stays well
formed, its store only coarsens, bindings persist, and the return map, vararg
map and call list are untouched. -/
structure Evolves (g g' : DSGraph) : Prop where
  wf : g'.WellFormed
  store : g.store.Coarsens g'.store
  lookup : ∀ v h, g.scalarMap.lookup v = some h → g'.scalarMap.lookup v = some h
  returnNodes : g'.returnNodes = g.returnNodes
  vaNodes : g'.vaNodes = g.vaNodes
  functionCalls : g'.functionCalls = g.functionCalls

theorem Evolves.refl {g : DSGraph} (hwf : g.WellFormed) : Evolves g g :=
  ⟨hwf, NodeStore.Coarsens.refl _, fun _ _ h => h, rfl, rfl, rfl⟩

theorem Evolves.trans {g₁ g₂ g₃ : DSGraph} (h₁ : Evolves g₁ g₂) (h₂ : Evolves g₂ g₃) :
    Evolves g₁ g₃ :=
  ⟨h₂.wf, h₁.store.trans h₂.store, fun v h hv => h₂.lookup v h (h₁.lookup v h hv),
    h₂.returnNodes.trans h₁.returnNodes, h₂.vaNodes.trans h₁.vaNodes,
    h₂.functionCalls.trans h₁.functionCalls⟩

/-- Handles that point into the arena stay so as the graph evolves. -/
theorem Evolves.lt {g g' : DSGraph} (hg : Evolves g g') {h : DSNodeHandle}
    (hh : h.node < g.store.length) : h.node < g'.store.length :=
  lt_of_lt_of_le hh hg.store.length_le

theorem Evolves.repOf_eq {g g' : DSGraph} (hg : Evolves g g') {h1 h2 : DSNodeHandle}
    (h : g.repOf h1 = g.repOf h2) : g'.repOf h1 = g'.repOf h2 :=
  hg.store.rep_eq _ _ h

variable {g : DSGraph}

theorem WellFormed.lookup_lt (hwf : g.WellFormed) {v : Nat} {h : DSNodeHandle}
    (hv : g.scalarMap.lookup v = some h) : h.node < g.store.length :=
  hwf.scalar_lt v h (mem_of_lookup_eq_some hv)

theorem WellFormed.getReturnNodeFor_lt (hwf : g.WellFormed) {f : Nat} {h : DSNodeHandle}
    (hf : g.getReturnNodeFor f = some h) : h.node < g.store.length :=
  hwf.return_lt f h (mem_of_lookup_eq_some hf)

theorem WellFormed.getVANodeFor_lt (hwf : g.WellFormed) {f : Nat} {h : DSNodeHandle}
    (hf : g.getVANodeFor f = some h) : h.node < g.store.length :=
  hwf.va_lt f h (mem_of_lookup_eq_some hf)

/-- Replacing the store by one that evolved from it keeps the graph evolving. -/
theorem evolves_of_store (hwf : g.WellFormed) {st : NodeStore} (hst : g.store.Evolves st) :
    Evolves g { g with store := st } := by
  have hle := hst.2.length_le
  exact ⟨⟨hst.1, fun v h hv => lt_of_lt_of_le (hwf.scalar_lt v h hv) hle,
    fun f h hf => lt_of_lt_of_le (hwf.return_lt f h hf) hle,
    fun f h hf => lt_of_lt_of_le (hwf.va_lt f h hf) hle,
    fun cs hcs h hh => lt_of_lt_of_le (hwf.call_lt cs hcs h hh) hle⟩,
    hst.2, fun _ _ h => h, rfl, rfl, rfl⟩

theorem mergeWith_evolves (hwf : g.WellFormed) {h1 h2 : DSNodeHandle}
    (h1lt : h1.node < g.store.length) (h2lt : h2.node < g.store.length) :
    Evolves g (g.mergeWith h1 h2) :=
  evolves_of_store hwf (NodeStore.mergeWith_evolves hwf.store h1lt h2lt)

theorem mergeWith_repOf (hwf : g.WellFormed) {h1 h2 : DSNodeHandle}
    (h1lt : h1.node < g.store.length) (h2lt : h2.node < g.store.length) :
    (g.mergeWith h1 h2).repOf h1 = (g.mergeWith h1 h2).repOf h2 :=
  NodeStore.mergeWith_rep_eq hwf.store h1lt h2lt

theorem mergeOpt_evolves (hwf : g.WellFormed) {o1 o2 : Option DSNodeHandle}
    (h1lt : ∀ h ∈ o1, h.node < g.store.length) (h2lt : ∀ h ∈ o2, h.node < g.store.length) :
    Evolves g (g.mergeOpt o1 o2) := by
  cases o1 <;> cases o2
  all_goals first
    | exact Evolves.refl hwf
    | exact mergeWith_evolves hwf (h1lt _ rfl) (h2lt _ rfl)

theorem mergeOpt_repOf (hwf : g.WellFormed) {h1 h2 : DSNodeHandle}
    (h1lt : h1.node < g.store.length) (h2lt : h2.node < g.store.length) :
    (g.mergeOpt (some h1) (some h2)).repOf h1 = (g.mergeOpt (some h1) (some h2)).repOf h2 :=
  mergeWith_repOf hwf h1lt h2lt

theorem getNodeForValue_evolves (hwf : g.WellFormed) (v : Nat) :
    Evolves g (g.getNodeForValue v).1 ∧ (g.getNodeForValue v).1.scalarMap.lookup v =
      some (g.getNodeForValue v).2 := by
  unfold getNodeForValue
  split
  · next h hv => exact ⟨Evolves.refl hwf, hv⟩
  · next hv =>
      have hst := NodeStore.createNode_evolves hwf.store
      refine ⟨⟨⟨hst.1, ?_, ?_, ?_, ?_⟩, hst.2, ?_, rfl, rfl, rfl⟩, by simp⟩
      · intro w h hh
        rcases List.mem_cons.mp hh with hh | hh
        · cases hh; simp
        · simpa using Nat.lt_succ_of_lt (hwf.scalar_lt w h hh)
      · intro f h hh; simpa using Nat.lt_succ_of_lt (hwf.return_lt f h hh)
      · intro f h hh; simpa using Nat.lt_succ_of_lt (hwf.va_lt f h hh)
      · intro cs hcs h hh; simpa using Nat.lt_succ_of_lt (hwf.call_lt cs hcs h hh)
      · intro w h hw
        have hne : (w == v) = false := by
          rw [beq_eq_false_iff_ne]; rintro rfl; simp [hv] at hw
        simp [List.lookup_cons, hne, hw]

theorem getNodesForValues_evolves (hwf : g.WellFormed) (vs : List Nat) :
    Evolves g (g.getNodesForValues vs).1 ∧ (g.getNodesForValues vs).2.length = vs.length ∧
      ∀ k (hk : k < vs.length), (g.getNodesForValues vs).1.scalarMap.lookup vs[k] =
        (g.getNodesForValues vs).2[k]? := by
  induction vs generalizing g with
  | nil => exact ⟨Evolves.refl hwf, rfl, fun k hk => absurd hk (Nat.not_lt_zero k)⟩
  | cons v vs ih =>
      obtain ⟨h₁, hv⟩ := getNodeForValue_evolves hwf v
      obtain ⟨h₂, hlen, hlook⟩ := ih h₁.wf
      refine ⟨h₁.trans h₂, by simp [getNodesForValues, hlen], ?_⟩
      intro k hk
      cases k with
      | zero => simpa [getNodesForValues] using h₂.lookup _ _ hv
      | succ k => simpa [getNodesForValues] using hlook k (by simpa using hk)

/-- A loop of evolving steps evolves, when what each step needs of its item
survives evolution. -/
theorem foldl_evolves {α : Type} (f : DSGraph → α → DSGraph) (ok : DSGraph → α → Prop)
    (hok : ∀ g g' a, ok g a → Evolves g g' → ok g' a)
    (hf : ∀ g a, g.WellFormed → ok g a → Evolves g (f g a)) :
    ∀ (l : List α) (g : DSGraph), g.WellFormed → (∀ a ∈ l, ok g a) → Evolves g (l.foldl f g)
  | [], _, hwf, _ => Evolves.refl hwf
  | a :: l, g, hwf, hl => by
      have ha := hf g a hwf (hl a (List.mem_cons_self _ _))
      exact ha.trans (foldl_evolves f ok hok hf l _ ha.wf
        (fun b hb => hok _ _ b (hl b (List.mem_cons_of_mem _ hb)) ha))

end DSGraph

end DSA
