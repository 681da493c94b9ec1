/-
The closed partitions of the spec, against which the partition of nodes the
Steensgaard loop computes is measured: a partition that contains the entry
graph's classes, is closed under the merge congruence (§4.1) and is closed
under call resolution for the callee sets it induces itself.

The conditions compare classes, not offsets.  The results that use them are
about bare graphs, whose nodes hold no edges and have size 0, so that every
offset reads as 0 (`NodeStore.Bare.normalize_eq`): there the congruence is
vacuous and handles at corresponding offsets are handles of one class.  A
graph that evolved from such an entry graph and is closed under call
resolution gives a closed partition of the entry graph.
-/
import DSA.Steensgaard

namespace DSA

namespace NodeStore

theorem bare_iff (st : NodeStore) :
    st.Bare ↔ ∀ N ∈ st.nodes, N.links = [] ∧ N.types = [] ∧ N.size = 0 :=
  ⟨fun h N hN => by
      obtain ⟨n, rfl⟩ := exists_node_eq_of_mem hN
      exact h n,
    fun h n => by
      rcases node_mem_or_eq_empty st n with hN | hN
      · exact h _ hN
      · rw [hN]; exact ⟨rfl, rfl, rfl⟩⟩

instance (st : NodeStore) : Decidable st.Bare := decidable_of_iff _ (bare_iff st).symm

end NodeStore

namespace Steensgaard

open DSGraph

variable (M : Module)

/-- A partition of the nodes of `g`, as a class label per node. -/
abbrev Partition := Nat → Nat

/-- The partition contains the classes of `g`. -/
def ContainsClasses (g : DSGraph) (cls : Partition) : Prop :=
  ∀ n < g.store.length, ∀ m < g.store.length, g.store.rep n = g.store.rep m → cls n = cls m

/-- From the spec's §4.1: when two nodes are in one class, their edges at one
offset lead into one class (vacuous on bare graphs). -/
def Congruent (g : DSGraph) (cls : Partition) : Prop :=
  ∀ n < g.store.length, ∀ m < g.store.length, cls n = cls m →
    ∀ l ∈ (g.store.node n).links, ∀ l' ∈ (g.store.node m).links, l.1 = l'.1 →
      cls l.2.node = cls l'.2.node

/-- The callees a partition induces for a call site: a direct call's defined
callee; for an indirect call, the functions among the globals of the nodes in
the callee's class that `functionIsCallable` accepts. -/
def calleesUnder (g : DSGraph) (cls : Partition) (cs : DSCallSite) : List Nat :=
  match cs.callee with
  | .direct f => if M.isDefined f then [f] else []
  | .indirect h =>
    ((List.range g.store.length).filter (cls · = cls h.node)).flatMap fun n =>
      ((g.store.node n).globals.filterMap GlobalValue.asFunction).filter
        (M.functionIsCallable cs.callSite)

/-- Resolving `cs` against `F` leaves nothing to unify in `cls`: the return
handle with `F`'s return node, the vararg handle with `F`'s vararg node, and
the `k`-th pointer argument with the `k`-th pointer formal, compared by class
since on bare graphs every offset reads as 0. -/
def BindsUnder (g : DSGraph) (cls : Partition) (cs : DSCallSite) (F : Function) : Prop :=
  (∀ r ∈ g.getReturnNodeFor F.id, ∀ c ∈ cs.retVal, cls r.node = cls c.node) ∧
  (∀ r ∈ g.getVANodeFor F.id, ∀ c ∈ cs.vaVal, cls r.node = cls c.node) ∧
  ∀ p ∈ F.ptrArgs.zip cs.ptrArgs,
    (g.scalarMap.lookup p.1.value).any fun h => cls h.node == cls p.2.node

/-- The partition is closed under call resolution for its own callee sets. -/
def ResolvesUnder (g : DSGraph) (cls : Partition) : Prop :=
  ∀ cs ∈ g.functionCalls, ∀ f ∈ calleesUnder M g cls cs, ∀ F ∈ M.function? f,
    F.isDeclaration = false → BindsUnder g cls cs F

/-- The closed partitions above the classes of the entry graph `g`. -/
def IsClosedPartition (g : DSGraph) (cls : Partition) : Prop :=
  ContainsClasses g cls ∧ Congruent g cls ∧ ResolvesUnder M g cls

/-- `cls` is closed and lies below every closed partition, on the nodes of `g`. -/
def IsLeastClosedPartition (g : DSGraph) (cls : Partition) : Prop :=
  IsClosedPartition M g cls ∧ ∀ R, IsClosedPartition M g R →
    ∀ n < g.store.length, ∀ m < g.store.length, cls n = cls m → R n = R m

section Decide

variable (g : DSGraph) (cls : Partition)

instance : Decidable (ContainsClasses g cls) :=
  inferInstanceAs (Decidable (∀ n < g.store.length, ∀ m < g.store.length, _))

instance : Decidable (Congruent g cls) :=
  inferInstanceAs (Decidable (∀ n < g.store.length, ∀ m < g.store.length, _))

instance (cs : DSCallSite) (F : Function) : Decidable (BindsUnder g cls cs F) :=
  inferInstanceAs (Decidable (_ ∧ _ ∧ _))

instance : Decidable (ResolvesUnder M g cls) :=
  inferInstanceAs (Decidable (∀ cs ∈ g.functionCalls, ∀ f ∈ calleesUnder M g cls cs, _))

instance : Decidable (IsClosedPartition M g cls) :=
  inferInstanceAs (Decidable (_ ∧ _ ∧ _))

end Decide

section Closed

variable {M} {g0 g : DSGraph} {R : Partition}

/-- On an entry graph of live nodes, a callee the partition of a later state
induces for a call is one `getAllCallees` finds in that state. -/
theorem mem_getAllCallees_of_calleesUnder (hlive : ∀ N ∈ g0.store.nodes, N.forward = none)
    (hev : Evolves g0 g) {cs : DSCallSite} {f : Nat}
    (hf : f ∈ calleesUnder M g0 g.store.rep cs) : f ∈ getAllCallees M g cs := by
  rw [mem_getAllCallees]
  unfold calleesUnder at hf
  cases hcallee : cs.callee with
  | direct d =>
    simp only [hcallee] at hf ⊢
    split_ifs at hf with hd
    · exact ⟨List.mem_singleton.mp hf, hd⟩
    · cases hf
  | indirect h =>
    simp only [hcallee, List.mem_flatMap, List.mem_filter, List.mem_range,
      List.mem_filterMap, decide_eq_true_eq] at hf ⊢
    obtain ⟨n, ⟨-, hrep⟩, ⟨x, hx, hxf⟩, hc⟩ := hf
    have hfw : (g0.store.node n).forward = none :=
      (g0.store.node_mem_or_eq_empty n).elim (hlive _) fun he => by rw [he]
    have hxn : x ∈ (g0.store.repNode n).globals := by
      rw [NodeStore.repNode, NodeStore.rep_of_forward_none _ hfw]; exact hx
    have hxg := hev.store.globals_sub n x hxn
    rw [NodeStore.repNode, hrep] at hxg
    have hxf' : x = .function f := by cases x <;> cases hxf; rfl
    subst hxf'
    exact ⟨hxg, hc⟩

theorem bindsUnder_of_binds (hev : Evolves g0 g) {cs : DSCallSite} {F : Function}
    (hFB : FormalsBound g0 F) (hbd : Binds g cs F) : BindsUnder g0 g.store.rep cs F := by
  refine ⟨fun r hr c hc => hbd.ret r c (by rw [getReturnNodeFor, hev.returnNodes]; exact hr) hc,
    fun r hr c hc => hbd.va r c (by rw [getVANodeFor, hev.vaNodes]; exact hr) hc, fun p hp => ?_⟩
  obtain ⟨k, hk, rfl⟩ := List.getElem_of_mem hp
  rw [List.length_zip] at hk
  have hkF : k < F.ptrArgs.length := lt_of_lt_of_le hk (min_le_left _ _)
  obtain ⟨h, hl, hrep⟩ := hbd.args k hkF (lt_of_lt_of_le hk (min_le_right _ _))
  have hptr := List.mem_filter.mp (List.getElem_mem hkF)
  obtain ⟨h₀, hl₀⟩ := Option.isSome_iff_exists.mp
    ((hFB _ hptr.1).trans hptr.2)
  rw [hev.lookup _ _ hl₀, Option.some.injEq] at hl
  subst hl
  simpa [List.getElem_zip, hl₀] using hrep

/-- Closure under call resolution for the partition's own callee sets only
reads which calls the graph holds. -/
theorem ResolvesUnder.perm {calls : List DSCallSite} (hperm : calls.Perm g0.functionCalls)
    (hR : ResolvesUnder M g0 R) : ResolvesUnder M { g0 with functionCalls := calls } R :=
  fun cs hcs => hR cs (hperm.subset hcs)

/-- A graph that evolved from an entry graph of bare live nodes whose
functions' pointer formals are bound, and that is closed under call
resolution, gives a closed partition of the entry graph. -/
theorem isClosedPartition_of_closed (hb : g0.store.Bare)
    (hlive : ∀ N ∈ g0.store.nodes, N.forward = none)
    (hbound : ∀ F ∈ M.functions, FormalsBound g0 F) (hev : Evolves g0 g)
    (hclosed : ClosedUnderCalls M g) : IsClosedPartition M g0 g.store.rep := by
  refine ⟨fun n _ m _ h => hev.store.rep_eq n m h, fun n _ m _ _ l hl => ?_,
    fun cs hcs f hf F hF hdecl => ?_⟩
  · rw [(hb n).1] at hl; cases hl
  · exact bindsUnder_of_binds hev (hbound F (Module.mem_of_function? hF))
      (hclosed cs (hev.functionCalls ▸ hcs) f (mem_getAllCallees_of_calleesUnder hlive hev hf) F hF hdecl)

/-- A run of the loop that returns ends at a reachable state that evolved from
the entry graph and is closed under call resolution. -/
theorem fixpoint_exit_closed {resolve : DSGraph → DSCallSite → Function → DSGraph}
    {P : DSGraph → Function → Prop} (he : Evolving resolve) (hres : Resolves resolve P)
    (hwf : g0.WellFormed) (hP : ∀ F ∈ M.functions, P g0 F) {fuel : Nat}
    {r : DSGraph × List FuncSet} (h : fixpoint M resolve fuel g0 [] = some r) :
    ∃ cg, Reachable M resolve g0 r.1 cg ∧ Evolves g0 r.1 ∧ ClosedUnderCalls M r.1 := by
  obtain ⟨cg, hr, hexit⟩ := fixpoint_exit fuel Reachable.entry h
  exact ⟨cg, hr, (hr.runInv he hwf).evolves, closedUnderCalls_of_exit he hres hwf hP hr hexit⟩

end Closed

end Steensgaard

end DSA
