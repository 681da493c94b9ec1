/-
The steps the drivers take after the fixpoint loop on the call-site and
return-node lists.  Each driver erases the return-node entries of the
functions with internal linkage, whose returns the loop has accounted for; the
second driver of `Steensgaard.cpp` also drops from the aux call list every
direct call and every call whose callee node is complete.  Neither step
merges nodes, so what the loop established survives: the published graph is
still closed under call resolution, and the call-target finder reads the same
result from it.
-/
import DSA.CallGraph

namespace DSA

/-- `DSNode::isCompleteNode`. -/
def DSNode.isCompleteNode (N : DSNode) : Bool := !N.isIncompleteNode

namespace Steensgaard

open DSGraph

variable (M : Module)

/-- `I->first->hasInternalLinkage()` for the function of a return-node key; a
key that names no function of the module is kept. -/
def hasInternalLinkage (f : Nat) : Bool :=
  match M.function? f with
  | some F => F.hasInternalLinkage
  | none => false

/-- The loop over `getReturnNodes()` after the fixpoint: the entry of a
function with internal linkage is erased (`erase(I++)`), any other is
stepped over. -/
def eraseInternalReturns : List (Nat × DSNodeHandle) → List (Nat × DSNodeHandle)
  | [] => []
  | (f, h) :: rest =>
    if hasInternalLinkage M f then eraseInternalReturns rest
    else (f, h) :: eraseInternalReturns rest

def eraseReturnNodes (g : DSGraph) : DSGraph :=
  { g with returnNodes := eraseInternalReturns M g.returnNodes }

/-- `DSCallSite::getCalleeNode`: the node the callee handle of an indirect
call reads through. -/
def getCalleeNode (g : DSGraph) (cs : DSCallSite) : DSNode :=
  match cs.callee with
  | .indirect h => g.store.repNode h.node
  | .direct _ => {}

/-- The loop over `getAuxFunctionCalls()` of the second driver: a direct call,
or a call whose callee node is complete, is erased. -/
def pruneAuxCalls (g : DSGraph) : List DSCallSite → List DSCallSite
  | [] => []
  | cs :: rest =>
    if cs.isDirectCall || (getCalleeNode g cs).isCompleteNode then pruneAuxCalls g rest
    else cs :: pruneAuxCalls g rest

theorem lookup_eraseInternalReturns (f : Nat) : ∀ l : List (Nat × DSNodeHandle),
    (eraseInternalReturns M l).lookup f = if hasInternalLinkage M f then none else l.lookup f
  | [] => by simp [eraseInternalReturns]
  | (g, h) :: rest => by
      have ih := lookup_eraseInternalReturns f rest
      by_cases hfg : f = g
      · subst hfg
        by_cases hi : hasInternalLinkage M f <;> simp [eraseInternalReturns, hi, ih]
      · have hne : (f == g) = false := beq_eq_false_iff_ne.mpr hfg
        by_cases hg : hasInternalLinkage M g <;>
          simp [eraseInternalReturns, hg, hne, ih, List.lookup_cons]

@[simp] theorem getReturnNodeFor_eraseReturnNodes (g : DSGraph) (f : Nat) :
    (eraseReturnNodes M g).getReturnNodeFor f =
      if hasInternalLinkage M f then none else g.getReturnNodeFor f :=
  lookup_eraseInternalReturns M f g.returnNodes

theorem binds_eraseReturnNodes {g : DSGraph} {cs : DSCallSite} {F : Function} (hb : Binds g cs F) :
    Binds (eraseReturnNodes M g) cs F := by
  refine ⟨fun r c hr hc => ?_, hb.va, hb.args⟩
  rw [getReturnNodeFor_eraseReturnNodes] at hr
  split_ifs at hr
  exact hb.ret r c hr hc

theorem eraseReturnNodes_closedUnderCalls {g : DSGraph} (h : ClosedUnderCalls M g) :
    ClosedUnderCalls M (eraseReturnNodes M g) :=
  fun cs hcs f hf F hF hdecl => binds_eraseReturnNodes M (h cs hcs f hf F hF hdecl)

/-- The pruned aux list keeps, in order, the indirect calls whose callee node
is incomplete. -/
theorem pruneAuxCalls_eq_filter (g : DSGraph) : ∀ l : List DSCallSite,
    pruneAuxCalls g l = l.filter fun cs => !cs.isDirectCall && (getCalleeNode g cs).isIncompleteNode
  | [] => rfl
  | cs :: rest => by
      unfold pruneAuxCalls
      rw [pruneAuxCalls_eq_filter g rest, List.filter_cons]
      cases cs.isDirectCall <;> cases h : (getCalleeNode g cs).isIncompleteNode <;>
        simp [DSNode.isCompleteNode, h]

/-- What a driver publishes: a graph closed under call resolution that keeps the
entry graph's return entry of each function without internal linkage, and no
other. -/
structure Published (g0 g : DSGraph) : Prop where
  closed : ClosedUnderCalls M g
  returns : ∀ f, g.getReturnNodeFor f = if hasInternalLinkage M f then none else g0.getReturnNodeFor f

theorem published_of_fixpoint {resolve : DSGraph → DSCallSite → Function → DSGraph}
    {P : DSGraph → Function → Prop} (he : Evolving resolve) (hres : Resolves resolve P)
    {g0 : DSGraph} (hwf : g0.WellFormed) (hP : ∀ F ∈ M.functions, P g0 F) {fuel : Nat}
    {r : DSGraph × List FuncSet} (hfix : fixpoint M resolve fuel g0 [] = some r) :
    Published M g0 (eraseReturnNodes M r.1) := by
  obtain ⟨cg, hr, hb⟩ := fixpoint_exit fuel Reachable.entry hfix
  refine ⟨eraseReturnNodes_closedUnderCalls M (closedUnderCalls_of_exit he hres hwf hP hr hb),
    fun f => ?_⟩
  rw [getReturnNodeFor_eraseReturnNodes, getReturnNodeFor, getReturnNodeFor,
    (hr.runInv he hwf).evolves.returnNodes]

/-- After the loop of each driver, the erasure publishes a graph still closed
under call resolution that keeps the entry graph's return entries of exactly the
functions without internal linkage. -/
theorem eraseReturnNodes_published (M : Module) (g0 : DSGraph) (hwf : g0.WellFormed) :
    (∀ fuel r, steensgaardFixpoint M fuel g0 = some r →
      Published M g0 (eraseReturnNodes M r.1)) ∧
    ((∀ F ∈ M.functions, FormalsBound g0 F) →
      ∀ fuel r, basicFixpoint M fuel g0 = some r → Published M g0 (eraseReturnNodes M r.1)) :=
  ⟨fun _ _ hfix => published_of_fixpoint M mergeInGraphStep_evolving mergeInGraphStep_resolves hwf
      (fun _ _ => trivial) hfix,
    fun hP _ _ hfix => published_of_fixpoint M resolveFunctionCallStep_evolving
      resolveFunctionCallStep_resolves hwf hP hfix⟩

theorem eraseReturnNodes_published_fp : fpGraph.WellFormed ∧
    (∀ F ∈ fpModule.functions, FormalsBound fpGraph F) ∧
    (∀ fuel r, steensgaardFixpoint fpModule fuel fpGraph = some r →
      Published fpModule fpGraph (eraseReturnNodes fpModule r.1)) ∧
    ∀ fuel r, basicFixpoint fpModule fuel fpGraph = some r →
      Published fpModule fpGraph (eraseReturnNodes fpModule r.1) :=
  have h := eraseReturnNodes_published fpModule fpGraph (by decide)
  ⟨by decide, by decide, h.1, h.2 (by decide)⟩

end Steensgaard

end DSA
