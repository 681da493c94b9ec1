/-
What the Steensgaard pass publishes for the call-target finder: the output
call graph built from the resolved call sites, with its SCCs, the scalar map
of the globals graph, and the node of a called value.  The code that builds
them (`DSGraph::buildCallGraph`, `DSCallGraph::buildSCCs`, `cloneIntoGlobals`,
`removeTriviallyDeadNodes`) is not in the repository; they are modelled from
the spec (§4.2, §4.3 steps 6 to 9).
-/
import DSA.CallTargets

namespace DSA

namespace Steensgaard

open CallTargets

variable (M : Module)

/-- Modelled from the spec (§4.3 step 8): the output call graph, whose callees
of an IR call site are the final callee sets of its call-site records. -/
def outputCallees (g : DSGraph) (callGraph : List FuncSet) (site : Nat) : List Nat :=
  ((g.functionCalls.zip callGraph).filter (·.1.callSite == site)).flatMap (·.2.toList)

/-- The functions `F` calls in a call graph. -/
def calledFunctions (callees : Nat → List Nat) (F : Nat) : List Nat :=
  match M.function? F with
  | some Fn => (siteList Fn).flatMap fun p => callees p.2.1
  | none => []

/-- Add to `S` the members of `fs` it lacks, in order. -/
def addNew (S fs : List Nat) : List Nat := fs.foldl (fun S f => if f ∈ S then S else S ++ [f]) S

/-- The functions reached from `S` in at most `fuel` call edges. -/
def reach (step : Nat → List Nat) : Nat → List Nat → List Nat
  | 0, S => S
  | fuel + 1, S => reach step fuel (addNew S (S.flatMap step))

/-- Modelled from the spec: the SCC of `F` in the call graph (§4.3 step 8):
the module's functions that reach `F` and that `F` reaches. -/
def sccMembers (callees : Nat → List Nat) (F : Nat) : List Nat :=
  let step := calledFunctions M callees
  let n := M.functions.length
  (M.functions.map (·.id)).filter fun G => decide (G ∈ reach step n [F] ∧ F ∈ reach step n [G])

/-- The first member of `F`'s SCC in module order. -/
def sccLeader (callees : Nat → List Nat) (F : Nat) : Nat := (sccMembers M callees F).headD F

/-- Modelled from the spec (§4.2): whether `f` has an entry in the scalar map of
the globals graph, into which `cloneIntoGlobals` copies, and
`removeTriviallyDeadNodes` keeps, every node that carries globals. -/
def inGlobalsSM (g : DSGraph) (f : Nat) : Bool :=
  g.store.nodes.any fun N => decide (GlobalValue.function f ∈ N.globals)

/-- Modelled from the spec (§3): the node `getNodeForValue` gives a called
value. A pointer cast reads the node of its operand, and a value the scalar map
lacks gets a fresh empty node. -/
def calledNode (g : DSGraph) : CalledValue → DSNode
  | .value n =>
    match g.scalarMap.lookup n with
    | some h => g.store.repNode h.node
    | none => {}
  | .bitcast v => calledNode g v
  | _ => {}

/-- The DSA result the finder reads after the Steensgaard pass, from the
result graph and the call graph at exit of the fixpoint loop. -/
def steensgaardResult (g : DSGraph) (callGraph : List FuncSet) : DSAResult where
  callees := outputCallees g callGraph
  sccMembers := sccMembers M (outputCallees g callGraph)
  sccLeader := sccLeader M (outputCallees g callGraph)
  inGlobalsSM := inGlobalsSM g
  calledNode := fun _ v => calledNode g v

variable {M}

theorem subset_addNew {S : List Nat} : ∀ (fs : List Nat), ∀ x ∈ S, x ∈ addNew S fs
  | [], _, hx => hx
  | f :: fs, x, hx => by
      unfold addNew
      rw [List.foldl_cons]
      exact subset_addNew fs x (by split_ifs <;> simp [hx])

theorem subset_reach (step : Nat → List Nat) : ∀ (fuel : Nat) (S : List Nat), ∀ x ∈ S, x ∈ reach step fuel S
  | 0, _, _, hx => hx
  | fuel + 1, _, x, hx => subset_reach step fuel _ x (subset_addNew _ x hx)

theorem mem_sccMembers_self (callees : Nat → List Nat) {F : Nat}
    (hF : F ∈ M.functions.map (·.id)) : F ∈ sccMembers M callees F := by
  have h := subset_reach (calledFunctions M callees) M.functions.length [F] F (List.mem_singleton_self F)
  simp [sccMembers, hF, h]

theorem mem_outputCallees {g : DSGraph} {cs : DSCallSite} (hcs : cs ∈ g.functionCalls)
    {f : Nat} (hf : f ∈ getAllCallees M g cs) :
    f ∈ outputCallees g (g.functionCalls.map (getAllCallees M g)) cs.callSite := by
  unfold outputCallees
  generalize g.functionCalls = calls at hcs
  induction calls with
  | nil => exact absurd hcs (List.not_mem_nil _)
  | cons c calls ih =>
      rcases List.mem_cons.mp hcs with rfl | hcs
      · simp only [List.map_cons, List.zip_cons_cons, List.filter_cons, beq_self_eq_true,
          if_true, List.flatMap_cons]
        exact List.mem_append_left _ hf
      · simp only [List.map_cons, List.zip_cons_cons, List.filter_cons]
        split_ifs
        · exact List.mem_append_right _ (ih hcs)
        · exact ih hcs

theorem inGlobalsSM_of_mem_getAllCallees {g : DSGraph} {cs : DSCallSite}
    (hind : cs.isDirectCall = false) {f : Nat} (hf : f ∈ getAllCallees M g cs) :
    inGlobalsSM g f = true := by
  rw [mem_getAllCallees] at hf
  cases hcallee : cs.callee with
  | direct d => simp [DSCallSite.isDirectCall, hcallee] at hind
  | indirect h =>
      rw [hcallee] at hf
      have hmem := hf.1
      unfold NodeStore.repNode at hmem
      rcases g.store.node_mem_or_eq_empty (g.store.rep h.node) with hN | hN
      · exact List.any_eq_true.mpr ⟨_, hN, decide_eq_true hmem⟩
      · rw [hN] at hmem; cases hmem

/-- The loop returns the callee sets it recomputed last. -/
theorem fixpoint_snd {resolve : DSGraph → DSCallSite → Function → DSGraph} :
    ∀ (fuel : Nat) {g : DSGraph} {cg : List FuncSet} {r : DSGraph × List FuncSet},
      fixpoint M resolve fuel g cg = some r → r.2 = r.1.functionCalls.map (getAllCallees M r.1)
  | 0, _, _, _, h => by simp [fixpoint] at h
  | fuel + 1, g, cg, r, h => by
      unfold fixpoint at h
      dsimp only at h
      split_ifs at h
      · exact fixpoint_snd fuel h
      · cases h
        exact buildCallGraph_snd g _ cg

/-- After the Steensgaard pass, a site the finder certifies complete lists every
defined function the pass resolved as a callee of the site. -/
theorem findIndTargets_complete_covers (M : Module) (g0 : DSGraph) (hwf : g0.WellFormed)
    (fuel : Nat) (r : DSGraph × List FuncSet) (hfix : steensgaardFixpoint M fuel g0 = some r)
    (hnd : ((callSites M).map (·.2.1)).Nodup) {caller site : Nat} {v : CalledValue}
    (hcs : (caller, site, v) ∈ callSites M)
    (hfun : v.stripPointerCasts.getCalledFunction = none) (hnull : v.stripPointerCasts ≠ .nullPtr)
    (hundef : v.stripPointerCasts ≠ .undef) (hasm : v.stripPointerCasts ≠ .inlineAsm)
    (hlocal : ∀ cs ∈ g0.functionCalls, cs.callSite = site → cs.isDirectCall = false)
    (_hcomplete : (findIndTargets (steensgaardResult M r.1 r.2) M).isComplete site = true) :
    ∀ cs ∈ r.1.functionCalls, cs.callSite = site → ∀ f ∈ getAllCallees M r.1 cs,
      M.isDefined f = true → f ∈ (findIndTargets (steensgaardResult M r.1 r.2) M).indMap site := by
  intro cs hcsr hsite f hf hdef
  obtain ⟨cgx, hr, -⟩ := fixpoint_exit fuel Reachable.entry hfix
  have hcalls := (hr.runInv mergeInGraphStep_evolving hwf).evolves.functionCalls
  have hind := hlocal cs (hcalls ▸ hcsr) hsite
  have hfM : f ∈ M.functions.map (·.id) := by
    unfold Module.isDefined at hdef
    split at hdef
    · next F hF => exact List.mem_map.mpr ⟨F, Module.mem_of_function? hF, Module.function?_id hF⟩
    · cases hdef
  rw [indMap_of_indirect _ hnd hcs (fun h => hundef (by rw [h]; rfl))
    (fun h => hasm (by rw [h]; rfl)) hfun hnull]
  refine List.mem_flatMap.mpr ⟨f, List.mem_append_left _ ?_, List.mem_filter.mpr
    ⟨mem_sccMembers_self _ hfM, inGlobalsSM_of_mem_getAllCallees hind hf⟩⟩
  show f ∈ outputCallees r.1 r.2 site
  rw [fixpoint_snd fuel hfix, ← hsite]
  exact mem_outputCallees hcsr hf

/-- The result graph and call graph at exit of the loop on `fp.ll`. -/
def fpExit : DSGraph × List FuncSet := (steensgaardFixpoint fpModule 2 fpGraph).getD (fpGraph, [])

theorem findIndTargets_complete_covers_fp :
    steensgaardFixpoint fpModule 2 fpGraph = some fpExit ∧
      (findIndTargets (steensgaardResult fpModule fpExit.1 fpExit.2) fpModule).isComplete 9 = true ∧
      ∀ cs ∈ fpExit.1.functionCalls, cs.callSite = 9 → ∀ f ∈ getAllCallees fpModule fpExit.1 cs,
        fpModule.isDefined f = true →
          f ∈ (findIndTargets (steensgaardResult fpModule fpExit.1 fpExit.2) fpModule).indMap 9 :=
  ⟨by decide, by decide,
    findIndTargets_complete_covers fpModule fpGraph (by decide) 2 fpExit (by decide) (by decide)
      (show (1, 9, CalledValue.value 7) ∈ callSites fpModule by decide) rfl (by decide) (by decide)
      (by decide) (by decide) (by decide)⟩

end Steensgaard

end DSA
