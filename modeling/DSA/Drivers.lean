/-
The two whole-module drivers side by side.  The loop of `Basic.cpp` resolves
each call with `ResolveFunctionCall`, the loops of `Steensgaard.cpp` with the
in-place `mergeInGraph`.  Call by call the two differ only on the pointer
arguments a call passes beyond the pointer formals of a variadic callee; where
no call can do that, the two drivers run the same rounds and return the same
graph and call graph.
-/
import DSA.Steensgaard

namespace DSA

namespace Steensgaard

open DSGraph

/-- Every call site passes as many pointer arguments as each function of the
module it could be resolved to has pointer formals, or neither that function
nor the call has a vararg handle. -/
def NoVarargExtras (M : Module) (g : DSGraph) : Prop :=
  ∀ cs ∈ g.functionCalls, ∀ F ∈ M.functions, F.id ∈ possibleCallees M cs →
    F.ptrArgs.length = cs.ptrArgs.length ∨ (g.getVANodeFor F.id = none ∧ cs.vaVal = none)

instance (M : Module) (g : DSGraph) : Decidable (NoVarargExtras M g) :=
  inferInstanceAs (Decidable (∀ cs ∈ g.functionCalls, ∀ F ∈ M.functions, _))

section Agreement

variable {M : Module} {g0 : DSGraph}

theorem resolveTarget_scalarMap (cs : DSCallSite) (g : DSGraph) (f : Nat) :
    (resolveTarget M resolveFunctionCallStep cs g f).scalarMap = g.scalarMap := by
  unfold resolveTarget
  split
  · split_ifs <;> simp [resolveFunctionCallStep]
  · rfl

/-- A round of the `Basic.cpp` driver binds no value. -/
theorem resolveTargets_scalarMap (cs : DSCallSite) : ∀ (ts : List Nat) (g : DSGraph),
    (resolveTargets M resolveFunctionCallStep cs g ts).scalarMap = g.scalarMap
  | [], _ => rfl
  | f :: ts, g => (resolveTargets_scalarMap cs ts _).trans (resolveTarget_scalarMap cs g f)

theorem resolveCalls_scalarMap : ∀ (calls : List DSCallSite) (targets : List FuncSet) (g : DSGraph),
    (resolveCalls M resolveFunctionCallStep g calls targets).scalarMap = g.scalarMap
  | cs :: calls, ts :: targets, g =>
      (resolveCalls_scalarMap calls targets _).trans (resolveTargets_scalarMap cs ts.toList g)
  | [], _, _ => rfl
  | _ :: _, [], _ => rfl

variable (hbound : ∀ F ∈ M.functions, FormalsBound g0 F) (hx : NoVarargExtras M g0)
include hbound hx

/-- On a graph that kept the entry graph's scalar map, the two drivers resolve a
call against a possible callee alike. -/
theorem resolveTarget_agree {g : DSGraph} (hg : Evolves g0 g) (hsm : g.scalarMap = g0.scalarMap)
    {cs : DSCallSite} (hcs : cs ∈ g0.functionCalls) {f : Nat} (hf : f ∈ possibleCallees M cs) :
    resolveTarget M resolveFunctionCallStep cs g f = resolveTarget M mergeInGraphStep cs g f := by
  unfold resolveTarget
  split
  · next F hF =>
      split_ifs
      · rfl
      · have hFm := Module.mem_of_function? hF
        refine resolveFunctionCall_eq_mergeInGraph (fun a ha => ?_) ?_
        · rw [hsm]; exact hbound F hFm a ha
        · rw [getVANodeFor, hg.vaNodes]
          exact hx cs hcs F hFm ((Module.function?_id hF).symm ▸ hf)
  · rfl

theorem resolveTargets_agree {cs : DSCallSite} (hcs : cs ∈ g0.functionCalls) :
    ∀ (ts : List Nat) {g : DSGraph}, Evolves g0 g → g.scalarMap = g0.scalarMap →
      (∀ f ∈ ts, f ∈ possibleCallees M cs) →
      resolveTargets M resolveFunctionCallStep cs g ts = resolveTargets M mergeInGraphStep cs g ts
  | [], _, _, _, _ => rfl
  | f :: ts, g, hg, hsm, hts => by
      have h₁ := resolveTarget_evolves M resolveFunctionCallStep_evolving hg.wf
        (hg.functionCalls ▸ hcs) f
      show resolveTargets M _ cs (resolveTarget M _ cs g f) ts =
        resolveTargets M _ cs (resolveTarget M _ cs g f) ts
      rw [← resolveTarget_agree hbound hx hg hsm hcs (hts f (List.mem_cons_self _ _))]
      exact resolveTargets_agree hcs ts (hg.trans h₁) ((resolveTarget_scalarMap cs g f).trans hsm)
        (fun f' hf' => hts f' (List.mem_cons_of_mem _ hf'))

/-- A round resolves every call against the callee sets of one graph whose
function globals are functions of the module; the two drivers run it alike. -/
theorem resolveCalls_agree {gs : DSGraph} (hgs : ModuleGlobals M gs) :
    ∀ (calls : List DSCallSite) {g : DSGraph}, Evolves g0 g → g.scalarMap = g0.scalarMap →
      (∀ cs ∈ calls, cs ∈ g0.functionCalls) →
      resolveCalls M resolveFunctionCallStep g calls (calls.map (getAllCallees M gs)) =
        resolveCalls M mergeInGraphStep g calls (calls.map (getAllCallees M gs))
  | [], _, _, _, _ => by simp [resolveCalls]
  | cs :: calls, g, hg, hsm, hcalls => by
      have hcs := hcalls cs (List.mem_cons_self _ _)
      have h₁ := resolveTargets_evolves M resolveFunctionCallStep_evolving
        (getAllCallees M gs cs).toList hg.wf (hg.functionCalls ▸ hcs)
      simp only [List.map_cons, resolveCalls]
      rw [← resolveTargets_agree hbound hx hcs _ hg hsm
        (fun f hf => getAllCallees_sub_possibleCallees hgs cs hf)]
      exact resolveCalls_agree hgs calls (hg.trans h₁)
        ((resolveTargets_scalarMap cs _ g).trans hsm)
        (fun c hc => hcalls c (List.mem_cons_of_mem _ hc))

theorem fixpoint_agree (hglob : ModuleGlobals M g0) :
    ∀ (fuel : Nat) {g : DSGraph} {cg : List FuncSet}, Evolves g0 g →
      g.scalarMap = g0.scalarMap →
      fixpoint M resolveFunctionCallStep fuel g cg = fixpoint M mergeInGraphStep fuel g cg
  | 0, _, _, _, _ => rfl
  | fuel + 1, g, cg, hg, hsm => by
      have h₁ := resolveCalls_evolves M resolveFunctionCallStep_evolving g.functionCalls
        (buildCallGraph M g g.functionCalls cg).2 hg.wf (fun c hc => hc)
      unfold fixpoint
      dsimp only
      split_ifs
      · rw [fixpoint_agree hglob fuel (hg.trans h₁) ((resolveCalls_scalarMap _ _ g).trans hsm),
          buildCallGraph_snd, resolveCalls_agree hbound hx (hglob.mono hg) _ hg hsm
            (fun cs h => hg.functionCalls ▸ h)]
      · rfl

end Agreement

end Steensgaard

end DSA
