/-
The Steensgaard driver: every local graph has been spliced into one result
graph, and the call sites are resolved in rounds.  A round recomputes each
call site's callee set on the current graph (`buildCallGraph`) and, when some
set changed, resolves every site against every defined callee in its set.  The
loop stops at the first round that changes nothing.

The two drivers of `Steensgaard.cpp` run the same loop with the in-place
`mergeInGraph`; the driver of `Basic.cpp` runs it with `ResolveFunctionCall`.
One definition, parameterised by the resolution step, models all three.
-/
import DSA.Resolve
import DSA.FuncSet
import Mathlib.Algebra.Order.BigOperators.Group.Finset
import Mathlib.Data.List.GetD

namespace DSA

namespace Steensgaard

open DSGraph

variable (M : Module)

/-- Modelled from the spec: `DSNode::addFullFunctionSet` — the functions
among the globals of the node a handle reads through. -/
def addFullFunctionSet (g : DSGraph) (h : DSNodeHandle) : List Nat :=
  (g.store.repNode h.node).globals.filterMap GlobalValue.asFunction

/-- `getAllCallees`: a direct call's callee when it has a body; for an
indirect call, the functions of the callee node that `functionIsCallable`
accepts for this site. -/
def getAllCallees (g : DSGraph) (cs : DSCallSite) : FuncSet :=
  match cs.callee with
  | .direct f => if M.isDefined f then (∅ : FuncSet).insert f else ∅
  | .indirect h =>
    FuncSet.ofList ((addFullFunctionSet g h).filter (M.functionIsCallable cs.callSite))

/-- `buildCallGraph`: recompute each call site's callee set and report whether
any differs from the set recorded for it (none recorded reads as empty). -/
def buildCallGraph (g : DSGraph) : List DSCallSite → List FuncSet → Bool × List FuncSet
  | [], _ => (false, [])
  | cs :: calls, old =>
    let callees := getAllCallees M g cs
    let rest := buildCallGraph g calls old.tail
    (rest.1 || old.headD ∅ != callees, callees :: rest.2)

/-- Resolve a call site against callee `f`, unless `f` is a declaration. -/
def resolveTarget (resolve : DSGraph → DSCallSite → Function → DSGraph) (cs : DSCallSite)
    (g : DSGraph) (f : Nat) : DSGraph :=
  match M.function? f with
  | some F => if F.isDeclaration then g else resolve g cs F
  | none => g

/-- Resolve one call site against its recorded callees, in set order. -/
def resolveTargets (resolve : DSGraph → DSCallSite → Function → DSGraph) (cs : DSCallSite)
    (g : DSGraph) (targets : List Nat) : DSGraph :=
  targets.foldl (resolveTarget M resolve cs) g

/-- The loop body: every call site against its recorded callees. -/
def resolveCalls (resolve : DSGraph → DSCallSite → Function → DSGraph) (g : DSGraph) :
    List DSCallSite → List FuncSet → DSGraph
  | cs :: calls, targets :: rest =>
    resolveCalls resolve (resolveTargets M resolve cs g targets.toList) calls rest
  | _, _ => g

/-- `while (buildCallGraph()) { ... }` with at most `fuel` tests of the loop
condition; returns the graph and the call graph at exit. -/
def fixpoint (resolve : DSGraph → DSCallSite → Function → DSGraph) :
    Nat → DSGraph → List FuncSet → Option (DSGraph × List FuncSet)
  | 0, _, _ => none
  | fuel + 1, g, callGraph =>
    let r := buildCallGraph M g g.functionCalls callGraph
    if r.1 then fixpoint resolve fuel (resolveCalls M resolve g g.functionCalls r.2) r.2
    else some (g, r.2)

/-- The resolution step of the `Steensgaard.cpp` drivers. -/
def mergeInGraphStep (g : DSGraph) (cs : DSCallSite) (F : Function) : DSGraph :=
  g.mergeInGraph cs F

/-- The resolution step of the `Basic.cpp` driver. -/
def resolveFunctionCallStep (g : DSGraph) (cs : DSCallSite) (F : Function) : DSGraph :=
  g.resolveFunctionCall F cs

/-- The fixpoint loop of both `runOnModuleInternal`s in `Steensgaard.cpp`. -/
def steensgaardFixpoint (fuel : Nat) (g : DSGraph) : Option (DSGraph × List FuncSet) :=
  fixpoint M mergeInGraphStep fuel g []

/-- The fixpoint loop of `runOnModuleInternal` in `Basic.cpp`. -/
def basicFixpoint (fuel : Nat) (g : DSGraph) : Option (DSGraph × List FuncSet) :=
  fixpoint M resolveFunctionCallStep fuel g []

/-- Every function a call site could ever be resolved to: its callee for a
direct call, the module's functions `functionIsCallable` accepts for an
indirect one. -/
def possibleCallees (cs : DSCallSite) : FuncSet :=
  match cs.callee with
  | .direct f => (∅ : FuncSet).insert f
  | .indirect _ =>
    FuncSet.ofList ((M.functions.map (·.id)).filter (M.functionIsCallable cs.callSite))

/-- `Σ_cs |U(cs)|` over a call list. -/
def callBound : List DSCallSite → Nat
  | [] => 0
  | cs :: calls => (possibleCallees M cs).card + callBound calls

/-- `Σ_cs |CallGraph[cs]|` over a call list. -/
def callGraphSize (calls : List DSCallSite) (callGraph : List FuncSet) : Nat :=
  ∑ i ∈ Finset.range calls.length, (callGraph.getD i ∅).card

/-- The graph's function globals are functions of the module. -/
def ModuleGlobals (g : DSGraph) : Prop :=
  ∀ n f, GlobalValue.function f ∈ (g.store.node n).globals → f ∈ M.functions.map (·.id)

theorem moduleGlobals_iff (g : DSGraph) : ModuleGlobals M g ↔
    ∀ N ∈ g.store.nodes, ∀ gv ∈ N.globals, ∀ f ∈ gv.asFunction, f ∈ M.functions.map (·.id) := by
  constructor
  · intro h N hN gv hgv f hf
    obtain ⟨n, rfl⟩ := NodeStore.exists_node_eq_of_mem hN
    cases gv <;> cases hf
    exact h n _ hgv
  · intro h n f hf
    rcases g.store.node_mem_or_eq_empty n with hN | he
    · exact h _ hN _ hf f rfl
    · rw [he] at hf; cases hf

instance (g : DSGraph) : Decidable (ModuleGlobals M g) :=
  decidable_of_iff _ (moduleGlobals_iff M g).symm

/-- The graph is closed under call resolution: each call site is bound to
every defined callee `getAllCallees` finds for it. -/
def ClosedUnderCalls (g : DSGraph) : Prop :=
  ∀ cs ∈ g.functionCalls, ∀ f ∈ getAllCallees M g cs, ∀ F, M.function? f = some F →
    F.isDeclaration = false → Binds g cs F

/-- The states at which the loop condition is tested, from entry graph `g0`. -/
inductive Reachable (resolve : DSGraph → DSCallSite → Function → DSGraph) (g0 : DSGraph) :
    DSGraph → List FuncSet → Prop
  | entry : Reachable resolve g0 g0 []
  | round {g : DSGraph} {cg : List FuncSet} : Reachable resolve g0 g cg →
      (buildCallGraph M g g.functionCalls cg).1 = true →
      Reachable resolve g0
        (resolveCalls M resolve g g.functionCalls (buildCallGraph M g g.functionCalls cg).2)
        (buildCallGraph M g g.functionCalls cg).2

variable {M}

theorem buildCallGraph_snd (g : DSGraph) :
    ∀ (calls : List DSCallSite) (old : List FuncSet),
      (buildCallGraph M g calls old).2 = calls.map (getAllCallees M g)
  | [], _ => rfl
  | cs :: calls, old => by simp [buildCallGraph, buildCallGraph_snd g calls old.tail]

theorem buildCallGraph_fst_eq_false (g : DSGraph) :
    ∀ (calls : List DSCallSite) (old : List FuncSet),
      (buildCallGraph M g calls old).1 = false →
        ∀ i (hi : i < calls.length), old.getD i ∅ = getAllCallees M g calls[i]
  | [], _, _, i, hi => absurd hi (Nat.not_lt_zero i)
  | cs :: calls, old, h, i, hi => by
      simp only [buildCallGraph, Bool.or_eq_false_iff, bne_eq_false_iff_eq] at h
      cases i with
      | zero => cases old <;> simpa using h.2
      | succ i =>
          have := buildCallGraph_fst_eq_false g calls old.tail h.1 i (by simpa using hi)
          cases old <;> simpa using this

theorem buildCallGraph_fst_eq_true (g : DSGraph) :
    ∀ (calls : List DSCallSite) (old : List FuncSet),
      (buildCallGraph M g calls old).1 = true →
        ∃ i, ∃ hi : i < calls.length, old.getD i ∅ ≠ getAllCallees M g calls[i]
  | [], _, h => by simp [buildCallGraph] at h
  | cs :: calls, old, h => by
      simp only [buildCallGraph, Bool.or_eq_true, bne_iff_ne] at h
      rcases h with h | h
      · obtain ⟨i, hi, hne⟩ := buildCallGraph_fst_eq_true g calls old.tail h
        exact ⟨i + 1, by simpa using hi, by cases old <;> simpa using hne⟩
      · exact ⟨0, by simp, by cases old <;> simpa using h⟩

theorem mem_addFullFunctionSet {g : DSGraph} {h : DSNodeHandle} {f : Nat} :
    f ∈ addFullFunctionSet g h ↔ GlobalValue.function f ∈ (g.store.repNode h.node).globals := by
  simp only [addFullFunctionSet, List.mem_filterMap]
  constructor
  · rintro ⟨x, hx, hf⟩
    cases x <;> simp [GlobalValue.asFunction] at hf
    exact hf ▸ hx
  · exact fun hf => ⟨_, hf, rfl⟩

theorem mem_getAllCallees {g : DSGraph} {cs : DSCallSite} {f : Nat} :
    f ∈ getAllCallees M g cs ↔
      match cs.callee with
      | .direct d => f = d ∧ M.isDefined d = true
      | .indirect h => GlobalValue.function f ∈ (g.store.repNode h.node).globals ∧
          M.functionIsCallable cs.callSite f = true := by
  unfold getAllCallees
  split
  · next d _ => split_ifs with hd <;> simp [hd]
  · simp [mem_addFullFunctionSet]

theorem getAllCallees_mono {g g' : DSGraph} (hc : g.store.Coarsens g'.store) (cs : DSCallSite)
    {f : Nat} (hf : f ∈ getAllCallees M g cs) : f ∈ getAllCallees M g' cs := by
  rw [mem_getAllCallees] at hf ⊢
  split at hf
  · exact hf
  · exact ⟨hc.globals_sub _ _ hf.1, hf.2⟩

section Loop

variable (resolve : DSGraph → DSCallSite → Function → DSGraph)

/-- A resolution step that evolves the graph on any call site of it. -/
def Evolving : Prop :=
  ∀ g cs F, g.WellFormed → cs ∈ g.functionCalls → Evolves g (resolve g cs F)

/-- A resolution step that keeps `P` of every function and, under `P`, leaves
the call site bound to the callee. -/
structure Resolves (P : DSGraph → Function → Prop) : Prop where
  keeps : ∀ g cs F G, g.WellFormed → cs ∈ g.functionCalls → P g G → P (resolve g cs F) G
  binds : ∀ g cs F, g.WellFormed → cs ∈ g.functionCalls → P g F → Binds (resolve g cs F) cs F

variable (M) {resolve}

theorem resolveTarget_evolves (he : Evolving resolve) {g : DSGraph} (hwf : g.WellFormed)
    {cs : DSCallSite} (hcs : cs ∈ g.functionCalls) (f : Nat) :
    Evolves g (resolveTarget M resolve cs g f) := by
  unfold resolveTarget
  split
  · split_ifs
    · exact Evolves.refl hwf
    · exact he g cs _ hwf hcs
  · exact Evolves.refl hwf

theorem resolveTargets_evolves (he : Evolving resolve) {cs : DSCallSite} :
    ∀ (targets : List Nat) {g : DSGraph}, g.WellFormed → cs ∈ g.functionCalls →
      Evolves g (resolveTargets M resolve cs g targets)
  | [], _, hwf, _ => Evolves.refl hwf
  | f :: fs, g, hwf, hcs => by
      have h₁ := resolveTarget_evolves M he hwf hcs f
      exact h₁.trans (resolveTargets_evolves he fs h₁.wf (h₁.functionCalls ▸ hcs))

variable {P : DSGraph → Function → Prop}

theorem resolveTargets_binds (he : Evolving resolve) (hr : Resolves resolve P) {cs : DSCallSite} :
    ∀ (targets : List Nat) {g : DSGraph}, g.WellFormed → cs ∈ g.functionCalls →
      (∀ F ∈ M.functions, P g F) →
      (∀ F ∈ M.functions, P (resolveTargets M resolve cs g targets) F) ∧
      ∀ f ∈ targets, ∀ F, M.function? f = some F → F.isDeclaration = false →
        Binds (resolveTargets M resolve cs g targets) cs F
  | [], _, _, _, hP => ⟨hP, fun _ hf => absurd hf (List.not_mem_nil _)⟩
  | f :: fs, g, hwf, hcs, hP => by
      have h₁ := resolveTarget_evolves M he hwf hcs f
      have hP₁ : ∀ F ∈ M.functions, P (resolveTarget M resolve cs g f) F := by
        intro G hG
        unfold resolveTarget
        split
        · split_ifs
          · exact hP G hG
          · exact hr.keeps g cs _ G hwf hcs (hP G hG)
        · exact hP G hG
      obtain ⟨hPs, hbs⟩ := resolveTargets_binds he hr fs h₁.wf (h₁.functionCalls ▸ hcs) hP₁
      refine ⟨hPs, fun f' hf' F hF hdecl => ?_⟩
      rcases List.mem_cons.mp hf' with rfl | hf'
      · have hb : Binds (resolveTarget M resolve cs g f') cs F := by
          simp only [resolveTarget, hF, hdecl]
          exact hr.binds g cs F hwf hcs (hP F (Module.mem_of_function? hF))
        exact hb.mono (resolveTargets_evolves M he fs h₁.wf (h₁.functionCalls ▸ hcs))
      · exact hbs f' hf' F hF hdecl

theorem resolveCalls_evolves (he : Evolving resolve) :
    ∀ (calls : List DSCallSite) (targets : List FuncSet) {g : DSGraph}, g.WellFormed →
      (∀ cs ∈ calls, cs ∈ g.functionCalls) → Evolves g (resolveCalls M resolve g calls targets)
  | cs :: calls, ts :: targets, g, hwf, hcalls => by
      have h₁ := resolveTargets_evolves M he ts.toList hwf (hcalls cs (List.mem_cons_self _ _))
      exact h₁.trans (resolveCalls_evolves he calls targets h₁.wf
        (fun c hc => h₁.functionCalls ▸ hcalls c (List.mem_cons_of_mem _ hc)))
  | [], _, _, hwf, _ => Evolves.refl hwf
  | _ :: _, [], _, hwf, _ => Evolves.refl hwf

theorem resolveCalls_binds (he : Evolving resolve) (hr : Resolves resolve P) :
    ∀ (calls : List DSCallSite) (targets : List FuncSet) {g : DSGraph}, g.WellFormed →
      (∀ cs ∈ calls, cs ∈ g.functionCalls) → (∀ F ∈ M.functions, P g F) →
      (∀ F ∈ M.functions, P (resolveCalls M resolve g calls targets) F) ∧
      ∀ i (hi : i < calls.length) (hit : i < targets.length), ∀ f ∈ targets[i],
        ∀ F, M.function? f = some F → F.isDeclaration = false →
          Binds (resolveCalls M resolve g calls targets) calls[i] F
  | cs :: calls, ts :: targets, g, hwf, hcalls, hP => by
      have hcs := hcalls cs (List.mem_cons_self _ _)
      have h₁ := resolveTargets_evolves M he ts.toList hwf hcs
      obtain ⟨hP₁, hb₁⟩ := resolveTargets_binds M he hr ts.toList hwf hcs hP
      have hcalls₁ : ∀ c ∈ calls, c ∈ (resolveTargets M resolve cs g ts.toList).functionCalls :=
        fun c hc => h₁.functionCalls ▸ hcalls c (List.mem_cons_of_mem _ hc)
      obtain ⟨hP₂, hb₂⟩ := resolveCalls_binds he hr calls targets h₁.wf hcalls₁ hP₁
      refine ⟨hP₂, fun i hi hit f hf F hF hdecl => ?_⟩
      cases i with
      | zero =>
          exact (hb₁ f hf F hF hdecl).mono (resolveCalls_evolves M he calls targets h₁.wf hcalls₁)
      | succ i => exact hb₂ i (by simpa using hi) (by simpa using hit) f hf F hF hdecl
  | [], _, _, _, _, hP => ⟨hP, fun i hi => absurd hi (Nat.not_lt_zero i)⟩
  | _ :: _, [], _, _, _, hP => ⟨hP, fun i _ hit => absurd hit (Nat.not_lt_zero i)⟩

end Loop

section Run

variable {resolve : DSGraph → DSCallSite → Function → DSGraph} {g0 : DSGraph}

theorem getD_map_getAllCallees (g : DSGraph) {calls : List DSCallSite} {i : Nat}
    (hi : i < calls.length) : (calls.map (getAllCallees M g)).getD i ∅ = getAllCallees M g calls[i] := by
  simp [List.getD_eq_getElem?_getD, List.getElem?_eq_getElem hi]

/-- What holds at every test of the loop condition: the graph evolved from
the entry graph, and every recorded callee set is contained in the site's
current callee set. -/
structure RunInv (M : Module) (g0 g : DSGraph) (cg : List FuncSet) : Prop where
  evolves : Evolves g0 g
  length_le : cg.length ≤ g0.functionCalls.length
  sub : ∀ i (hi : i < g0.functionCalls.length), ∀ f ∈ cg.getD i ∅,
    f ∈ getAllCallees M g g0.functionCalls[i]

theorem Reachable.runInv (he : Evolving resolve) (hwf : g0.WellFormed) {g : DSGraph}
    {cg : List FuncSet} (hr : Reachable M resolve g0 g cg) : RunInv M g0 g cg := by
  induction hr with
  | entry => exact ⟨Evolves.refl hwf, by simp, fun i _ f hf => by simp at hf⟩
  | @round g cg _ _ ih =>
      have hcalls := ih.evolves.functionCalls
      have h₁ := resolveCalls_evolves M he g.functionCalls
        (buildCallGraph M g g.functionCalls cg).2 ih.evolves.wf (fun c hc => hc)
      refine ⟨ih.evolves.trans h₁, by simp [buildCallGraph_snd, hcalls], fun i hi f hf => ?_⟩
      rw [buildCallGraph_snd, hcalls, getD_map_getAllCallees g hi] at hf
      exact getAllCallees_mono h₁.store _ hf

/-- What call resolution has established at every test of the loop
condition: `P` of every function, and each site bound to every defined
function recorded for it. -/
structure BindInv (M : Module) (P : DSGraph → Function → Prop) (g0 g : DSGraph)
    (cg : List FuncSet) : Prop where
  keeps : ∀ F ∈ M.functions, P g F
  binds : ∀ i (hi : i < g0.functionCalls.length), ∀ f ∈ cg.getD i ∅, ∀ F,
    M.function? f = some F → F.isDeclaration = false → Binds g g0.functionCalls[i] F

theorem Reachable.bindInv {P : DSGraph → Function → Prop} (he : Evolving resolve)
    (hres : Resolves resolve P) (hwf : g0.WellFormed) (hP : ∀ F ∈ M.functions, P g0 F)
    {g : DSGraph} {cg : List FuncSet} (hr : Reachable M resolve g0 g cg) :
    BindInv M P g0 g cg := by
  induction hr with
  | entry => exact ⟨hP, fun i _ f hf => by simp at hf⟩
  | @round g cg hr _ ih =>
      have hrun := hr.runInv he hwf
      have hcalls := hrun.evolves.functionCalls
      obtain ⟨hP₁, hb₁⟩ := resolveCalls_binds M he hres g.functionCalls
        (buildCallGraph M g g.functionCalls cg).2 hrun.evolves.wf (fun c hc => hc) ih.keeps
      refine ⟨hP₁, fun i hi f hf F hF hdecl => ?_⟩
      have hi' : i < g.functionCalls.length := by rwa [hcalls]
      have hit : i < (buildCallGraph M g g.functionCalls cg).2.length := by
        simpa [buildCallGraph_snd] using hi'
      have hf' : f ∈ (buildCallGraph M g g.functionCalls cg).2[i] := by
        rwa [List.getD_eq_getElem?_getD, List.getElem?_eq_getElem hit, Option.getD_some] at hf
      have e : g.functionCalls[i] = g0.functionCalls[i] := by simp only [hcalls]
      exact e ▸ hb₁ i hi' hit f hf' F hF hdecl

/-- A run that returns stops at a reachable state whose `buildCallGraph`
reports no change. -/
theorem fixpoint_exit : ∀ (fuel : Nat) {g : DSGraph} {cg : List FuncSet}
    {r : DSGraph × List FuncSet}, Reachable M resolve g0 g cg →
      fixpoint M resolve fuel g cg = some r →
      ∃ cgx, Reachable M resolve g0 r.1 cgx ∧ (buildCallGraph M r.1 r.1.functionCalls cgx).1 = false
  | 0, _, _, _, _, h => by simp [fixpoint] at h
  | fuel + 1, g, cg, r, hr, h => by
      unfold fixpoint at h
      dsimp only at h
      split_ifs at h with hb
      · exact fixpoint_exit fuel (hr.round hb) h
      · cases h
        exact ⟨cg, hr, by simpa using hb⟩

/-- At a state where no callee set changed, every call site is bound to each
of its defined callees. -/
theorem closedUnderCalls_of_exit {P : DSGraph → Function → Prop} (he : Evolving resolve)
    (hres : Resolves resolve P) (hwf : g0.WellFormed) (hP : ∀ F ∈ M.functions, P g0 F)
    {g : DSGraph} {cg : List FuncSet} (hr : Reachable M resolve g0 g cg)
    (hb : (buildCallGraph M g g.functionCalls cg).1 = false) : ClosedUnderCalls M g := by
  have hcalls := (hr.runInv he hwf).evolves.functionCalls
  have hinv := hr.bindInv he hres hwf hP
  intro cs hcs f hf F hF hdecl
  obtain ⟨i, hi, rfl⟩ := List.getElem_of_mem hcs
  have heq := buildCallGraph_fst_eq_false g _ cg hb i hi
  have hi₀ : i < g0.functionCalls.length := by rwa [← hcalls]
  have e : g.functionCalls[i] = g0.functionCalls[i] := by simp only [hcalls]
  rw [e] at heq hf ⊢
  exact hinv.binds i hi₀ f (heq ▸ hf) F hF hdecl

end Run

theorem mergeInGraphStep_evolving : Evolving mergeInGraphStep :=
  fun _ _ F hwf hcs => (mergeInGraph_spec hwf (hwf.call_inArena hcs) F).1

theorem mergeInGraphStep_resolves : Resolves mergeInGraphStep (fun _ _ => True) :=
  ⟨fun _ _ _ _ _ _ _ => trivial,
    fun _ _ F hwf hcs _ => (mergeInGraph_spec hwf (hwf.call_inArena hcs) F).2⟩

theorem resolveFunctionCallStep_evolving : Evolving resolveFunctionCallStep :=
  fun _ _ F hwf hcs => (resolveFunctionCall_spec hwf (hwf.call_inArena hcs) F).1

theorem resolveFunctionCallStep_resolves : Resolves resolveFunctionCallStep FormalsBound :=
  ⟨fun g cs F G _ _ hG => by
      simpa [FormalsBound, resolveFunctionCallStep] using hG,
    fun _ _ F hwf hcs hF => (resolveFunctionCall_spec hwf (hwf.call_inArena hcs) F).2 hF⟩

section Termination

variable {resolve : DSGraph → DSCallSite → Function → DSGraph} {g0 : DSGraph}

theorem ModuleGlobals.mono {g g' : DSGraph} (h : ModuleGlobals M g) (hg : Evolves g g') :
    ModuleGlobals M g' := fun n f hf => by
  obtain ⟨m, hm⟩ := hg.store.globals_src n _ hf
  exact h m f hm

theorem getAllCallees_sub_possibleCallees {g : DSGraph} (hglob : ModuleGlobals M g)
    (cs : DSCallSite) {f : Nat} (hf : f ∈ getAllCallees M g cs) : f ∈ possibleCallees M cs := by
  rw [mem_getAllCallees] at hf
  unfold possibleCallees
  split at hf
  · next d hd => simp [hd, hf.1]
  · next h hh => simp [hh, hglob _ f hf.1, hf.2]

theorem callGraphSize_map_le {g : DSGraph} (hglob : ModuleGlobals M g) :
    ∀ calls : List DSCallSite,
      callGraphSize calls (calls.map (getAllCallees M g)) ≤ callBound M calls
  | [] => by simp [callGraphSize, callBound]
  | cs :: calls => by
      have ih := callGraphSize_map_le hglob calls
      have hcs := FuncSet.card_le_card fun _ => getAllCallees_sub_possibleCallees hglob cs
      simp only [callGraphSize, callBound, List.length_cons, List.map_cons,
        Finset.sum_range_succ'] at ih ⊢
      simp only [List.getD_cons_succ, List.getD_cons_zero]
      omega

theorem Reachable.callGraphSize_lt (he : Evolving resolve) (hwf : g0.WellFormed) {g : DSGraph}
    {cg : List FuncSet} (hr : Reachable M resolve g0 g cg)
    (hb : (buildCallGraph M g g.functionCalls cg).1 = true) :
    callGraphSize g.functionCalls cg <
      callGraphSize g.functionCalls (buildCallGraph M g g.functionCalls cg).2 := by
  have hrun := hr.runInv he hwf
  rw [hrun.evolves.functionCalls] at hb ⊢
  unfold callGraphSize
  apply Finset.sum_lt_sum
  · intro i hi
    rw [Finset.mem_range] at hi
    rw [buildCallGraph_snd, getD_map_getAllCallees g hi]
    exact FuncSet.card_le_card (hrun.sub i hi)
  · obtain ⟨i, hi, hne⟩ := buildCallGraph_fst_eq_true g _ cg hb
    refine ⟨i, Finset.mem_range.mpr hi, ?_⟩
    rw [buildCallGraph_snd, getD_map_getAllCallees g hi]
    exact FuncSet.card_lt_card (hrun.sub i hi) hne

/-- From any reachable state, a run with one more test than the room left
below the bound returns. -/
theorem fixpoint_isSome (he : Evolving resolve) (hwf : g0.WellFormed)
    (hglob : ModuleGlobals M g0) : ∀ (n : Nat) {g : DSGraph} {cg : List FuncSet},
      Reachable M resolve g0 g cg →
      callBound M g0.functionCalls - callGraphSize g0.functionCalls cg ≤ n →
      (fixpoint M resolve (n + 1) g cg).isSome
  | n, g, cg, hr, hn => by
      have hrun := hr.runInv he hwf
      have hcalls := hrun.evolves.functionCalls
      unfold fixpoint
      dsimp only
      split_ifs with hb
      · have hlt := hr.callGraphSize_lt he hwf hb
        have hle := callGraphSize_map_le (hglob.mono hrun.evolves) g.functionCalls
        rw [← buildCallGraph_snd g g.functionCalls cg] at hle
        have hr' := hr.round hb
        rw [hcalls] at hlt hle hr' ⊢
        cases n with
        | zero => omega
        | succ m => exact fixpoint_isSome he hwf hglob m hr' (by omega)
      · rfl

end Termination

/-- `test/dsa/steens/fp.ll`: `main` (1) stores `@foo` (4) into `@FP` (12) and
calls through the loaded `%fptr` (7) with `%val` (6); `foo` returns its
argument `%val` (5). -/
def fpModule : Module where
  functions :=
    [⟨1, false, false, [⟨2, false⟩, ⟨3, true⟩],
        [[.other 6, .other 7, .other 8, .call 9 (.value 7), .other 10]]⟩,
      ⟨4, false, false, [⟨5, true⟩], [[.other 11]]⟩]
  globals := [⟨12, true, false⟩]
  functionIsCallable := fun _ _ => true

/-- The graph the driver starts from on `fp.ll`: node 0 is `%val`, node 1 is
`@FP`, node 2 the node of `@foo` that `%fptr` reads, node 3 is `%val2`,
node 4 is `foo`'s `%val`, node 5 what `%argv` points to. -/
def fpGraph : DSGraph where
  store := ⟨[{ size := 1 }, { size := 8, links := [(0, ⟨2, 0⟩)], globals := [.variable 12] },
    { globals := [.function 4] }, { size := 1 }, { size := 1 }, {}]⟩
  scalarMap :=
    [(6, ⟨0, 0⟩), (12, ⟨1, 0⟩), (7, ⟨2, 0⟩), (4, ⟨2, 0⟩), (9, ⟨3, 0⟩), (5, ⟨4, 0⟩), (3, ⟨5, 0⟩)]
  returnNodes := [(4, ⟨4, 0⟩)]
  vaNodes := []
  functionCalls := [⟨9, .indirect ⟨2, 0⟩, some ⟨3, 0⟩, none, [⟨0, 0⟩]⟩]

/-- On `fp.ll` both loops put `main`'s `%val`, `%val2` and `foo`'s `%val` in
one class, as the test's `-check-same-node` lines expect. -/
example : (steensgaardFixpoint fpModule 2 fpGraph).map (fun r =>
    r.1.repOf ⟨0, 0⟩ == r.1.repOf ⟨4, 0⟩ && r.1.repOf ⟨3, 0⟩ == r.1.repOf ⟨0, 0⟩) = some true := by
  decide

example : (basicFixpoint fpModule 2 fpGraph).map (fun r =>
    r.1.repOf ⟨0, 0⟩ == r.1.repOf ⟨4, 0⟩ && r.1.repOf ⟨3, 0⟩ == r.1.repOf ⟨0, 0⟩) = some true := by
  decide

/-- Callee sets only grow: under any sequence of the merges the drivers
perform, and from one `buildCallGraph` of a run to the next. -/
theorem getAllCallees_ascending (M : Module) :
    (∀ (S S' : DSGraph) (cs : DSCallSite), S.WellFormed → MergeSteps S S' →
      ∀ f ∈ getAllCallees M S cs, f ∈ getAllCallees M S' cs) ∧
    (∀ (g0 g : DSGraph) (cg : List FuncSet), g0.WellFormed →
      Reachable M mergeInGraphStep g0 g cg →
      ∀ i, ∀ f ∈ cg.getD i ∅, f ∈ (buildCallGraph M g g.functionCalls cg).2.getD i ∅) ∧
    (∀ (g0 g : DSGraph) (cg : List FuncSet), g0.WellFormed →
      Reachable M resolveFunctionCallStep g0 g cg →
      ∀ i, ∀ f ∈ cg.getD i ∅, f ∈ (buildCallGraph M g g.functionCalls cg).2.getD i ∅) := by
  have ascend : ∀ {resolve} (he : Evolving resolve) (g0 g : DSGraph) (cg : List FuncSet),
      g0.WellFormed → Reachable M resolve g0 g cg →
      ∀ i, ∀ f ∈ cg.getD i ∅, f ∈ (buildCallGraph M g g.functionCalls cg).2.getD i ∅ := by
    intro resolve he g0 g cg hwf hr i f hf
    have hrun := hr.runInv he hwf
    rw [hrun.evolves.functionCalls, buildCallGraph_snd]
    by_cases hi : i < g0.functionCalls.length
    · rw [getD_map_getAllCallees g hi]; exact hrun.sub i hi f hf
    · rw [List.getD_eq_default _ _ (by have := hrun.length_le; omega)] at hf
      exact absurd hf (FuncSet.not_mem_empty f)
  exact ⟨fun S S' cs hwf hs f hf => getAllCallees_mono (hs.evolves hwf).store cs hf,
    ascend mergeInGraphStep_evolving, ascend resolveFunctionCallStep_evolving⟩

/-- Every round that reports a change strictly grows `Σ_cs |CallGraph[cs]|`,
which never exceeds `Σ_cs |U(cs)|`; so both loops stop within that many
rounds. -/
theorem fixpoint_terminates (M : Module) (g0 : DSGraph) (hwf : g0.WellFormed)
    (hglob : ModuleGlobals M g0) :
    (∀ g cg, Reachable M mergeInGraphStep g0 g cg → (buildCallGraph M g g.functionCalls cg).1 = true →
      callGraphSize g.functionCalls cg <
        callGraphSize g.functionCalls (buildCallGraph M g g.functionCalls cg).2) ∧
    (∀ g cg, Reachable M resolveFunctionCallStep g0 g cg →
      (buildCallGraph M g g.functionCalls cg).1 = true →
      callGraphSize g.functionCalls cg <
        callGraphSize g.functionCalls (buildCallGraph M g g.functionCalls cg).2) ∧
    (steensgaardFixpoint M (callBound M g0.functionCalls + 1) g0).isSome ∧
    (basicFixpoint M (callBound M g0.functionCalls + 1) g0).isSome :=
  ⟨fun _ _ hr hb => hr.callGraphSize_lt mergeInGraphStep_evolving hwf hb,
    fun _ _ hr hb => hr.callGraphSize_lt resolveFunctionCallStep_evolving hwf hb,
    fixpoint_isSome mergeInGraphStep_evolving hwf hglob _ Reachable.entry (Nat.sub_le _ _),
    fixpoint_isSome resolveFunctionCallStep_evolving hwf hglob _ Reachable.entry (Nat.sub_le _ _)⟩

theorem fixpoint_terminates_fp : fpGraph.WellFormed ∧ ModuleGlobals fpModule fpGraph ∧
    callBound fpModule fpGraph.functionCalls = 2 ∧
    (steensgaardFixpoint fpModule (callBound fpModule fpGraph.functionCalls + 1) fpGraph).isSome ∧
    (basicFixpoint fpModule (callBound fpModule fpGraph.functionCalls + 1) fpGraph).isSome :=
  have h := fixpoint_terminates fpModule fpGraph (by decide) (by decide)
  ⟨by decide, by decide, by decide, h.2.2.1, h.2.2.2⟩

end Steensgaard

end DSA
