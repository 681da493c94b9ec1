/-
Where the loop's partition is the least closed partition.  `mergeInGraph`
sends the extras on either side of a call (pointer formals left without an
argument, arguments beyond the formals) to the vararg handle, a merge that
call resolution does not force: on `fewGraph` the partition at exit of the
`Steensgaard.cpp` loop is not the least closed one.
`ResolveFunctionCall` binds the `k`-th pointer formal to the `k`-th pointer
argument and nothing more, so on an entry graph of bare live nodes each merge
of the `Basic.cpp` loop joins two classes that every closed partition already
joins, and its partition at exit is the least closed partition.  Where every
call passes as many pointer arguments as each possible callee has pointer
formals, or no vararg handle is involved, the two steps agree: the
`Steensgaard.cpp` loop's partition is then least as well, and so the same for
every order of the call sites.
-/
import DSA.Partition
import DSA.Drivers
import DSA.Allocation

namespace DSA

namespace NodeStore

variable {st : NodeStore}

/-- `r` absorbing `s`: a node of the joined class reads the globals of both
representatives, any other node its own. -/
theorem globals_repNode_absorb {r s : Nat} (hs : (st.node s).forward = none)
    (hslt : s < st.length) (hrlt : r < st.length) (hrs : r ≠ s) (t : Nat) :
    ((st.absorb ⟨r, 0⟩ ⟨s, 0⟩).repNode t).globals =
      if st.rep t = s ∨ st.rep t = r then mergeGlobals (st.node r).globals (st.node s).globals
      else (st.repNode t).globals := by
  rw [repNode, @rep_absorb st ⟨r, 0⟩ ⟨s, 0⟩ hs hslt hrs]
  unfold absorb
  simp only [node_forwardNode, length_setNode, node_setNode]
  by_cases hts : st.rep t = s
  · simp [hts, hrlt, Ne.symm hrs]
  · by_cases htr : st.rep t = r
    · simp [hts, htr, hrlt, Ne.symm hrs]
    · simp [hts, htr, repNode, Ne.symm htr, Ne.symm hts]

/-- On a bare store, a global that a node reads after `mergeWith` was read
before through some node now in its class. -/
theorem Bare.globals_mergeWith (hwf : st.WellFormed) (hb : st.Bare) {h1 h2 : DSNodeHandle}
    (h1lt : h1.node < st.length) (h2lt : h2.node < st.length) {t : Nat} (htlt : t < st.length)
    {x : GlobalValue} (hx : x ∈ ((st.mergeWith h1 h2).repNode t).globals) :
    ∃ k < st.length, (st.mergeWith h1 h2).rep k = (st.mergeWith h1 h2).rep t ∧
      x ∈ (st.repNode k).globals := by
  rw [NodeStore.mergeWith, hb.mergeWithFuel_eq] at hx ⊢
  by_cases h12 : st.rep h1.node = st.rep h2.node
  · rw [if_pos h12] at hx ⊢
    exact ⟨t, htlt, rfl, hx⟩
  · have hs := hwf.repNode_forward h2.node
    have hslt := hwf.rep_lt h2lt
    rw [if_neg h12] at hx ⊢
    have hrep := @rep_absorb st ⟨st.rep h1.node, 0⟩ ⟨st.rep h2.node, 0⟩ hs hslt h12
    rw [globals_repNode_absorb hs hslt (hwf.rep_lt h1lt) h12] at hx
    split_ifs at hx with hj
    · have hrt : (st.absorb ⟨st.rep h1.node, 0⟩ ⟨st.rep h2.node, 0⟩).rep t = st.rep h1.node := by
        rw [hrep]; rcases hj with hj | hj <;> simp [hj]
      rcases mem_mergeGlobals.mp hx with hx | hx
      · refine ⟨h1.node, h1lt, ?_, hx⟩
        rw [hrt, hrep, if_neg h12]
      · exact ⟨h2.node, h2lt, by rw [hrt, hrep, if_pos rfl], hx⟩
    · exact ⟨t, htlt, rfl, hx⟩

end NodeStore

namespace Steensgaard

open DSGraph

/-- The partition of the loop's state `g` lies below partition `R`: `g`
evolved from the entry graph by merges of bare nodes alone, two entry nodes in
one class of `g` are in one class of `R`, and a node reads only globals held
by entry nodes of its class. -/
structure Below (g0 : DSGraph) (R : Partition) (g : DSGraph) : Prop where
  evolves : Evolves g0 g
  bare : g.store.Bare
  arena : g.arena = g0.arena
  below : ∀ n < g0.store.length, ∀ m < g0.store.length, g.store.rep n = g.store.rep m → R n = R m
  globals : ∀ n < g0.store.length, ∀ x ∈ (g.store.repNode n).globals,
    ∃ m < g0.store.length, g.store.rep m = g.store.rep n ∧ x ∈ (g0.store.node m).globals

variable {M : Module} {g0 : DSGraph} {R : Partition}

theorem Below.entry (hwf : g0.WellFormed) (hb : g0.store.Bare) (hR : ContainsClasses g0 R) :
    Below g0 R g0 :=
  ⟨Evolves.refl hwf, hb, rfl, hR, fun n hn _ hx =>
    ⟨g0.store.rep n, hwf.store.rep_lt hn, hwf.store.rep_rep n, hx⟩⟩

theorem Below.mergeWith {g : DSGraph} (hg : Below g0 R g) {h1 h2 : DSNodeHandle}
    (h1lt : h1.node < g0.store.length) (h2lt : h2.node < g0.store.length)
    (hR : R h1.node = R h2.node) : Below g0 R (g.mergeWith h1 h2) := by
  have hlen : g.store.length = g0.store.length := congrArg Prod.fst hg.arena
  have hwf := hg.evolves.wf
  have hev := mergeWith_evolves hwf (hlen ▸ h1lt) (hlen ▸ h2lt)
  have hrep : ∀ t, (g.store.mergeWith h1 h2).rep t =
      if g.store.rep t = g.store.rep h2.node then g.store.rep h1.node else g.store.rep t :=
    hg.bare.rep_mergeWith hwf.store (hlen ▸ h2lt)
  refine ⟨hg.evolves.trans hev, hg.bare.mergeWith h1 h2, (arena_mergeWith h1 h2).trans hg.arena,
    fun n hn m hm h => ?_, fun n hn x hx => ?_⟩
  · simp only [DSGraph.mergeWith, hrep] at h
    split_ifs at h with hn2 hm2 hm2
    · exact (hg.below n hn _ h2lt hn2).trans (hg.below _ h2lt m hm hm2.symm)
    · exact (hg.below n hn _ h2lt hn2).trans (hR.symm.trans (hg.below _ h1lt m hm h))
    · exact (hg.below n hn _ h1lt h).trans (hR.trans (hg.below m hm _ h2lt hm2).symm)
    · exact hg.below n hn m hm h
  · obtain ⟨k, hk, hkn, hxk⟩ :=
      hg.bare.globals_mergeWith hwf.store (hlen ▸ h1lt) (hlen ▸ h2lt) (hlen ▸ hn) hx
    obtain ⟨m, hm, hmk, hxm⟩ := hg.globals k (hlen ▸ hk) x hxk
    exact ⟨m, hm, (hev.store.rep_eq m k hmk).trans hkn, hxm⟩

/-- What a merge of pairs of handles needs: both in the entry arena, in one
class of `R`. -/
def JoinedBy (g0 : DSGraph) (R : Partition) (h1 h2 : DSNodeHandle) : Prop :=
  h1.node < g0.store.length ∧ h2.node < g0.store.length ∧ R h1.node = R h2.node

theorem Below.mergeOpt {g : DSGraph} (hg : Below g0 R g) {o1 o2 : Option DSNodeHandle}
    (h : ∀ h1 ∈ o1, ∀ h2 ∈ o2, JoinedBy g0 R h1 h2) : Below g0 R (g.mergeOpt o1 o2) := by
  cases o1 with
  | none => exact hg
  | some h1 =>
    cases o2 with
    | none => exact hg
    | some h2 =>
      obtain ⟨a, b, c⟩ := h h1 rfl h2 rfl
      exact hg.mergeWith a b c

theorem Below.mergePairs : ∀ (fs as : List DSNodeHandle) {g : DSGraph}, Below g0 R g →
    (∀ p ∈ fs.zip as, JoinedBy g0 R p.1 p.2) → Below g0 R (g.mergePairs fs as)
  | f :: fs, a :: as, g, hg, h => by
      rw [mergePairs_cons]
      obtain ⟨a₁, a₂, a₃⟩ := h (f, a) (List.mem_cons_self _ _)
      exact Below.mergePairs fs as (hg.mergeWith a₁ a₂ a₃)
        (fun p hp => h p (List.mem_cons_of_mem _ hp))
  | [], _, _, hg, _ => hg
  | _ :: _, [], _, hg, _ => hg

theorem mem_zip_filterMap_lookup {l : List (Nat × DSNodeHandle)} : ∀ {vs : List Nat}
    {bs : List DSNodeHandle}, (∀ v ∈ vs, (l.lookup v).isSome) →
      ∀ q ∈ (vs.filterMap l.lookup).zip bs, ∃ v, (v, q.2) ∈ vs.zip bs ∧ l.lookup v = some q.1
  | [], _, _, q, hq => by simp at hq
  | v :: vs, bs, hb, q, hq => by
      obtain ⟨h, hv⟩ := Option.isSome_iff_exists.mp (hb v (List.mem_cons_self _ _))
      have ih := @mem_zip_filterMap_lookup l vs bs.tail fun w hw => hb w (List.mem_cons_of_mem _ hw)
      cases bs with
      | nil => simp at hq
      | cons b bs =>
        simp only [List.filterMap_cons, hv, List.zip_cons_cons, List.mem_cons] at hq
        rcases hq with rfl | hq
        · exact ⟨v, List.mem_cons_self _ _, hv⟩
        · obtain ⟨w, hw, hl⟩ := ih q hq
          exact ⟨w, List.mem_cons_of_mem _ hw, hl⟩

/-- `ResolveFunctionCall` against a callee whose binding `R` already contains
keeps the state below `R`. -/
theorem Below.resolveFunctionCall (hwf : g0.WellFormed) {g : DSGraph} (hg : Below g0 R g)
    {cs : DSCallSite} (hcs : cs ∈ g0.functionCalls) {F : Function} (hFB : FormalsBound g0 F)
    (hF : BindsUnder g0 R cs F) : Below g0 R (g.resolveFunctionCall F cs) := by
  have hsm : g.scalarMap = g0.scalarMap := congrArg Prod.snd hg.arena
  have hcall : ∀ {h}, h ∈ cs.handles → h.node < g0.store.length := fun hh => hwf.call_lt cs hcs _ hh
  have h₂ : Below g0 R (g.mergeOpt (g.getReturnNodeFor F.id) cs.retVal) := by
    refine hg.mergeOpt fun r hr c hc => ?_
    rw [getReturnNodeFor, hg.evolves.returnNodes] at hr
    exact ⟨hwf.getReturnNodeFor_lt hr, hcall (DSCallSite.retVal_mem_handles hc), hF.1 r hr c hc⟩
  have h₃ : Below g0 R ((g.mergeOpt (g.getReturnNodeFor F.id) cs.retVal).mergeOpt
      ((g.mergeOpt (g.getReturnNodeFor F.id) cs.retVal).getVANodeFor F.id) cs.vaVal) :=
    h₂.mergeOpt fun r hr c hc => by
      rw [getVANodeFor, mergeOpt_vaNodes, hg.evolves.vaNodes] at hr
      exact ⟨hwf.getVANodeFor_lt hr, hcall (DSCallSite.vaVal_mem_handles hc), hF.2.1 r hr c hc⟩
  unfold DSGraph.resolveFunctionCall
  dsimp only
  rw [resolvePtrArgs_eq_mergePairs, hsm, filterMap_lookup_of_bound _ F.args hFB]
  refine Below.mergePairs _ _ h₃ fun q hq => ?_
  have hbound : ∀ v ∈ F.ptrArgs.map (·.value), (g0.scalarMap.lookup v).isSome := by
    simp only [List.mem_map, Function.ptrArgs, List.mem_filter]
    rintro v ⟨a, ⟨ha, hp⟩, rfl⟩
    rw [hFB a ha, hp]
  obtain ⟨v, hv, hl⟩ := mem_zip_filterMap_lookup hbound q hq
  rw [List.zip_map_left, List.mem_map] at hv
  obtain ⟨p, hp, hpv⟩ := hv
  simp only [Prod.map, Prod.mk.injEq, id] at hpv
  have harg := hF.2.2 p hp
  rw [hpv.1, hl, hpv.2] at harg
  exact ⟨hwf.lookup_lt hl, hcall (DSCallSite.ptrArg_mem_handles (hpv.2 ▸ (List.of_mem_zip hp).2)),
    by simpa using harg⟩

theorem Below.getAllCallees_sub (hwf : g0.WellFormed) {g : DSGraph} (hg : Below g0 R g)
    {cs : DSCallSite} (hcs : cs ∈ g0.functionCalls) {f : Nat} (hf : f ∈ getAllCallees M g cs) :
    f ∈ calleesUnder M g0 R cs := by
  rw [mem_getAllCallees] at hf
  unfold calleesUnder
  cases hcallee : cs.callee with
  | direct d =>
    simp only [hcallee] at hf ⊢
    simp [hf.1, hf.2]
  | indirect h =>
    simp only [hcallee] at hf ⊢
    obtain ⟨hx, hc⟩ := hf
    have hlt := hwf.call_lt cs hcs h (DSCallSite.callee_mem_handles hcallee)
    obtain ⟨m, hm, hmr, hxm⟩ := hg.globals h.node hlt _ hx
    simp only [List.mem_flatMap, List.mem_filter, List.mem_range, List.mem_filterMap,
      decide_eq_true_eq]
    exact ⟨m, ⟨hm, hg.below m hm h.node hlt hmr⟩, ⟨.function f, hxm, rfl⟩, hc⟩

theorem calleesUnder_sub_possibleCallees {g : DSGraph} {cs : DSCallSite} {f : Nat} {F : Function}
    (hf : f ∈ calleesUnder M g R cs) (hF : M.function? f = some F) : f ∈ possibleCallees M cs := by
  unfold calleesUnder at hf
  unfold possibleCallees
  cases hcallee : cs.callee with
  | direct d =>
    simp only [hcallee] at hf ⊢
    split_ifs at hf
    · rw [List.mem_singleton.mp hf]; simp
    · cases hf
  | indirect h =>
    simp only [hcallee, List.mem_flatMap, List.mem_filter] at hf ⊢
    obtain ⟨-, -, -, hc⟩ := hf
    rw [FuncSet.mem_ofList, List.mem_filter]
    exact ⟨List.mem_map.mpr ⟨F, Module.mem_of_function? hF, Module.function?_id hF⟩, hc⟩

/-- A resolution step that keeps the state below `R` whenever it resolves a
call of the entry graph against a defined callee that `R` induces. -/
def KeepsBelow (M : Module) (g0 : DSGraph) (R : Partition)
    (resolve : DSGraph → DSCallSite → Function → DSGraph) : Prop :=
  ∀ g cs f F, Below g0 R g → cs ∈ g0.functionCalls → f ∈ calleesUnder M g0 R cs →
    M.function? f = some F → F.isDeclaration = false → Below g0 R (resolve g cs F)

section Steps

variable (hwf : g0.WellFormed) (hR : ResolvesUnder M g0 R)
  (hbound : ∀ F ∈ M.functions, FormalsBound g0 F)
include hwf hR hbound

theorem resolveFunctionCallStep_keepsBelow : KeepsBelow M g0 R resolveFunctionCallStep :=
  fun _ cs f F hg hcs hf hF hdecl => hg.resolveFunctionCall hwf hcs
    (hbound F (Module.mem_of_function? hF)) (hR cs hcs f hf F hF hdecl)

/-- Under `NoVarargExtras`, `mergeInGraph` is `ResolveFunctionCall` on every
state below `R`. -/
theorem mergeInGraphStep_keepsBelow (hx : NoVarargExtras M g0) :
    KeepsBelow M g0 R mergeInGraphStep := by
  intro g cs f F hg hcs hf hF hdecl
  have hsm : g.scalarMap = g0.scalarMap := congrArg Prod.snd hg.arena
  have hFm := Module.mem_of_function? hF
  have hpos : F.id ∈ possibleCallees M cs :=
    (Module.function?_id hF).symm ▸ calleesUnder_sub_possibleCallees hf hF
  have heq : g.resolveFunctionCall F cs = g.mergeInGraph cs F :=
    resolveFunctionCall_eq_mergeInGraph (by unfold FormalsBound; rw [hsm]; exact hbound F hFm)
      (by rw [getVANodeFor, hg.evolves.vaNodes]; exact hx cs hcs F hFm hpos)
  show Below g0 R (g.mergeInGraph cs F)
  rw [← heq]
  exact resolveFunctionCallStep_keepsBelow hwf hR hbound g cs f F hg hcs hf hF hdecl

end Steps

section Run

variable {resolve : DSGraph → DSCallSite → Function → DSGraph} (hstep : KeepsBelow M g0 R resolve)
include hstep

theorem Below.resolveTargets {cs : DSCallSite} (hcs : cs ∈ g0.functionCalls) :
    ∀ (ts : List Nat) {g : DSGraph}, Below g0 R g → (∀ f ∈ ts, f ∈ calleesUnder M g0 R cs) →
      Below g0 R (resolveTargets M resolve cs g ts)
  | [], _, hg, _ => hg
  | f :: ts, g, hg, hts => by
      have h₁ : Below g0 R (resolveTarget M resolve cs g f) := by
        unfold resolveTarget
        split
        · next F hF =>
          split_ifs with hdecl
          · exact hg
          · exact hstep g cs f F hg hcs (hts f (List.mem_cons_self _ _)) hF (by simpa using hdecl)
        · exact hg
      exact Below.resolveTargets hcs ts h₁ fun f' hf' => hts f' (List.mem_cons_of_mem _ hf')

theorem Below.resolveCalls (hwf : g0.WellFormed) {gs : DSGraph} (hgs : Below g0 R gs) :
    ∀ (calls : List DSCallSite) {g : DSGraph}, Below g0 R g →
      (∀ cs ∈ calls, cs ∈ g0.functionCalls) →
      Below g0 R (resolveCalls M resolve g calls (calls.map (getAllCallees M gs)))
  | [], _, hg, _ => hg
  | cs :: calls, g, hg, hcalls => by
      have hcs := hcalls cs (List.mem_cons_self _ _)
      simp only [List.map_cons, resolveCalls]
      exact Below.resolveCalls hwf hgs calls
        (hg.resolveTargets hstep hcs _ fun f hf => hgs.getAllCallees_sub hwf hcs hf)
        fun c hc => hcalls c (List.mem_cons_of_mem _ hc)

theorem Reachable.staysBelow (hwf : g0.WellFormed) (hb : g0.store.Bare) (hR : ContainsClasses g0 R)
    {g : DSGraph} {cg : List FuncSet} (hr : Reachable M resolve g0 g cg) : Below g0 R g := by
  induction hr with
  | entry => exact Below.entry hwf hb hR
  | round _ _ ih =>
    rw [buildCallGraph_snd]
    exact ih.resolveCalls hstep hwf _ ih fun cs h => ih.evolves.functionCalls ▸ h

end Run

/-- A run whose steps keep it below every closed partition, and whose last
state is closed under call resolution, ends at the least closed partition. -/
theorem Reachable.isLeastClosedPartition {resolve : DSGraph → DSCallSite → Function → DSGraph}
    (hwf : g0.WellFormed) (hb : g0.store.Bare) (hlive : ∀ N ∈ g0.store.nodes, N.forward = none)
    (hbound : ∀ F ∈ M.functions, FormalsBound g0 F)
    (hkeep : ∀ R, ResolvesUnder M g0 R → KeepsBelow M g0 R resolve) {g : DSGraph}
    {cg : List FuncSet} (hr : Reachable M resolve g0 g cg) (hev : Evolves g0 g)
    (hclosed : ClosedUnderCalls M g) : IsLeastClosedPartition M g0 g.store.rep :=
  ⟨isClosedPartition_of_closed hb hlive hbound hev hclosed,
    fun R hR => (hr.staysBelow (hkeep R hR.2.2) hwf hb hR.1).below⟩

theorem steensgaardFixpoint_exit (hwf : g0.WellFormed) {fuel : Nat} {r : DSGraph × List FuncSet}
    (h : steensgaardFixpoint M fuel g0 = some r) :
    ∃ cg, Reachable M mergeInGraphStep g0 r.1 cg ∧ Evolves g0 r.1 ∧ ClosedUnderCalls M r.1 :=
  fixpoint_exit_closed mergeInGraphStep_evolving mergeInGraphStep_resolves hwf (fun _ _ => trivial) h

/-- A variadic function `F` (1) with pointer formals `%p` (10) and `%q` (11)
and vararg node 2, called by `main` (2) as `F(%x)` (20) at site 21: the call
passes one pointer argument where `F` has two. -/
def fewModule : Module where
  functions :=
    [⟨1, false, true, [⟨10, true⟩, ⟨11, true⟩], [[]]⟩,
      ⟨2, false, false, [⟨20, true⟩], [[.call 21 (.function 1)]]⟩]
  globals := []
  functionIsCallable := fun _ _ => true

def fewGraph : DSGraph where
  store := ⟨[{}, {}, {}, {}]⟩
  scalarMap := [(10, ⟨0, 0⟩), (11, ⟨1, 0⟩), (20, ⟨3, 0⟩)]
  returnNodes := []
  vaNodes := [(1, ⟨2, 0⟩)]
  functionCalls := [⟨21, .direct 1, none, none, [⟨3, 0⟩]⟩]

theorem fewGraph_entry : fewGraph.WellFormed ∧ fewGraph.store.Bare ∧
    (∀ N ∈ fewGraph.store.nodes, N.forward = none) ∧
    (∀ F ∈ fewModule.functions, FormalsBound fewGraph F) ∧ ¬ NoVarargExtras fewModule fewGraph := by
  decide

/-- The closed partition that joins `%p` with `%x` and nothing else. -/
def fewClasses : Partition := fun n => if n = 3 then 0 else n

def fewExit : DSGraph × List FuncSet := (steensgaardFixpoint fewModule 2 fewGraph).getD (fewGraph, [])

def fewBasicExit : DSGraph × List FuncSet := (basicFixpoint fewModule 2 fewGraph).getD (fewGraph, [])

/-- `test/dsa/steens/fp3.ll`: `call` (1) calls through `%fp` (10) with `%arg`
(11); `woof` (2) calls through its `%fp` (20) with `@bar` and `%arg` (21);
`main` (3) calls `call(@foo, %mval)` and `woof(@call, %mval2)`; `foo` (4) and
`bar` (5) return their argument. -/
def fp3Module : Module where
  functions :=
    [⟨1, false, true, [⟨10, true⟩, ⟨11, true⟩], [[.call 12 (.value 10)]]⟩,
      ⟨2, false, true, [⟨20, true⟩, ⟨21, true⟩], [[.call 22 (.value 20)]]⟩,
      ⟨3, false, false, [⟨30, false⟩, ⟨31, true⟩],
        [[.other 32, .other 33, .call 34 (.function 1), .call 35 (.function 2)]]⟩,
      ⟨4, false, true, [⟨40, true⟩], [[]]⟩,
      ⟨5, false, true, [⟨50, true⟩], [[]]⟩]
  globals := []
  functionIsCallable := fun _ _ => true

/-- The entry graph of `fp3.ll` with one bare node per pointer value: nodes 0
to 5 are `call`'s `%fp`, `%arg`, `%cval` and `woof`'s `%fp`, `%arg`, `%wval`;
6 to 10 are `main`'s `%argv`, `%mval`, `%mval2`, `%mret1`, `%mret2`; 11 and 12
are `%fval` and `%bval`; 13 to 15 hold `@foo`, `@bar` and `@call`. -/
def fp3Graph : DSGraph where
  store := ⟨[{}, {}, {}, {}, {}, {}, {}, {}, {}, {}, {}, {}, {},
    { globals := [.function 4] }, { globals := [.function 5] }, { globals := [.function 1] }]⟩
  scalarMap := [(10, ⟨0, 0⟩), (11, ⟨1, 0⟩), (12, ⟨2, 0⟩), (20, ⟨3, 0⟩), (21, ⟨4, 0⟩), (22, ⟨5, 0⟩),
    (31, ⟨6, 0⟩), (32, ⟨7, 0⟩), (33, ⟨8, 0⟩), (34, ⟨9, 0⟩), (35, ⟨10, 0⟩), (40, ⟨11, 0⟩),
    (50, ⟨12, 0⟩), (4, ⟨13, 0⟩), (5, ⟨14, 0⟩), (1, ⟨15, 0⟩)]
  returnNodes := [(1, ⟨2, 0⟩), (2, ⟨5, 0⟩), (4, ⟨11, 0⟩), (5, ⟨12, 0⟩)]
  vaNodes := []
  functionCalls :=
    [⟨12, .indirect ⟨0, 0⟩, some ⟨2, 0⟩, none, [⟨1, 0⟩]⟩,
      ⟨22, .indirect ⟨3, 0⟩, some ⟨5, 0⟩, none, [⟨14, 0⟩, ⟨4, 0⟩]⟩,
      ⟨34, .direct 1, some ⟨9, 0⟩, none, [⟨13, 0⟩, ⟨7, 0⟩]⟩,
      ⟨35, .direct 2, some ⟨10, 0⟩, none, [⟨15, 0⟩, ⟨8, 0⟩]⟩]

theorem fp3Graph_entry : fp3Graph.WellFormed ∧ fp3Graph.store.Bare ∧
    (∀ N ∈ fp3Graph.store.nodes, N.forward = none) ∧
    (∀ F ∈ fp3Module.functions, FormalsBound fp3Graph F) ∧ NoVarargExtras fp3Module fp3Graph := by
  decide

/-- The loop's exit on `fp3.ll`, and on `fp3.ll` with its calls in reverse
order. -/
def fp3Exit : DSGraph × List FuncSet := (steensgaardFixpoint fp3Module 4 fp3Graph).getD (fp3Graph, [])

theorem steensgaardFixpoint_fp3 : steensgaardFixpoint fp3Module 4 fp3Graph = some fp3Exit := by
  decide

def fp3ReversedGraph : DSGraph := { fp3Graph with functionCalls := fp3Graph.functionCalls.reverse }

def fp3ReversedExit : DSGraph × List FuncSet :=
  (steensgaardFixpoint fp3Module 4 fp3ReversedGraph).getD (fp3Graph, [])

/-- The `-check-same-node` lines of `fp3.ll` hold after three rounds: `%mval`
with `%fval`, `%mval2` with `%mval`, `%cval` with `%mval`, `%mval2` with
`%bval`. -/
example : (steensgaardFixpoint fp3Module 4 fp3Graph).map (fun r =>
    r.1.repOf ⟨7, 0⟩ == r.1.repOf ⟨11, 0⟩ && r.1.repOf ⟨8, 0⟩ == r.1.repOf ⟨7, 0⟩ &&
    r.1.repOf ⟨2, 0⟩ == r.1.repOf ⟨7, 0⟩ && r.1.repOf ⟨8, 0⟩ == r.1.repOf ⟨12, 0⟩) = some true := by
  decide

/-- The entry graph of `fp3.ll` with `main`'s `%mval` and `%mval2` merged, and
the loop's exit on it. -/
def fp3MergedGraph : DSGraph := { fp3Graph with store := fp3Graph.store.mergeWith ⟨7, 0⟩ ⟨8, 0⟩ }

def fp3MergedExit : DSGraph × List FuncSet :=
  (steensgaardFixpoint fp3Module 4 fp3MergedGraph).getD (fp3Graph, [])

/-- The repository's test of a call through a function-pointer parameter:
`call` (1) calls through `%fp` (10) with `%arg` (11) and returns `%cval` (12);
`main` (2) calls `call(@foo, %mval)` at `%mval2` (23); `foo` (3) returns its
`%fval` (30). -/
def fpParamModule : Module where
  functions :=
    [⟨1, false, true, [⟨10, true⟩, ⟨11, true⟩], [[.call 12 (.value 10)]]⟩,
      ⟨2, false, false, [⟨20, false⟩, ⟨21, true⟩], [[.other 22, .call 23 (.function 1)]]⟩,
      ⟨3, false, true, [⟨30, true⟩], [[]]⟩]
  globals := []
  functionIsCallable := fun _ _ => true

/-- Its entry graph, one bare node per pointer value: nodes 0 to 2 are
`call`'s `%fp`, `%arg` and `%cval`, 3 to 5 `main`'s `%argv`, `%mval` and
`%mval2`, 6 is `%fval` and 7 holds `@foo`. -/
def fpParamGraph : DSGraph where
  store := ⟨[{}, {}, {}, {}, {}, {}, {}, { globals := [.function 3] }]⟩
  scalarMap := [(10, ⟨0, 0⟩), (11, ⟨1, 0⟩), (12, ⟨2, 0⟩), (21, ⟨3, 0⟩), (22, ⟨4, 0⟩),
    (23, ⟨5, 0⟩), (30, ⟨6, 0⟩), (3, ⟨7, 0⟩)]
  returnNodes := [(1, ⟨2, 0⟩), (3, ⟨6, 0⟩)]
  vaNodes := []
  functionCalls :=
    [⟨12, .indirect ⟨0, 0⟩, some ⟨2, 0⟩, none, [⟨1, 0⟩]⟩,
      ⟨23, .direct 1, some ⟨5, 0⟩, none, [⟨7, 0⟩, ⟨4, 0⟩]⟩]

/-- The first round binds `%fp` to `@foo`, which gives the indirect call its
callee only in the second round: the loop tests its condition three times,
and the test's `-check-same-node` lines hold at exit (`%mval` with `%fval`,
`%mval2` with `%mval`, `%cval` with `%mval`). -/
example : steensgaardFixpoint fpParamModule 2 fpParamGraph = none ∧
    (steensgaardFixpoint fpParamModule 3 fpParamGraph).map (fun r =>
      r.1.repOf ⟨4, 0⟩ == r.1.repOf ⟨6, 0⟩ && r.1.repOf ⟨5, 0⟩ == r.1.repOf ⟨4, 0⟩ &&
      r.1.repOf ⟨2, 0⟩ == r.1.repOf ⟨4, 0⟩) = some true := by
  decide

end Steensgaard

end DSA
