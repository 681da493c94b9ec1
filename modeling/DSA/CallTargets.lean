/-
The call-target finder (`CallTargets.cpp`).  For every call or invoke site of
a defined function, `findIndTargets` lists candidate callees in `IndMap` and
certifies some sites complete.  It reads the DSA pass it runs over through a
small capability set: the call graph with its SCCs, the scalar map of the
globals graph, and the node of a called value in the caller's graph.

A site is visited once, and what a visit does to one site's entry depends on
nothing recorded for other sites; so the finder's result at a site is the
outcome of visiting that site alone.
-/
import DSA.Steensgaard
import Mathlib.Data.List.Nodup

namespace DSA

namespace CallTargets

/-- What `findIndTargets` reads of the DSA pass: the call graph's callees, SCCs
and SCC leaders, whether a function has an entry in the globals graph's scalar
map, and the node of a called value in the caller's graph. -/
structure DSAResult where
  callees : Nat → List Nat
  sccMembers : Nat → List Nat
  sccLeader : Nat → Nat
  inGlobalsSM : Nat → Bool
  calledNode : Nat → CalledValue → DSNode

/-- The finder's state: `AllSites`, `IndMap`, `CompleteSites` and the
statistics `DirCall`, `IndCall`, `CompleteInd`, `CompleteEmpty`. -/
structure Finder where
  allSites : List Nat := []
  indMap : Nat → List Nat := fun _ => []
  completeSites : List Nat := []
  dirCall : Nat := 0
  indCall : Nat := 0
  completeInd : Nat := 0
  completeEmpty : Nat := 0

namespace Finder

/-- `IndMap[cs].push_back(f)` for each `f` of `fs`, in order. -/
def pushTargets (st : Finder) (cs : Nat) (fs : List Nat) : Finder :=
  { st with indMap := fun k => if k = cs then st.indMap k ++ fs else st.indMap k }

/-- `isComplete(cs)`. -/
def isComplete (st : Finder) (cs : Nat) : Bool := decide (cs ∈ st.completeSites)

/-- What the finder records for one site: its `IndMap` entry and whether it is
complete. -/
def outcome (st : Finder) (cs : Nat) : List Nat × Bool := (st.indMap cs, st.isComplete cs)

@[simp] theorem pushTargets_indMap (st : Finder) (cs k : Nat) (fs : List Nat) :
    (st.pushTargets cs fs).indMap k = if k = cs then st.indMap k ++ fs else st.indMap k := rfl

@[simp] theorem pushTargets_completeSites (st : Finder) (cs : Nat) (fs : List Nat) :
    (st.pushTargets cs fs).completeSites = st.completeSites := rfl

theorem pushTargets_nil (st : Finder) (cs : Nat) : st.pushTargets cs [] = st := by
  unfold pushTargets
  congr 1
  funext k
  split_ifs <;> simp

theorem pushTargets_append (st : Finder) (cs : Nat) (a b : List Nat) :
    (st.pushTargets cs a).pushTargets cs b = st.pushTargets cs (a ++ b) := by
  unfold pushTargets
  congr 1
  funext k
  by_cases h : k = cs <;> simp [h]

theorem foldl_pushTargets (g : Nat → List Nat) (cs : Nat) :
    ∀ (l : List Nat) (st : Finder),
      l.foldl (fun st F => st.pushTargets cs (g F)) st = st.pushTargets cs (l.flatMap g)
  | [], st => (pushTargets_nil st cs).symm
  | F :: l, st => by
      rw [List.foldl_cons, foldl_pushTargets g cs l, pushTargets_append, List.flatMap_cons]

end Finder

open Finder

variable (D : DSAResult)

/-- The members of `F`'s SCC that have a globals-graph scalar-map entry, in
SCC order. -/
def sccTargets (F : Nat) : List Nat := (D.sccMembers F).filter D.inGlobalsSM

/-- The instruction-loop body of `findIndTargets` for a call or invoke site
`site` of function `caller` whose called value is `v`. -/
def visitCallSite (caller : Nat) (st : Finder) (site : Nat) (v : CalledValue) : Finder :=
  let st := { st with allSites := st.allSites ++ [site] }
  if v = .undef then st
  else if v = .inlineAsm then st
  else
    match v.getCalledFunction <|> v.stripPointerCasts.getCalledFunction with
    | some CF =>
      { st.pushTargets site [CF] with
        dirCall := st.dirCall + 1, completeSites := st.completeSites.insert site }
    | none =>
      if v.stripPointerCasts = .nullPtr then
        { st with dirCall := st.dirCall + 1, completeSites := st.completeSites.insert site }
      else
        let st := { st with indCall := st.indCall + 1 }
        let st := (D.callees site).foldl (fun st F => st.pushTargets site (sccTargets D F)) st
        let st := st.pushTargets site (sccTargets D (D.sccLeader caller))
        let N := D.calledNode caller v
        let st :=
          if !N.isIncompleteNode && !N.isExternalNode && (st.indMap site).length != 0 then
            { st with completeSites := st.completeSites.insert site,
                      completeInd := st.completeInd + 1 }
          else st
        if !N.isIncompleteNode && !N.isExternalNode && (st.indMap site).length == 0 then
          { st with completeEmpty := st.completeEmpty + 1 }
        else st

/-- One instruction: only calls and invokes are visited. -/
def visitInstruction (caller : Nat) (st : Finder) : Instruction → Finder
  | .call site v => visitCallSite D caller st site v
  | .other _ => st

/-- The block and instruction loops over a function with a body. -/
def visitFunction (st : Finder) (F : Function) : Finder :=
  if F.isDeclaration then st
  else F.blocks.foldl (fun st B => B.foldl (visitInstruction D F.id) st) st

/-- `CallTargetFinder::findIndTargets`. -/
def findIndTargets (M : Module) : Finder := M.functions.foldl (visitFunction D) {}

/-- The candidates of an indirect site: the SCC targets of each callee of the
site, then those of the caller's SCC leader. -/
def indirectTargets (caller site : Nat) : List Nat :=
  (D.callees site ++ [D.sccLeader caller]).flatMap (sccTargets D)

section Visit

variable {D} {caller : Nat} {st : Finder} {site : Nat} {v : CalledValue}

@[simp] theorem getCalledFunction_orElse (v : CalledValue) :
    (v.getCalledFunction <|> v.stripPointerCasts.getCalledFunction) =
      v.stripPointerCasts.getCalledFunction := by
  cases v <;> rfl

theorem visitCallSite_outcome_site :
    (visitCallSite D caller st site v).outcome site =
      if v = .undef ∨ v = .inlineAsm then st.outcome site
      else match v.stripPointerCasts.getCalledFunction with
        | some CF => (st.indMap site ++ [CF], true)
        | none =>
          if v.stripPointerCasts = .nullPtr then (st.indMap site, true)
          else (st.indMap site ++ indirectTargets D caller site,
            st.isComplete site || (!(D.calledNode caller v).isIncompleteNode &&
              !(D.calledNode caller v).isExternalNode &&
              (st.indMap site ++ indirectTargets D caller site).length != 0)) := by
  by_cases hu : v = .undef ∨ v = .inlineAsm
  · rcases hu with rfl | rfl <;> rfl
  · rw [if_neg hu]
    obtain ⟨hu, ha⟩ := not_or.mp hu
    simp only [visitCallSite, getCalledFunction_orElse, foldl_pushTargets, hu, ha, if_false]
    cases v.stripPointerCasts.getCalledFunction with
    | some CF => simp [outcome, isComplete]
    | none =>
      by_cases hn : v.stripPointerCasts = .nullPtr
      · simp [hn, outcome, isComplete]
      · simp only [hn, if_false, indirectTargets, List.flatMap_append, List.flatMap_singleton]
        split_ifs <;> simp_all [outcome, isComplete]

theorem visitCallSite_outcome_ne {k : Nat} (hk : k ≠ site) :
    (visitCallSite D caller st site v).outcome k = st.outcome k := by
  by_cases hu : v = .undef ∨ v = .inlineAsm
  · rcases hu with rfl | rfl <;> rfl
  · obtain ⟨hu, ha⟩ := not_or.mp hu
    simp only [visitCallSite, getCalledFunction_orElse, foldl_pushTargets, hu, ha, if_false]
    cases v.stripPointerCasts.getCalledFunction with
    | some CF => simp [outcome, isComplete, hk]
    | none => split_ifs <;> simp [outcome, isComplete, hk]

theorem visitCallSite_outcome_self (hst : st.outcome site = ([], false)) :
    (visitCallSite D caller st site v).outcome site =
      (visitCallSite D caller {} site v).outcome site := by
  obtain ⟨hmap, hc⟩ := Prod.ext_iff.mp hst
  rw [visitCallSite_outcome_site, visitCallSite_outcome_site, hst,
    show st.indMap site = [] from hmap, show st.isComplete site = false from hc]
  rfl

theorem visitCallSite_empty_outcome (D : DSAResult) (caller site : Nat) (v : CalledValue) :
    (visitCallSite D caller {} site v).outcome site =
      if v = .undef ∨ v = .inlineAsm then ([], false)
      else match v.stripPointerCasts.getCalledFunction with
        | some CF => ([CF], true)
        | none =>
          if v.stripPointerCasts = .nullPtr then ([], true)
          else (indirectTargets D caller site,
            !(D.calledNode caller v).isIncompleteNode && !(D.calledNode caller v).isExternalNode &&
              (indirectTargets D caller site).length != 0) := by
  rw [visitCallSite_outcome_site]
  rfl

end Visit

/-- The call and invoke sites of a defined function, with the function's id
and the called value, in the order `findIndTargets` visits them. -/
def siteList (F : Function) : List (Nat × Nat × CalledValue) :=
  if F.isDeclaration then []
  else F.blocks.flatMap fun B => B.filterMap fun
    | .call site v => some (F.id, site, v)
    | .other _ => none

/-- The call and invoke sites of the module's defined functions. -/
def callSites (M : Module) : List (Nat × Nat × CalledValue) := M.functions.flatMap siteList

theorem foldl_flatMap {α β γ : Type} (f : γ → β → γ) (g : α → List β) :
    ∀ (l : List α) (init : γ),
      (l.flatMap g).foldl f init = l.foldl (fun acc a => (g a).foldl f acc) init
  | [], _ => rfl
  | a :: l, init => by rw [List.flatMap_cons, List.foldl_append, List.foldl_cons, foldl_flatMap f g l]

theorem findIndTargets_eq_foldl (M : Module) :
    findIndTargets D M = (callSites M).foldl (fun st p => visitCallSite D p.1 st p.2.1 p.2.2) {} := by
  unfold findIndTargets callSites
  rw [foldl_flatMap]
  congr 1
  funext st F
  unfold visitFunction siteList
  split_ifs
  · rfl
  · rw [foldl_flatMap]
    congr 1
    funext st B
    induction B generalizing st with
    | nil => rfl
    | cons I B ih => cases I <;> exact ih _

section Run

variable {D}

theorem foldl_visit_outcome_of_not_mem {k : Nat} :
    ∀ (l : List (Nat × Nat × CalledValue)) (st : Finder), k ∉ l.map (·.2.1) →
      (l.foldl (fun st p => visitCallSite D p.1 st p.2.1 p.2.2) st).outcome k = st.outcome k
  | [], _, _ => rfl
  | p :: l, st, hk => by
      rw [List.map_cons, List.mem_cons, not_or] at hk
      rw [List.foldl_cons, foldl_visit_outcome_of_not_mem l _ hk.2,
        visitCallSite_outcome_ne hk.1]

theorem foldl_visit_outcome {caller k : Nat} {v : CalledValue} :
    ∀ (l : List (Nat × Nat × CalledValue)) (st : Finder), (l.map (·.2.1)).Nodup →
      (caller, k, v) ∈ l → st.outcome k = ([], false) →
      (l.foldl (fun st p => visitCallSite D p.1 st p.2.1 p.2.2) st).outcome k =
        (visitCallSite D caller {} k v).outcome k
  | [], _, _, hmem, _ => absurd hmem (List.not_mem_nil _)
  | p :: l, st, hnd, hmem, hst => by
      rw [List.map_cons, List.nodup_cons] at hnd
      rw [List.foldl_cons]
      rcases List.mem_cons.mp hmem with rfl | hmem
      · rw [foldl_visit_outcome_of_not_mem l _ hnd.1]
        exact visitCallSite_outcome_self hst
      · have hk : k ≠ p.2.1 := fun h => hnd.1 (h ▸ List.mem_map_of_mem _ hmem)
        exact foldl_visit_outcome l _ hnd.2 hmem (by rw [visitCallSite_outcome_ne hk, hst])

end Run

/-- What `findIndTargets` records for a site of the module is what visiting
that site alone records, when call sites are distinct. -/
theorem findIndTargets_outcome {M : Module} (hnd : ((callSites M).map (·.2.1)).Nodup)
    {caller site : Nat} {v : CalledValue} (hcs : (caller, site, v) ∈ callSites M) :
    (findIndTargets D M).outcome site = (visitCallSite D caller {} site v).outcome site := by
  rw [findIndTargets_eq_foldl]
  exact foldl_visit_outcome _ _ hnd hcs rfl

/-- A site whose called value is not inline asm is complete exactly when its
stripped called value is a function or a null pointer, or its called value is
not `undef`, its node is neither incomplete nor external, and it has candidates.
-/
theorem findIndTargets_isComplete_iff {M : Module} (hnd : ((callSites M).map (·.2.1)).Nodup)
    {caller site : Nat} {v : CalledValue} (hcs : (caller, site, v) ∈ callSites M)
    (hasm : v ≠ .inlineAsm) :
    (findIndTargets D M).isComplete site = true ↔
      (v.stripPointerCasts.getCalledFunction.isSome ∨ v.stripPointerCasts = .nullPtr) ∨
      (v ≠ .undef ∧ (D.calledNode caller v).isIncompleteNode = false ∧
        (D.calledNode caller v).isExternalNode = false ∧ (findIndTargets D M).indMap site ≠ []) := by
  have h := findIndTargets_outcome D hnd hcs
  rw [visitCallSite_empty_outcome] at h
  obtain ⟨hmap, hc⟩ := Prod.ext_iff.mp h
  rw [show (findIndTargets D M).isComplete site = _ from hc,
    show (findIndTargets D M).indMap site = _ from hmap]
  by_cases hu : v = .undef
  · subst hu; simp [CalledValue.stripPointerCasts, CalledValue.getCalledFunction]
  · cases hf : v.stripPointerCasts.getCalledFunction with
    | some CF => simp [hu, hasm, hf]
    | none => by_cases hn : v.stripPointerCasts = .nullPtr <;> simp [hu, hasm, hf, hn, and_assoc]

/-- A module whose one function calls `undef` at site 7, and at site 8 calls
through a local function pointer (value 3) whose node holds no function. -/
def undefModule : Module :=
  ⟨[⟨1, false, false, [], [[.call 7 .undef, .call 8 (.value 3)]]⟩], [], fun _ _ => true⟩

/-- A DSA result with no callees, each function alone in its SCC and absent
from the globals graph, and complete, internal nodes. -/
def emptyResult : DSAResult := ⟨fun _ => [], fun F => [F], id, fun _ => false, fun _ _ => {}⟩

theorem findIndTargets_isComplete_iff_undefModule :
    ((callSites undefModule).map (·.2.1)).Nodup ∧ (1, 8, CalledValue.value 3) ∈ callSites undefModule ∧
      CalledValue.value 3 ≠ .inlineAsm ∧
      ((findIndTargets emptyResult undefModule).isComplete 8 = true ↔
        ((CalledValue.value 3).stripPointerCasts.getCalledFunction.isSome ∨
            (CalledValue.value 3).stripPointerCasts = .nullPtr) ∨
          (CalledValue.value 3 ≠ .undef ∧ (emptyResult.calledNode 1 (.value 3)).isIncompleteNode = false ∧
            (emptyResult.calledNode 1 (.value 3)).isExternalNode = false ∧
            (findIndTargets emptyResult undefModule).indMap 8 ≠ [])) :=
  ⟨by decide, by decide, by decide,
    findIndTargets_isComplete_iff emptyResult (by decide) (by decide) (by decide)⟩

theorem findIndTargets_undef_complete_empty :
    (findIndTargets emptyResult undefModule).isComplete 7 = false ∧
      (findIndTargets emptyResult undefModule).isComplete 8 = false ∧
      (findIndTargets emptyResult undefModule).indMap 8 = [] ∧
      (findIndTargets emptyResult undefModule).completeEmpty = 1 ∧
      (emptyResult.calledNode 1 (.value 3)).isIncompleteNode = false ∧
      (emptyResult.calledNode 1 (.value 3)).isExternalNode = false := by
  decide

theorem indMap_of_indirect {M : Module} (hnd : ((callSites M).map (·.2.1)).Nodup)
    {caller site : Nat} {v : CalledValue} (hcs : (caller, site, v) ∈ callSites M)
    (hundef : v ≠ .undef) (hasm : v ≠ .inlineAsm)
    (hfun : v.stripPointerCasts.getCalledFunction = none) (hnull : v.stripPointerCasts ≠ .nullPtr) :
    (findIndTargets D M).indMap site = indirectTargets D caller site := by
  have h := congrArg Prod.fst (findIndTargets_outcome D hnd hcs)
  simpa [visitCallSite_empty_outcome, hundef, hasm, hfun, hnull] using h

/-- For an indirect site, `IndMap` lists the SCC members with a globals-graph
scalar-map entry of each callee, then of the caller's SCC leader; it repeats a
function exactly when two of these lists share it. -/
theorem findIndTargets_indMap {M : Module} (hnd : ((callSites M).map (·.2.1)).Nodup)
    {caller site : Nat} {v : CalledValue} (hcs : (caller, site, v) ∈ callSites M)
    (hundef : v ≠ .undef) (hasm : v ≠ .inlineAsm)
    (hfun : v.stripPointerCasts.getCalledFunction = none) (hnull : v.stripPointerCasts ≠ .nullPtr) :
    (∀ f, f ∈ (findIndTargets D M).indMap site ↔
      (∃ F ∈ D.callees site ++ [D.sccLeader caller], f ∈ D.sccMembers F) ∧
        D.inGlobalsSM f = true) ∧
    (((findIndTargets D M).indMap site).Nodup ↔
      (∀ F ∈ D.callees site ++ [D.sccLeader caller], (sccTargets D F).Nodup) ∧
        (D.callees site ++ [D.sccLeader caller]).Pairwise
          (fun F G => (sccTargets D F).Disjoint (sccTargets D G))) := by
  rw [indMap_of_indirect D hnd hcs hundef hasm hfun hnull]
  refine ⟨fun f => ?_, List.nodup_flatMap⟩
  simp only [indirectTargets, List.mem_flatMap, sccTargets, List.mem_filter]
  constructor
  · rintro ⟨F, hF, hf, hsm⟩; exact ⟨⟨F, hF, hf⟩, hsm⟩
  · rintro ⟨⟨F, hF, hf⟩, hsm⟩; exact ⟨F, hF, hf, hsm⟩

/-- `f` (id 1) calls, at site 8, through a pointer that may hold `f` itself. -/
def recursiveModule : Module := ⟨[⟨1, false, false, [], [[.call 8 (.value 3)]]⟩], [], fun _ _ => true⟩

/-- The DSA result of `recursiveModule`: site 8 calls `f`, alone in its SCC,
whose address is in the globals graph. -/
def recursiveResult : DSAResult := ⟨fun _ => [1], fun F => [F], id, fun _ => true, fun _ _ => {}⟩

theorem findIndTargets_indMap_recursiveModule :
    ((callSites recursiveModule).map (·.2.1)).Nodup ∧
      (1, 8, CalledValue.value 3) ∈ callSites recursiveModule ∧
      (∀ f, f ∈ (findIndTargets recursiveResult recursiveModule).indMap 8 ↔
        (∃ F ∈ recursiveResult.callees 8 ++ [recursiveResult.sccLeader 1],
            f ∈ recursiveResult.sccMembers F) ∧ recursiveResult.inGlobalsSM f = true) ∧
      (((findIndTargets recursiveResult recursiveModule).indMap 8).Nodup ↔
        (∀ F ∈ recursiveResult.callees 8 ++ [recursiveResult.sccLeader 1],
            (sccTargets recursiveResult F).Nodup) ∧
          (recursiveResult.callees 8 ++ [recursiveResult.sccLeader 1]).Pairwise
            (fun F G => (sccTargets recursiveResult F).Disjoint (sccTargets recursiveResult G))) :=
  have h := findIndTargets_indMap recursiveResult
    (show ((callSites recursiveModule).map (·.2.1)).Nodup by decide)
    (show (1, 8, CalledValue.value 3) ∈ callSites recursiveModule by decide)
    (by decide) (by decide) rfl (by decide)
  ⟨by decide, by decide, h.1, h.2⟩

theorem findIndTargets_indMap_repeats :
    (findIndTargets recursiveResult recursiveModule).indMap 8 = [1, 1] := by
  decide

end CallTargets

end DSA
