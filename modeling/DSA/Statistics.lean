/-
The bookkeeping of the call-target finder over a whole module: `AllSites` and
the four statistics `DirCall`, `IndCall`, `CompleteInd` and `CompleteEmpty`.
Each visit bumps at most one counter of each pair according to how it
classifies the called value, so over a run every counter is the number of
call sites of its kind; and since a site's record depends on that site alone,
the finder's result does not depend on the order of the module's functions.
-/
import DSA.CallTargets

namespace DSA

namespace CallTargets

open Finder

/-- How `findIndTargets` classifies a call site by its called value. -/
inductive SiteKind where
  /-- `undef` or inline asm: the site is only listed in `AllSites`. -/
  | skipped
  /-- A function or a null pointer after stripping pointer casts. -/
  | direct
  | indirect
deriving DecidableEq

def siteKind (v : CalledValue) : SiteKind :=
  if v = .undef ∨ v = .inlineAsm then .skipped
  else if v.stripPointerCasts.getCalledFunction.isSome ∨ v.stripPointerCasts = .nullPtr then .direct
  else .indirect

variable (D : DSAResult)

/-- The node of the called value in the caller's graph is neither incomplete
nor external. -/
def cleanNode (caller : Nat) (v : CalledValue) : Bool :=
  !(D.calledNode caller v).isIncompleteNode && !(D.calledNode caller v).isExternalNode

namespace Finder

variable (st : Finder) (cs : Nat) (fs : List Nat)

@[simp] theorem pushTargets_allSites : (st.pushTargets cs fs).allSites = st.allSites := rfl

@[simp] theorem pushTargets_dirCall : (st.pushTargets cs fs).dirCall = st.dirCall := rfl

@[simp] theorem pushTargets_indCall : (st.pushTargets cs fs).indCall = st.indCall := rfl

@[simp] theorem pushTargets_completeInd : (st.pushTargets cs fs).completeInd = st.completeInd := rfl

@[simp] theorem pushTargets_completeEmpty :
    (st.pushTargets cs fs).completeEmpty = st.completeEmpty := rfl

end Finder

section Visit

variable {D} {caller : Nat} {st : Finder} {site : Nat} {v : CalledValue}

/-- What a visit does to the site list and the statistics: it lists the site,
counts it as direct or indirect, and counts an indirect site with a clean node
as complete or complete-empty by the candidates now recorded for it. -/
theorem visitCallSite_counters :
    let st' := visitCallSite D caller st site v
    st'.allSites = st.allSites ++ [site] ∧
    st'.dirCall = st.dirCall + (if siteKind v = .direct then 1 else 0) ∧
    st'.indCall = st.indCall + (if siteKind v = .indirect then 1 else 0) ∧
    st'.completeInd = st.completeInd + (if siteKind v = .indirect ∧ cleanNode D caller v ∧
      st.indMap site ++ indirectTargets D caller site ≠ [] then 1 else 0) ∧
    st'.completeEmpty = st.completeEmpty + (if siteKind v = .indirect ∧ cleanNode D caller v ∧
      st.indMap site ++ indirectTargets D caller site = [] then 1 else 0) ∧
    st'.completeSites = if siteKind v = .direct ∨ (siteKind v = .indirect ∧ cleanNode D caller v ∧
      st.indMap site ++ indirectTargets D caller site ≠ []) then st.completeSites.insert site
      else st.completeSites := by
  by_cases hu : v = .undef ∨ v = .inlineAsm
  · rcases hu with rfl | rfl <;> simp [visitCallSite, siteKind]
  · obtain ⟨hu, ha⟩ := not_or.mp hu
    simp only [visitCallSite, getCalledFunction_orElse, foldl_pushTargets, hu, ha, if_false,
      pushTargets_append]
    cases hf : v.stripPointerCasts.getCalledFunction with
    | some CF => simp [siteKind, hu, ha, hf]
    | none =>
      by_cases hn : v.stripPointerCasts = .nullPtr
      · simp [siteKind, hu, ha, hf, hn]
      · have hk : siteKind v = .indirect := by simp [siteKind, hu, ha, hf, hn]
        have ht : (D.callees site).flatMap (sccTargets D) ++ sccTargets D (D.sccLeader caller) =
            indirectTargets D caller site := by
          simp [indirectTargets]
        simp only [hn, if_false, hk, ht, pushTargets_indMap, if_true, apply_ite Finder.indMap,
          ite_self]
        rw [← cleanNode]
        generalize st.indMap site ++ indirectTargets D caller site = L
        by_cases hc : cleanNode D caller v <;> by_cases hL : L = [] <;> simp [hc, hL]

end Visit

section Run

variable {D}

/-- A run lists every site it visits, in order, and counts the direct and the
indirect ones. -/
theorem foldl_visit_counters : ∀ (l : List (Nat × Nat × CalledValue)) (st : Finder),
    let st' := l.foldl (fun st p => visitCallSite D p.1 st p.2.1 p.2.2) st
    st'.allSites = st.allSites ++ l.map (·.2.1) ∧
    st'.dirCall = st.dirCall + l.countP (fun p => siteKind p.2.2 = .direct) ∧
    st'.indCall = st.indCall + l.countP (fun p => siteKind p.2.2 = .indirect)
  | [], st => by simp
  | p :: l, st => by
      obtain ⟨ha, hd, hi, -⟩ := @visitCallSite_counters D p.1 st p.2.1 p.2.2
      obtain ⟨ha', hd', hi'⟩ := foldl_visit_counters l (visitCallSite D p.1 st p.2.1 p.2.2)
      simp only [List.foldl_cons, ha', ha, hd', hd, hi', hi, List.countP_cons, List.map_cons,
        List.append_assoc, List.singleton_append, decide_eq_true_eq]
      refine ⟨trivial, ?_, ?_⟩ <;> split_ifs <;> omega

/-- A run over distinct sites with nothing recorded yet counts the complete
and the complete-empty indirect sites, and makes complete exactly its direct
sites and its complete indirect ones. -/
theorem foldl_visit_complete : ∀ (l : List (Nat × Nat × CalledValue)) (st : Finder),
    (l.map (·.2.1)).Nodup → (∀ p ∈ l, st.outcome p.2.1 = ([], false)) →
    let st' := l.foldl (fun st p => visitCallSite D p.1 st p.2.1 p.2.2) st
    st'.completeInd = st.completeInd + l.countP (fun p => siteKind p.2.2 = .indirect ∧
      cleanNode D p.1 p.2.2 ∧ indirectTargets D p.1 p.2.1 ≠ []) ∧
    st'.completeEmpty = st.completeEmpty + l.countP (fun p => siteKind p.2.2 = .indirect ∧
      cleanNode D p.1 p.2.2 ∧ indirectTargets D p.1 p.2.1 = []) ∧
    st'.completeSites.length = st.completeSites.length +
      l.countP (fun p => siteKind p.2.2 = .direct) + l.countP (fun p => siteKind p.2.2 = .indirect ∧
        cleanNode D p.1 p.2.2 ∧ indirectTargets D p.1 p.2.1 ≠ [])
  | [], st, _, _ => by simp
  | p :: l, st, hnd, hout => by
      rw [List.map_cons, List.nodup_cons] at hnd
      obtain ⟨hmap, hc⟩ := Prod.ext_iff.mp (hout p (List.mem_cons_self _ _))
      have hmap : st.indMap p.2.1 = [] := hmap
      have hnot : p.2.1 ∉ st.completeSites := by simpa [outcome, isComplete] using hc
      obtain ⟨-, -, -, hci, hce, hcs⟩ := @visitCallSite_counters D p.1 st p.2.1 p.2.2
      have hlen : (visitCallSite D p.1 st p.2.1 p.2.2).completeSites.length =
          st.completeSites.length + (if siteKind p.2.2 = .direct then 1 else 0) +
            (if siteKind p.2.2 = .indirect ∧ cleanNode D p.1 p.2.2 ∧
              indirectTargets D p.1 p.2.1 ≠ [] then 1 else 0) := by
        rw [hcs, hmap, List.nil_append]
        by_cases hd : siteKind p.2.2 = .direct
        · simp [hd, hnot]
        · simp only [hd, false_or, if_false, add_zero]
          split_ifs <;> simp [hnot]
      have hout' : ∀ q ∈ l, (visitCallSite D p.1 st p.2.1 p.2.2).outcome q.2.1 = ([], false) :=
        fun q hq => by
          rw [visitCallSite_outcome_ne (fun h : q.2.1 = p.2.1 => hnd.1 (h ▸ List.mem_map_of_mem _ hq)),
            hout q (List.mem_cons_of_mem _ hq)]
      obtain ⟨ih₁, ih₂, ih₃⟩ := foldl_visit_complete l _ hnd.2 hout'
      simp only [List.foldl_cons, ih₁, ih₂, ih₃, hci, hce, hlen, hmap, List.nil_append,
        List.countP_cons, decide_eq_true_eq]
      omega

end Run

/-- `AllSites` lists every call and invoke site of the module's defined
functions in the order they are visited, the skipped ones included; `DirCall`
counts the direct sites and `IndCall` the indirect ones. -/
theorem findIndTargets_counts (M : Module) :
    (findIndTargets D M).allSites = (callSites M).map (·.2.1) ∧
      (findIndTargets D M).dirCall = (callSites M).countP (fun p => siteKind p.2.2 = .direct) ∧
      (findIndTargets D M).indCall = (callSites M).countP (fun p => siteKind p.2.2 = .indirect) := by
  rw [findIndTargets_eq_foldl]
  obtain ⟨h₁, h₂, h₃⟩ := @foldl_visit_counters D (callSites M) {}
  exact ⟨by simpa using h₁, by simpa using h₂, by simpa using h₃⟩

/-- With distinct call sites, `CompleteInd` counts the indirect sites whose
called node is neither incomplete nor external and whose candidate list is not
empty, `CompleteEmpty` those whose candidate list is empty, and
`CompleteSites` holds `DirCall + CompleteInd` sites. -/
theorem findIndTargets_complete_counts {M : Module} (hnd : ((callSites M).map (·.2.1)).Nodup) :
    (findIndTargets D M).completeInd = (callSites M).countP (fun p => siteKind p.2.2 = .indirect ∧
        cleanNode D p.1 p.2.2 ∧ indirectTargets D p.1 p.2.1 ≠ []) ∧
      (findIndTargets D M).completeEmpty = (callSites M).countP (fun p =>
        siteKind p.2.2 = .indirect ∧ cleanNode D p.1 p.2.2 ∧ indirectTargets D p.1 p.2.1 = []) ∧
      (findIndTargets D M).completeSites.length =
        (findIndTargets D M).dirCall + (findIndTargets D M).completeInd := by
  have hd := (findIndTargets_counts D M).2.1
  rw [findIndTargets_eq_foldl] at hd ⊢
  obtain ⟨h₁, h₂, h₃⟩ := @foldl_visit_complete D (callSites M) {} hnd (fun _ _ => rfl)
  refine ⟨by simpa using h₁, by simpa using h₂, ?_⟩
  rw [h₃, hd, h₁]
  simp

/-- With distinct call sites, the finder's result does not depend on the order
of the module's functions: every site gets the same candidate list and the same
completeness, the four statistics agree, and `AllSites` lists the same sites. -/
theorem findIndTargets_perm {M M' : Module} (hperm : M.functions.Perm M'.functions)
    (hnd : ((callSites M).map (·.2.1)).Nodup) :
    (∀ site, (findIndTargets D M).outcome site = (findIndTargets D M').outcome site) ∧
      (findIndTargets D M).allSites.Perm (findIndTargets D M').allSites ∧
      (findIndTargets D M).dirCall = (findIndTargets D M').dirCall ∧
      (findIndTargets D M).indCall = (findIndTargets D M').indCall ∧
      (findIndTargets D M).completeInd = (findIndTargets D M').completeInd ∧
      (findIndTargets D M).completeEmpty = (findIndTargets D M').completeEmpty := by
  have hcs : (callSites M).Perm (callSites M') := hperm.flatMap_right siteList
  have hnd' := (hcs.map (·.2.1)).nodup_iff.mp hnd
  obtain ⟨ha, hd, hi⟩ := findIndTargets_counts D M
  obtain ⟨ha', hd', hi'⟩ := findIndTargets_counts D M'
  obtain ⟨hci, hce, -⟩ := findIndTargets_complete_counts D hnd
  obtain ⟨hci', hce', -⟩ := findIndTargets_complete_counts D hnd'
  refine ⟨fun site => ?_, ha ▸ ha' ▸ hcs.map _, by rw [hd, hd', hcs.countP_eq],
    by rw [hi, hi', hcs.countP_eq], by rw [hci, hci', hcs.countP_eq],
    by rw [hce, hce', hcs.countP_eq]⟩
  by_cases hs : site ∈ (callSites M).map (·.2.1)
  · obtain ⟨⟨caller, site, v⟩, hp, rfl⟩ := List.mem_map.mp hs
    rw [findIndTargets_outcome D hnd hp, findIndTargets_outcome D hnd' (hcs.subset hp)]
  · rw [findIndTargets_eq_foldl, findIndTargets_eq_foldl, foldl_visit_outcome_of_not_mem _ _ hs,
      foldl_visit_outcome_of_not_mem _ _ (fun h => hs ((hcs.map _).symm.subset h))]

/-- `main` (1) calls `@f` directly at site 7, a null pointer through a cast at
site 8 and `undef` at site 9; `f` (2) calls through a local pointer (value 3)
at site 10. -/
def statsModule : Module :=
  ⟨[⟨1, false, false, [], [[.call 7 (.function 2), .call 8 (.bitcast .nullPtr), .call 9 .undef]]⟩,
    ⟨2, false, true, [], [[.call 10 (.value 3)]]⟩], [], fun _ _ => true⟩

/-- `statsModule` with its two functions in the other order. -/
def statsModuleSwapped : Module := ⟨statsModule.functions.reverse, [], fun _ _ => true⟩

/-- A DSA result in which site 10 may call `f`, each function is alone in its
SCC and in the globals graph, and every node is complete and internal. -/
def statsResult : DSAResult := ⟨fun _ => [2], fun F => [F], id, fun _ => true, fun _ _ => {}⟩

theorem findIndTargets_complete_counts_statsModule :
    ((callSites statsModule).map (·.2.1)).Nodup ∧
      (findIndTargets statsResult statsModule).completeInd =
        (callSites statsModule).countP (fun p => siteKind p.2.2 = .indirect ∧
          cleanNode statsResult p.1 p.2.2 ∧ indirectTargets statsResult p.1 p.2.1 ≠ []) ∧
      (findIndTargets statsResult statsModule).completeEmpty =
        (callSites statsModule).countP (fun p => siteKind p.2.2 = .indirect ∧
          cleanNode statsResult p.1 p.2.2 ∧ indirectTargets statsResult p.1 p.2.1 = []) ∧
      (findIndTargets statsResult statsModule).completeSites.length =
        (findIndTargets statsResult statsModule).dirCall +
          (findIndTargets statsResult statsModule).completeInd :=
  ⟨by decide, findIndTargets_complete_counts statsResult (by decide)⟩

theorem findIndTargets_perm_statsModule :
    statsModule.functions.Perm statsModuleSwapped.functions ∧
      ((callSites statsModule).map (·.2.1)).Nodup ∧
      (∀ site, (findIndTargets statsResult statsModule).outcome site =
        (findIndTargets statsResult statsModuleSwapped).outcome site) ∧
      (findIndTargets statsResult statsModule).allSites.Perm
        (findIndTargets statsResult statsModuleSwapped).allSites ∧
      (findIndTargets statsResult statsModule).dirCall =
        (findIndTargets statsResult statsModuleSwapped).dirCall ∧
      (findIndTargets statsResult statsModule).indCall =
        (findIndTargets statsResult statsModuleSwapped).indCall ∧
      (findIndTargets statsResult statsModule).completeInd =
        (findIndTargets statsResult statsModuleSwapped).completeInd ∧
      (findIndTargets statsResult statsModule).completeEmpty =
        (findIndTargets statsResult statsModuleSwapped).completeEmpty :=
  ⟨(List.reverse_perm _).symm, by decide,
    findIndTargets_perm statsResult (List.reverse_perm _).symm (by decide)⟩

end CallTargets

end DSA
