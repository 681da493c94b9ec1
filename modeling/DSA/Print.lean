/-
The call-target report (`CallTargetFinder::print`).  `IndMap` is a `std::map`
keyed by call site, whose `operator[]` inserts an empty entry the first time a
key is used; the report walks the map in site order and prints its indirect
sites.  `findIndTargets` uses `IndMap[cs]` at each `push_back` and at the
`size()` tests of its completeness checks, which `&&` reaches only for a
called node that is neither incomplete nor external.  So an indirect site is
reported when it has a candidate or a clean node: one with no candidate and an
incomplete or external node has no entry, and the report leaves it out.
-/
import DSA.Statistics

namespace DSA

namespace CallTargets

open Finder

variable (D : DSAResult)

/-- The keys of `IndMap`, in map order, after the visit of `site`. -/
def visitKeys (caller : Nat) (keys : List Nat) (site : Nat) (v : CalledValue) : List Nat :=
  if v = .undef then keys
  else if v = .inlineAsm then keys
  else
    match v.getCalledFunction <|> v.stripPointerCasts.getCalledFunction with
    | some _ => insertSorted site keys
    | none =>
      if v.stripPointerCasts = .nullPtr then keys
      else
        let keys := if indirectTargets D caller site = [] then keys else insertSorted site keys
        let N := D.calledNode caller v
        if !N.isIncompleteNode && !N.isExternalNode then insertSorted site keys else keys

/-- The keys of `IndMap` after `findIndTargets`, whose visits run in the order
of `callSites` (`findIndTargets_eq_foldl`). -/
def indMapKeys (M : Module) : List Nat :=
  (callSites M).foldl (fun keys p => visitKeys D p.1 keys p.2.1 p.2.2) []

/-- A line of the report: the site, its caller, whether the line starts with
the incomplete mark `* `, and the functions of the site's `IndMap` entry. -/
structure Line where
  site : Nat
  caller : Nat
  incomplete : Bool
  targets : List Nat
deriving DecidableEq, Repr

/-- The call site `site` of the module, with its caller and called value. -/
def callSite? (M : Module) (site : Nat) : Option (Nat × Nat × CalledValue) :=
  (callSites M).find? (·.2.1 == site)

/-- The loop body of `print` at the entry of `cs`: only indirect sites are
printed. -/
def printLine (M : Module) (st : Finder) (cs : Nat) : Option Line :=
  match callSite? M cs with
  | some (caller, _, v) =>
    if v.getCalledFunction.isSome then none
    else if v.stripPointerCasts.getCalledFunction.isSome then none
    else some ⟨cs, caller, !st.isComplete cs, st.indMap cs⟩
  | none => none

/-- `CallTargetFinder::print` over the keys of `IndMap`, in map order. -/
def print (M : Module) (st : Finder) (keys : List Nat) : List Line :=
  keys.filterMap (printLine M st)

/-- Visiting `site` creates its `IndMap` entry: it calls a function, or it is
indirect with a candidate or a clean node. -/
def CreatesEntry (caller site : Nat) (v : CalledValue) : Prop :=
  (siteKind v = .direct ∧ v.stripPointerCasts ≠ .nullPtr) ∨
    (siteKind v = .indirect ∧ (indirectTargets D caller site ≠ [] ∨ cleanNode D caller v = true))

theorem siteKind_eq_indirect {v : CalledValue} : siteKind v = .indirect ↔
    v ≠ .undef ∧ v ≠ .inlineAsm ∧ v.stripPointerCasts.getCalledFunction = none ∧
      v.stripPointerCasts ≠ .nullPtr := by
  unfold siteKind
  split_ifs with h₁ h₂ <;> simp_all [Option.isSome_iff_ne_none] <;> tauto

section Keys

variable {D} {caller site : Nat} {keys : List Nat} {v : CalledValue}

theorem mem_visitKeys {k : Nat} :
    k ∈ visitKeys D caller keys site v ↔ k ∈ keys ∨ (k = site ∧ CreatesEntry D caller site v) := by
  by_cases hu : v = .undef ∨ v = .inlineAsm
  · rcases hu with rfl | rfl <;> simp [visitKeys, CreatesEntry, siteKind]
  · obtain ⟨hu, ha⟩ := not_or.mp hu
    simp only [visitKeys, getCalledFunction_orElse, hu, ha, if_false, CreatesEntry]
    cases hf : v.stripPointerCasts.getCalledFunction with
    | some CF =>
      have hn : v.stripPointerCasts ≠ .nullPtr := fun h => by rw [h] at hf; cases hf
      simp [siteKind, hu, ha, hf, hn, or_comm]
    | none =>
      by_cases hn : v.stripPointerCasts = .nullPtr
      · simp [siteKind, hu, ha, hn]
      · have hk : siteKind v = .indirect := siteKind_eq_indirect.mpr ⟨hu, ha, hf, hn⟩
        simp only [hn, if_false, hk]
        rw [← cleanNode]
        by_cases hT : indirectTargets D caller site = [] <;>
          by_cases hc : cleanNode D caller v <;> simp [hT, hc, or_comm]

theorem sorted_visitKeys (h : keys.Sorted (· < ·)) :
    (visitKeys D caller keys site v).Sorted (· < ·) := by
  have h₁ := sorted_insertSorted site h
  unfold visitKeys
  dsimp only
  repeat' split
  all_goals first | exact h | exact h₁ | exact sorted_insertSorted site h₁

theorem foldl_visitKeys : ∀ (l : List (Nat × Nat × CalledValue)) (keys : List Nat),
    keys.Sorted (· < ·) →
    let r := l.foldl (fun keys p => visitKeys D p.1 keys p.2.1 p.2.2) keys
    r.Sorted (· < ·) ∧ ∀ k, k ∈ r ↔ k ∈ keys ∨ ∃ p ∈ l, p.2.1 = k ∧ CreatesEntry D p.1 p.2.1 p.2.2
  | [], keys, h => ⟨h, by simp⟩
  | p :: l, keys, h => by
      obtain ⟨hs, hm⟩ := foldl_visitKeys l (visitKeys D p.1 keys p.2.1 p.2.2) (sorted_visitKeys h)
      refine ⟨hs, fun k => ?_⟩
      rw [List.foldl_cons, hm, mem_visitKeys]
      constructor
      · rintro ((hk | ⟨rfl, hc⟩) | ⟨q, hq, hqk, hc⟩)
        · exact .inl hk
        · exact .inr ⟨p, List.mem_cons_self _ _, rfl, hc⟩
        · exact .inr ⟨q, List.mem_cons_of_mem _ hq, hqk, hc⟩
      · rintro (hk | ⟨q, hq, hqk, hc⟩)
        · exact .inl (.inl hk)
        · rcases List.mem_cons.mp hq with rfl | hq
          · exact .inl (.inr ⟨hqk.symm, hc⟩)
          · exact .inr ⟨q, hq, hqk, hc⟩

end Keys

theorem indMapKeys_spec (M : Module) :
    (indMapKeys D M).Sorted (· < ·) ∧
      ∀ k, k ∈ indMapKeys D M ↔ ∃ p ∈ callSites M, p.2.1 = k ∧ CreatesEntry D p.1 p.2.1 p.2.2 := by
  obtain ⟨hs, hm⟩ := @foldl_visitKeys D (callSites M) [] List.sorted_nil
  exact ⟨hs, fun k => (hm k).trans (or_iff_right (List.not_mem_nil k))⟩

section Report

variable {D} {M : Module}

theorem getCalledFunction_isSome_strip {v : CalledValue} (h : v.getCalledFunction.isSome) :
    v.stripPointerCasts.getCalledFunction.isSome := by
  cases v <;> simp_all [CalledValue.getCalledFunction, CalledValue.stripPointerCasts]

theorem callSite?_of_mem (hnd : ((callSites M).map (·.2.1)).Nodup) {p : Nat × Nat × CalledValue}
    (hp : p ∈ callSites M) : callSite? M p.2.1 = some p := by
  obtain ⟨q, hq⟩ := Option.isSome_iff_exists.mp
    (List.find?_isSome.mpr ⟨p, hp, by simp⟩ : ((callSites M).find? (·.2.1 == p.2.1)).isSome)
  have hqp : q.2.1 = p.2.1 := by simpa using List.find?_some hq
  rw [callSite?, hq, List.inj_on_of_nodup_map hnd (List.mem_of_find?_eq_some hq) hp hqp]

theorem printLine_site {st : Finder} {cs : Nat} {l : Line} (h : printLine M st cs = some l) :
    l.site = cs := by
  unfold printLine at h
  split at h
  · split_ifs at h
    cases h
    rfl
  · cases h

theorem printLine_of_mem (hnd : ((callSites M).map (·.2.1)).Nodup) (st : Finder)
    {caller site : Nat} {v : CalledValue} (hcs : (caller, site, v) ∈ callSites M) :
    printLine M st site = if v.stripPointerCasts.getCalledFunction.isSome then none
      else some ⟨site, caller, !st.isComplete site, st.indMap site⟩ := by
  simp only [printLine, callSite?_of_mem hnd hcs]
  by_cases hf : v.getCalledFunction.isSome
  · rw [if_pos hf, if_pos (getCalledFunction_isSome_strip hf)]
  · rw [if_neg hf]

theorem outcome_of_indirect (hnd : ((callSites M).map (·.2.1)).Nodup) {caller site : Nat}
    {v : CalledValue} (hcs : (caller, site, v) ∈ callSites M) (hk : siteKind v = .indirect) :
    (findIndTargets D M).outcome site = (indirectTargets D caller site,
      cleanNode D caller v && (indirectTargets D caller site).length != 0) := by
  obtain ⟨hu, ha, hf, hn⟩ := siteKind_eq_indirect.mp hk
  rw [findIndTargets_outcome D hnd hcs, visitCallSite_empty_outcome]
  simp [hu, ha, hf, hn, cleanNode]

/-- A site has an `IndMap` entry and a report line exactly when it is
indirect with a candidate or a clean node. -/
theorem entry_and_line_iff (hnd : ((callSites M).map (·.2.1)).Nodup) (st : Finder)
    {caller site : Nat} {v : CalledValue} (hcs : (caller, site, v) ∈ callSites M) :
    (site ∈ indMapKeys D M ∧ (printLine M st site).isSome) ↔
      siteKind v = .indirect ∧ (indirectTargets D caller site ≠ [] ∨ cleanNode D caller v = true) := by
  have hkey : site ∈ indMapKeys D M ↔ CreatesEntry D caller site v := by
    rw [(indMapKeys_spec D M).2]
    constructor
    · rintro ⟨p, hp, hps, hc⟩
      rwa [List.inj_on_of_nodup_map hnd hp hcs hps] at hc
    · exact fun hc => ⟨_, hcs, rfl, hc⟩
  rw [hkey, printLine_of_mem hnd st hcs, CreatesEntry]
  by_cases hf : v.stripPointerCasts.getCalledFunction.isSome
  · have hk : siteKind v ≠ .indirect := fun hk => by
      simp [(siteKind_eq_indirect.mp hk).2.2.1] at hf
    simp [hf, hk]
  · have hd : ¬(siteKind v = .direct ∧ v.stripPointerCasts ≠ .nullPtr) := fun ⟨hd, hn⟩ => by
      unfold siteKind at hd
      split_ifs at hd
      simp_all
    simp [hf, hd]

end Report

/-- The line a call site should get in the report, read off the site alone:
an indirect site with a candidate or a clean node gets its candidates, marked
incomplete unless it has both. -/
def reportLine (p : Nat × Nat × CalledValue) : Option Line :=
  if siteKind p.2.2 = .indirect ∧
      (indirectTargets D p.1 p.2.1 ≠ [] ∨ cleanNode D p.1 p.2.2 = true) then
    some ⟨p.2.1, p.1, !(cleanNode D p.1 p.2.2 && (indirectTargets D p.1 p.2.1).length != 0),
      indirectTargets D p.1 p.2.1⟩
  else none

section Counts

variable {D} {M : Module}

theorem reportLine_site {p : Nat × Nat × CalledValue} {l : Line} (h : reportLine D p = some l) :
    l.site = p.2.1 := by
  unfold reportLine at h
  split_ifs at h
  cases h
  rfl

/-- What a site's line says: whether it is present, unmarked, or without
candidates depends only on whether the site is indirect, its node clean and its
candidate list empty. -/
theorem reportLine_spec (p : Nat × Nat × CalledValue) :
    ((reportLine D p).map fun l => !l.incomplete).getD false = decide (siteKind p.2.2 = .indirect ∧
      cleanNode D p.1 p.2.2 = true ∧ indirectTargets D p.1 p.2.1 ≠ []) ∧
    ((reportLine D p).map fun l => l.targets.isEmpty).getD false = decide (siteKind p.2.2 = .indirect ∧
      cleanNode D p.1 p.2.2 = true ∧ indirectTargets D p.1 p.2.1 = []) ∧
    (reportLine D p).isSome = decide (siteKind p.2.2 = .indirect ∧
      (indirectTargets D p.1 p.2.1 ≠ [] ∨ cleanNode D p.1 p.2.2 = true)) := by
  unfold reportLine
  by_cases hk : siteKind p.2.2 = .indirect <;> by_cases hT : indirectTargets D p.1 p.2.1 = [] <;>
    cases hc : cleanNode D p.1 p.2.2 <;> simp [hk, hT, hc]

theorem map_site_filterMap_reportLine : ∀ l : List (Nat × Nat × CalledValue),
    (l.filterMap (reportLine D)).map (·.site) =
      (l.filter fun p => (reportLine D p).isSome).map (·.2.1)
  | [] => rfl
  | p :: l => by
      have ih := map_site_filterMap_reportLine l
      cases h : reportLine D p with
      | none => simp [List.filterMap_cons, List.filter_cons, h, ih]
      | some x => simp [List.filterMap_cons, List.filter_cons, h, ih, reportLine_site h]

theorem printLine_of_indirect (hnd : ((callSites M).map (·.2.1)).Nodup) {caller site : Nat}
    {v : CalledValue} (hcs : (caller, site, v) ∈ callSites M) (hk : siteKind v = .indirect) :
    printLine M (findIndTargets D M) site = some ⟨site, caller,
      !(cleanNode D caller v && (indirectTargets D caller site).length != 0),
      indirectTargets D caller site⟩ := by
  obtain ⟨hmap, hc⟩ := Prod.ext_iff.mp (outcome_of_indirect hnd hcs hk)
  rw [printLine_of_mem hnd _ hcs, if_neg (by simp [(siteKind_eq_indirect.mp hk).2.2.1]),
    show (findIndTargets D M).isComplete site = _ from hc,
    show (findIndTargets D M).indMap site = _ from hmap]

theorem mem_print_iff (hnd : ((callSites M).map (·.2.1)).Nodup) (l : Line) :
    l ∈ print M (findIndTargets D M) (indMapKeys D M) ↔ ∃ p ∈ callSites M, reportLine D p = some l := by
  constructor
  · intro hl
    obtain ⟨k, hk, hl⟩ := List.mem_filterMap.mp hl
    obtain ⟨⟨caller, site, v⟩, hp, rfl, -⟩ := ((indMapKeys_spec D M).2 k).mp hk
    have hind := (entry_and_line_iff hnd (findIndTargets D M) hp).mp ⟨hk, by rw [hl]; rfl⟩
    rw [printLine_of_indirect hnd hp hind.1] at hl
    refine ⟨_, hp, ?_⟩
    simp only [reportLine]
    rw [if_pos hind, hl]
  · rintro ⟨⟨caller, site, v⟩, hp, hl⟩
    unfold reportLine at hl
    split_ifs at hl with hind
    cases hl
    exact List.mem_filterMap.mpr ⟨site, ((entry_and_line_iff hnd (findIndTargets D M) hp).mpr hind).1,
      printLine_of_indirect hnd hp hind.1⟩

theorem print_perm (hnd : ((callSites M).map (·.2.1)).Nodup) :
    (print M (findIndTargets D M) (indMapKeys D M)).Perm ((callSites M).filterMap (reportLine D)) := by
  refine (List.perm_ext_iff_of_nodup ?_ ?_).mpr fun l =>
    (mem_print_iff hnd l).trans List.mem_filterMap.symm
  · exact (indMapKeys_spec D M).1.nodup.filterMap fun a a' b ha ha' =>
      (printLine_site ha).symm.trans (printLine_site ha')
  · refine List.Nodup.of_map (·.site) ?_
    rw [map_site_filterMap_reportLine]
    exact ((List.filter_sublist _).map _).nodup hnd

end Counts

/-- The report lists each site once, in increasing site order; with distinct
call sites it holds exactly the indirect sites with a candidate or a clean
called node, each with its candidates, marked `* ` unless it has both. -/
theorem print_findIndTargets {M : Module} (hnd : ((callSites M).map (·.2.1)).Nodup) :
    let lines := print M (findIndTargets D M) (indMapKeys D M)
    (lines.map (·.site)).Sorted (· < ·) ∧
    (∀ l ∈ lines, ∃ v, (l.caller, l.site, v) ∈ callSites M) ∧
    ∀ caller site v, (caller, site, v) ∈ callSites M →
      (site ∈ lines.map (·.site) ↔ siteKind v = .indirect ∧
        (indirectTargets D caller site ≠ [] ∨ cleanNode D caller v = true)) ∧
      ∀ l ∈ lines, l.site = site → l.caller = caller ∧ l.targets = indirectTargets D caller site ∧
        (l.incomplete = true ↔ cleanNode D caller v = false ∨ indirectTargets D caller site = []) := by
  intro lines
  have hmem := @mem_print_iff D M hnd
  have hsame : ∀ {caller site v l}, (caller, site, v) ∈ callSites M → l ∈ lines → l.site = site →
      reportLine D (caller, site, v) = some l := fun hcs hl hls => by
    obtain ⟨p, hp, hpl⟩ := (hmem _).mp hl
    rwa [List.inj_on_of_nodup_map hnd hp hcs ((reportLine_site hpl).symm.trans hls)] at hpl
  refine ⟨List.pairwise_map.mpr ((indMapKeys_spec D M).1.filterMap _ fun a a' h b hb b' hb' => ?_),
    fun l hl => ?_, fun caller site v hcs => ⟨⟨fun hsite => ?_, fun hc => ?_⟩, fun l hl hls => ?_⟩⟩
  · rwa [printLine_site hb, printLine_site hb']
  · obtain ⟨⟨caller, site, v⟩, hp, hpl⟩ := (hmem l).mp hl
    unfold reportLine at hpl
    split_ifs at hpl
    cases hpl
    exact ⟨v, hp⟩
  · obtain ⟨l, hl, hls⟩ := List.mem_map.mp hsite
    have hl' := hsame hcs hl hls
    unfold reportLine at hl'
    split_ifs at hl' with hc
    exact hc
  · exact List.mem_map.mpr ⟨_, (hmem _).mpr ⟨_, hcs, by simp only [reportLine]; rw [if_pos hc]⟩, rfl⟩
  · have hl' := hsame hcs hl hls
    unfold reportLine at hl'
    split_ifs at hl'
    cases hl'
    refine ⟨rfl, rfl, ?_⟩
    cases cleanNode D caller v <;> simp

/-- A DSA result with no callees, each function alone in its SCC and absent
from the globals graph, and incomplete nodes. -/
def incompleteResult : DSAResult :=
  ⟨fun _ => [], fun F => [F], id, fun _ => false, fun _ _ => { nodeType := 1 }⟩

theorem print_findIndTargets_undefModule :
    ((callSites undefModule).map (·.2.1)).Nodup ∧
    let lines := print undefModule (findIndTargets incompleteResult undefModule)
      (indMapKeys incompleteResult undefModule)
    (lines.map (·.site)).Sorted (· < ·) ∧
    (∀ l ∈ lines, ∃ v, (l.caller, l.site, v) ∈ callSites undefModule) ∧
    ∀ caller site v, (caller, site, v) ∈ callSites undefModule →
      (site ∈ lines.map (·.site) ↔ siteKind v = .indirect ∧
        (indirectTargets incompleteResult caller site ≠ [] ∨
          cleanNode incompleteResult caller v = true)) ∧
      ∀ l ∈ lines, l.site = site → l.caller = caller ∧
        l.targets = indirectTargets incompleteResult caller site ∧
        (l.incomplete = true ↔ cleanNode incompleteResult caller v = false ∨
          indirectTargets incompleteResult caller site = []) :=
  ⟨by decide, print_findIndTargets incompleteResult (by decide)⟩

/-- Site 8 of `undefModule` calls through a pointer with no candidate: with a
clean node it is reported as incomplete, with an incomplete node not at all. -/
example : print undefModule (findIndTargets emptyResult undefModule)
    (indMapKeys emptyResult undefModule) = [⟨8, 1, true, []⟩] := by
  decide

example : print undefModule (findIndTargets incompleteResult undefModule)
    (indMapKeys incompleteResult undefModule) = [] := by
  decide

/-- The report agrees with the statistics: with distinct call sites, its
unmarked lines are the `CompleteInd` sites, its lines without candidates the
`CompleteEmpty` sites, and the `IndCall` sites it leaves out have no candidate
and an unclean node. -/
theorem print_counts {M : Module} (hnd : ((callSites M).map (·.2.1)).Nodup) :
    let lines := print M (findIndTargets D M) (indMapKeys D M)
    lines.countP (fun l => !l.incomplete) = (findIndTargets D M).completeInd ∧
    lines.countP (fun l => l.targets.isEmpty) = (findIndTargets D M).completeEmpty ∧
    lines.length + (callSites M).countP (fun p => siteKind p.2.2 = .indirect ∧
        indirectTargets D p.1 p.2.1 = [] ∧ cleanNode D p.1 p.2.2 = false) =
      (findIndTargets D M).indCall := by
  intro lines
  have hperm : lines.Perm ((callSites M).filterMap (reportLine D)) := print_perm hnd
  obtain ⟨hci, hce, -⟩ := @foldl_visit_complete D (callSites M) {} hnd (fun _ _ => rfl)
  obtain ⟨-, -, hic⟩ := @foldl_visit_counters D (callSites M) {}
  rw [← findIndTargets_eq_foldl] at hci hce hic
  have hsplit := List.length_eq_countP_add_countP (fun p => (reportLine D p).isSome)
    ((callSites M).filter fun p => siteKind p.2.2 = .indirect)
  rw [← List.countP_eq_length_filter, List.countP_filter, List.countP_filter] at hsplit
  refine ⟨?_, ?_, ?_⟩
  · rw [hperm.countP_eq, List.countP_filterMap, hci, Nat.zero_add]
    exact List.countP_congr fun p _ => by rw [(reportLine_spec p).1]
  · rw [hperm.countP_eq, List.countP_filterMap, hce, Nat.zero_add]
    exact List.countP_congr fun p _ => by rw [(reportLine_spec p).2.1]
  · rw [hperm.length_eq, List.length_filterMap_eq_countP, hic, Nat.zero_add, hsplit]
    congr 1 <;> refine List.countP_congr fun p _ => ?_ <;>
      by_cases hk : siteKind p.2.2 = .indirect <;> simp [(reportLine_spec p).2.2, hk]

/-- `f` (1) calls through three local pointers: at site 11 one that may hold
`g` (2), at site 12 one with no candidate, and at site 13 one with no
candidate whose node is incomplete. -/
def reportModule : Module :=
  ⟨[⟨1, false, false, [], [[.call 11 (.value 3), .call 12 (.value 4), .call 13 (.value 5)]]⟩,
    ⟨2, false, true, [], [[]]⟩], [], fun _ _ => true⟩

/-- A DSA result in which only site 11 has a callee, `g`; only `g` is in the
globals graph, and only the node of value 5 is incomplete. -/
def reportResult : DSAResult :=
  ⟨fun s => if s = 11 then [2] else [], fun F => [F], id, fun f => f == 2,
    fun _ v => if v = .value 5 then { nodeType := 1 } else {}⟩

theorem print_counts_reportModule :
    ((callSites reportModule).map (·.2.1)).Nodup ∧
    let lines := print reportModule (findIndTargets reportResult reportModule)
      (indMapKeys reportResult reportModule)
    lines.countP (fun l => !l.incomplete) = (findIndTargets reportResult reportModule).completeInd ∧
    lines.countP (fun l => l.targets.isEmpty) =
      (findIndTargets reportResult reportModule).completeEmpty ∧
    lines.length + (callSites reportModule).countP (fun p => siteKind p.2.2 = .indirect ∧
        indirectTargets reportResult p.1 p.2.1 = [] ∧ cleanNode reportResult p.1 p.2.2 = false) =
      (findIndTargets reportResult reportModule).indCall :=
  ⟨by decide, print_counts reportResult (by decide)⟩

/-- Site 11 is reported complete, site 12 incomplete with no candidate, and
site 13 not at all. -/
example : print reportModule (findIndTargets reportResult reportModule)
      (indMapKeys reportResult reportModule) = [⟨11, 1, false, [2]⟩, ⟨12, 1, true, []⟩] ∧
    (findIndTargets reportResult reportModule).indCall = 3 := by
  decide

end CallTargets

end DSA
