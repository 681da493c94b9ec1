/-
The SCCs the call-target finder reads.  `sccMembers` computes the functions a
function reaches by as many rounds of breadth-first search as the module has
functions.  Only the module's functions have callees, so every round either
adds a function or leaves a set closed under calls; that many rounds
therefore reach everything reachable, and the computed SCC is the SCC of the
call graph.  All members of an SCC then share its member list, and the
candidates the finder gives an indirect site are closed under SCCs.
-/
import DSA.CallGraph
import Mathlib.Logic.Relation
import Mathlib.Data.Finset.Card

namespace DSA

namespace Steensgaard

open CallTargets Relation

theorem mem_addNew {x : Nat} : ∀ {S : List Nat} (fs : List Nat), x ∈ addNew S fs ↔ x ∈ S ∨ x ∈ fs
  | S, [] => by simp [addNew]
  | S, f :: fs => by
      show x ∈ addNew (if f ∈ S then S else S ++ [f]) fs ↔ _
      rw [mem_addNew fs]
      by_cases hf : f ∈ S
      · by_cases hx : x = f
        · subst hx; simp [hf]
        · simp [hf, hx]
      · simp [hf, or_assoc]

section Reach

variable (step : Nat → List Nat)

/-- A set of functions closed under calls. -/
def Closed (S : List Nat) : Prop := ∀ a ∈ S, ∀ b ∈ step a, b ∈ S

/-- One round of `reach`. -/
def expand (S : List Nat) : List Nat := addNew S (S.flatMap step)

variable {step}

theorem mem_expand {S : List Nat} {x : Nat} :
    x ∈ expand step S ↔ x ∈ S ∨ ∃ a ∈ S, x ∈ step a := by
  simp [expand, mem_addNew]

theorem Closed.congr {S T : List Nat} (hST : ∀ x, x ∈ S ↔ x ∈ T) (hS : Closed step S) :
    Closed step T := fun a ha b hb => (hST b).mp (hS a ((hST a).mpr ha) b hb)

theorem Closed.mem_of_reflTransGen {S : List Nat} (hS : Closed step S) {a b : Nat} (ha : a ∈ S)
    (h : ReflTransGen (fun a b => b ∈ step a) a b) : b ∈ S := by
  induction h with
  | refl => exact ha
  | tail _ hbc ih => exact hS _ ih _ hbc

/-- Search from a closed set finds nothing new. -/
theorem mem_reach_of_closed : ∀ (fuel : Nat) {S : List Nat}, Closed step S →
    ∀ x, x ∈ reach step fuel S ↔ x ∈ S
  | 0, _, _, _ => Iff.rfl
  | fuel + 1, S, hS, x => by
      have hsame : ∀ y, y ∈ expand step S ↔ y ∈ S := fun y => by
        rw [mem_expand]
        exact ⟨fun h => h.elim id fun ⟨a, ha, hy⟩ => hS a ha y hy, Or.inl⟩
      exact (mem_reach_of_closed fuel (hS.congr fun y => (hsame y).symm) x).trans (hsame x)

theorem reach_sound : ∀ (fuel : Nat) {S : List Nat} {x : Nat}, x ∈ reach step fuel S →
    ∃ a ∈ S, ReflTransGen (fun a b => b ∈ step a) a x
  | 0, _, x, hx => ⟨x, hx, .refl⟩
  | fuel + 1, S, x, hx => by
      obtain ⟨b, hb, hbx⟩ := reach_sound fuel hx
      rcases mem_expand.mp hb with hb | ⟨a, ha, hab⟩
      · exact ⟨b, hb, hbx⟩
      · exact ⟨a, ha, ReflTransGen.head hab hbx⟩

section Bound

variable {U : Finset Nat} (hU : ∀ a, step a ≠ [] → a ∈ U)
include hU

/-- A round that adds no element of `U` closes the set: only members of `U`
have successors. -/
theorem closed_expand {S : List Nat}
    (hcard : (U.filter (· ∈ expand step S)).card ≤ (U.filter (· ∈ S)).card) :
    Closed step (expand step S) := by
  have hsub : U.filter (· ∈ S) ⊆ U.filter (· ∈ expand step S) :=
    Finset.monotone_filter_right U fun _ h => mem_expand.mpr (.inl h)
  have heq := Finset.eq_of_subset_of_card_le hsub hcard
  intro a ha b hb
  have haS : a ∈ U.filter (· ∈ S) := heq ▸ Finset.mem_filter.mpr ⟨hU a (List.ne_nil_of_mem hb), ha⟩
  exact mem_expand.mpr (.inr ⟨a, (Finset.mem_filter.mp haS).2, hb⟩)

/-- Every round before the search closes adds an element of `U`, so it is
closed once the rounds and the elements of `U` found so far exceed `U`. -/
theorem closed_reach : ∀ (fuel : Nat) (S : List Nat), U.card < fuel + (U.filter (· ∈ S)).card →
    Closed step (reach step fuel S)
  | 0, S, h => absurd h (by simpa using Finset.card_filter_le U (· ∈ S))
  | fuel + 1, S, h => by
      show Closed step (reach step fuel (expand step S))
      by_cases hgrow : (U.filter (· ∈ S)).card < (U.filter (· ∈ expand step S)).card
      · exact closed_reach fuel _ (by omega)
      · have hS := closed_expand hU (Nat.le_of_not_lt hgrow)
        exact hS.congr fun x => (mem_reach_of_closed fuel hS x).symm

end Bound

end Reach

section Scc

variable (M : Module) (callees : Nat → List Nat)

/-- `G` reaches `H` in the call graph given by `callees`. -/
def Reaches (G H : Nat) : Prop := ReflTransGen (fun a b => b ∈ calledFunctions M callees a) G H

variable {M}

theorem mem_ids_of_calledFunctions {a : Nat} (ha : calledFunctions M callees a ≠ []) :
    a ∈ (M.functions.map (·.id)).toFinset := by
  unfold calledFunctions at ha
  split at ha
  · next F hF =>
    exact List.mem_toFinset.mpr
      (List.mem_map.mpr ⟨F, Module.mem_of_function? hF, Module.function?_id hF⟩)
  · exact absurd rfl ha

/-- `M.functions.length` rounds of search from one function close the set found:
only the module's functions have callees. -/
theorem closed_reach_functions (F : Nat) :
    Closed (calledFunctions M callees) (reach (calledFunctions M callees) M.functions.length [F]) := by
  have hU : ∀ a, calledFunctions M callees a ≠ [] → a ∈ (M.functions.map (·.id)).toFinset :=
    fun _ => mem_ids_of_calledFunctions callees
  have hcard : (M.functions.map (·.id)).toFinset.card ≤ M.functions.length :=
    (List.toFinset_card_le _).trans_eq (List.length_map _ _)
  by_cases hF : F ∈ (M.functions.map (·.id)).toFinset
  · refine closed_reach hU _ _ ?_
    have : ((M.functions.map (·.id)).toFinset.filter (· ∈ [F])).card = 1 := by
      rw [Finset.card_eq_one]
      exact ⟨F, by ext x; by_cases hx : x = F <;> simp [hx, hF]⟩
    omega
  · have hS : Closed (calledFunctions M callees) [F] := by
      intro a ha b hb
      rw [List.mem_singleton.mp ha] at hb
      exact absurd (hU F (List.ne_nil_of_mem hb)) hF
    exact hS.congr fun x => (mem_reach_of_closed _ hS x).symm

/-- The search `sccMembers` runs from `F` finds exactly what `F` reaches. -/
theorem mem_reach_iff {F G : Nat} :
    G ∈ reach (calledFunctions M callees) M.functions.length [F] ↔ Reaches M callees F G := by
  constructor
  · intro h
    obtain ⟨a, ha, haG⟩ := reach_sound _ h
    rwa [List.mem_singleton.mp ha] at haG
  · exact (closed_reach_functions callees F).mem_of_reflTransGen
      (subset_reach _ _ _ F (List.mem_singleton_self F))

/-- The computed SCC of `F` is its SCC in the call graph: the module's
functions that `F` reaches and that reach `F`. -/
theorem mem_sccMembers_iff {F G : Nat} :
    G ∈ sccMembers M callees F ↔
      G ∈ M.functions.map (·.id) ∧ Reaches M callees F G ∧ Reaches M callees G F := by
  simp only [sccMembers, List.mem_filter, decide_eq_true_eq, mem_reach_iff]

theorem sccMembers_eq_of_mem {F G : Nat} (hG : G ∈ sccMembers M callees F) :
    sccMembers M callees G = sccMembers M callees F := by
  obtain ⟨-, hFG, hGF⟩ := (mem_sccMembers_iff callees).mp hG
  refine List.filter_congr fun H _ => ?_
  simp only [decide_eq_decide, mem_reach_iff]
  exact ⟨fun ⟨h₁, h₂⟩ => ⟨hFG.trans h₁, h₂.trans hGF⟩,
    fun ⟨h₁, h₂⟩ => ⟨hGF.trans h₁, h₂.trans hFG⟩⟩

end Scc

/-- Over the Steensgaard pass's result, the candidates the finder lists for an
indirect call site are closed under the SCCs of the output call graph, among the
functions with a globals-graph scalar-map entry. -/
theorem findIndTargets_sccClosed (M : Module) (g : DSGraph) (cg : List FuncSet)
    (hnd : ((callSites M).map (·.2.1)).Nodup) {caller site : Nat} {v : CalledValue}
    (hcs : (caller, site, v) ∈ callSites M) (hundef : v ≠ .undef) (hasm : v ≠ .inlineAsm)
    (hfun : v.stripPointerCasts.getCalledFunction = none) (hnull : v.stripPointerCasts ≠ .nullPtr) :
    ∀ f ∈ (findIndTargets (steensgaardResult M g cg) M).indMap site,
      ∀ f' ∈ sccMembers M (outputCallees g cg) f, inGlobalsSM g f' = true →
        f' ∈ (findIndTargets (steensgaardResult M g cg) M).indMap site := by
  intro f hf f' hf' hglob
  rw [indMap_of_indirect _ hnd hcs hundef hasm hfun hnull] at hf ⊢
  obtain ⟨F, hF, hf⟩ := List.mem_flatMap.mp hf
  have hscc : sccMembers M (outputCallees g cg) f = sccMembers M (outputCallees g cg) F :=
    sccMembers_eq_of_mem _ (List.mem_filter.mp hf).1
  exact List.mem_flatMap.mpr ⟨F, hF, List.mem_filter.mpr ⟨(hscc ▸ hf' :), hglob⟩⟩

theorem findIndTargets_sccClosed_fp :
    ((callSites fpModule).map (·.2.1)).Nodup ∧ (1, 9, CalledValue.value 7) ∈ callSites fpModule ∧
      ∀ f ∈ (findIndTargets (steensgaardResult fpModule fpExit.1 fpExit.2) fpModule).indMap 9,
        ∀ f' ∈ sccMembers fpModule (outputCallees fpExit.1 fpExit.2) f, inGlobalsSM fpExit.1 f' = true →
          f' ∈ (findIndTargets (steensgaardResult fpModule fpExit.1 fpExit.2) fpModule).indMap 9 :=
  have hnd : ((callSites fpModule).map (·.2.1)).Nodup := by decide
  have hcs : (1, 9, CalledValue.value 7) ∈ callSites fpModule := by decide
  ⟨hnd, hcs, findIndTargets_sccClosed fpModule fpExit.1 fpExit.2 hnd hcs (by decide) (by decide) rfl
    (by decide)⟩

end Steensgaard

end DSA
