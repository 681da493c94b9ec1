/-
Callee sets (`FuncSet`, an `svset<const Function*>`): a vector of functions
kept sorted and duplicate-free.  Functions are named by ids standing for their
addresses, so the set iterates in increasing id order and two sets compare
equal exactly when they hold the same functions.
-/
import Mathlib.Data.List.Sort
import Mathlib.Data.Finset.Card

namespace DSA

/-- Insert into a strictly increasing list, keeping it so. -/
def insertSorted (f : Nat) : List Nat → List Nat
  | [] => [f]
  | g :: gs => if f < g then f :: g :: gs else if f = g then g :: gs else g :: insertSorted f gs

@[simp] theorem mem_insertSorted {f x : Nat} {l : List Nat} :
    x ∈ insertSorted f l ↔ x = f ∨ x ∈ l := by
  induction l with
  | nil => simp [insertSorted]
  | cons g gs ih =>
      unfold insertSorted
      split_ifs with hlt heq
      · simp
      · subst heq; simp
      · simp only [List.mem_cons, ih]; tauto

theorem sorted_insertSorted (f : Nat) {l : List Nat} (hl : l.Sorted (· < ·)) :
    (insertSorted f l).Sorted (· < ·) := by
  induction l with
  | nil => simp [insertSorted]
  | cons g gs ih =>
      rw [List.sorted_cons] at hl
      unfold insertSorted
      split_ifs with hlt heq
      · exact List.sorted_cons.mpr ⟨fun x hx => by
          rcases List.mem_cons.mp hx with rfl | hx
          · exact hlt
          · exact hlt.trans (hl.1 x hx), List.sorted_cons.mpr hl⟩
      · exact List.sorted_cons.mpr hl
      · refine List.sorted_cons.mpr ⟨fun x hx => ?_, ih hl.2⟩
        rcases mem_insertSorted.mp hx with rfl | hx
        · omega
        · exact hl.1 x hx

/-- `svset<const Function*>`. -/
structure FuncSet where
  toList : List Nat
  sorted : toList.Sorted (· < ·)
deriving DecidableEq

namespace FuncSet

instance : Membership Nat FuncSet := ⟨fun s f => f ∈ s.toList⟩

instance (f : Nat) (s : FuncSet) : Decidable (f ∈ s) :=
  inferInstanceAs (Decidable (f ∈ s.toList))

def empty : FuncSet := ⟨[], List.sorted_nil⟩

instance : EmptyCollection FuncSet := ⟨empty⟩

def insert (f : Nat) (s : FuncSet) : FuncSet := ⟨insertSorted f s.toList, sorted_insertSorted f s.sorted⟩

/-- The set of the functions of a list (`svset::insert` over a range). -/
def ofList (l : List Nat) : FuncSet := l.foldr insert empty

/-- Number of functions in the set. -/
def card (s : FuncSet) : Nat := s.toList.length

theorem mem_def {f : Nat} {s : FuncSet} : f ∈ s ↔ f ∈ s.toList := Iff.rfl

@[simp] theorem not_mem_empty (f : Nat) : f ∉ (∅ : FuncSet) := by
  simp [EmptyCollection.emptyCollection, empty, mem_def]

@[simp] theorem mem_insert {f x : Nat} {s : FuncSet} : x ∈ s.insert f ↔ x = f ∨ x ∈ s := by
  simp [insert, mem_def]

@[simp] theorem mem_ofList {x : Nat} {l : List Nat} : x ∈ ofList l ↔ x ∈ l := by
  induction l with
  | nil => simp [ofList, mem_def, empty]
  | cons f l ih => simp [ofList] at ih ⊢; simp [ih]

theorem nodup (s : FuncSet) : s.toList.Nodup := s.sorted.nodup

/-- Two sets are equal exactly when they hold the same functions. -/
theorem ext {s t : FuncSet} (h : ∀ f, f ∈ s ↔ f ∈ t) : s = t := by
  obtain ⟨l, hl⟩ := s
  obtain ⟨m, hm⟩ := t
  have hperm : l.Perm m := (List.perm_ext_iff_of_nodup hl.nodup hm.nodup).mpr h
  simp only [mk.injEq]
  exact List.eq_of_perm_of_sorted hperm hl hm

theorem card_eq_toFinset_card (s : FuncSet) : s.card = s.toList.toFinset.card :=
  (List.toFinset_card_of_nodup s.nodup).symm

theorem card_le_card {s t : FuncSet} (h : ∀ f ∈ s, f ∈ t) : s.card ≤ t.card := by
  rw [card_eq_toFinset_card, card_eq_toFinset_card]
  exact Finset.card_le_card (fun f hf => by simpa using h f (by simpa using hf))

/-- A set that grew into another one without becoming equal to it is strictly
smaller. -/
theorem card_lt_card {s t : FuncSet} (h : ∀ f ∈ s, f ∈ t) (hne : s ≠ t) : s.card < t.card := by
  rw [card_eq_toFinset_card, card_eq_toFinset_card]
  apply Finset.card_lt_card
  refine Finset.ssubset_iff_subset_ne.mpr ⟨fun f hf => by simpa using h f (by simpa using hf), ?_⟩
  intro heq
  apply hne
  apply ext
  intro f
  have := congrArg (f ∈ ·) heq
  simpa [mem_def] using this

end FuncSet

end DSA
