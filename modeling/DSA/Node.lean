/-
The node store of a DS graph.  A DS node stands for a class of memory objects:
it records a size, node-type bits, a type record, outgoing links by offset, the
globals whose address is classified into it, and, once merged away, a
forwarding link to the node that absorbed it.  Handles are `(node, offset)`
pairs read through that link.  The store itself (`DSNode.cpp`) is not part of
the repository; everything here follows the data model of the specification.
-/
import Mathlib.Data.List.Basic

namespace DSA

/-- Bit positions of the node-type flags, in the order the data model lists
them. -/
def IncompleteNode : Nat := 0
def ExternalNode : Nat := 1
def AllocaNode : Nat := 2
def HeapNode : Nat := 3
def GlobalNode : Nat := 4
def UnknownNode : Nat := 5
def IntToPtrNode : Nat := 6
def PtrToIntNode : Nat := 7
def FoldedNode : Nat := 8
def ModifiedNode : Nat := 9
def ReadNode : Nat := 10
def ArrayNode : Nat := 11

/-- A global value whose address may be classified into a node. -/
inductive GlobalValue where
  | function (id : Nat)
  | variable (id : Nat)
deriving DecidableEq, Repr

/-- The function, if the global is one (`isa<Function>`). -/
def GlobalValue.asFunction : GlobalValue → Option Nat
  | .function f => some f
  | .variable _ => none

/-- `DSNodeHandle`: byte `offset` of node `node`. -/
structure DSNodeHandle where
  node : Nat
  offset : Nat
deriving DecidableEq, Repr

/-- A forwarding link: the absorbing node and the shift of the merged node's
offsets inside it. -/
structure Forward where
  node : Nat
  delta : Int
deriving DecidableEq, Repr

/-- Modelled from the spec: `DSNode` (data model, node store).  Type-record
entries are `(offset, type, byte extent)`. -/
structure DSNode where
  size : Nat := 0
  nodeType : Nat := 0
  types : List (Nat × Nat × Nat) := []
  links : List (Nat × DSNodeHandle) := []
  globals : List GlobalValue := []
  forward : Option Forward := none
deriving DecidableEq, Repr

/-- A key found by `lookup` is bound in the list. -/
theorem mem_of_lookup_eq_some {β : Type} {l : List (Nat × β)} {k : Nat} {b : β}
    (h : l.lookup k = some b) : (k, b) ∈ l := by
  obtain ⟨l₁, l₂, hsplit, -⟩ := List.lookup_eq_some_iff.mp h
  rw [hsplit]
  exact List.mem_append_right _ (List.mem_cons_self _ _)

namespace DSNode

def hasFlag (N : DSNode) (bit : Nat) : Bool := N.nodeType.testBit bit

def isNodeCompletelyFolded (N : DSNode) : Bool := N.hasFlag FoldedNode

def isArrayNode (N : DSNode) : Bool := N.hasFlag ArrayNode

def isIncompleteNode (N : DSNode) : Bool := N.hasFlag IncompleteNode

def isExternalNode (N : DSNode) : Bool := N.hasFlag ExternalNode

/-- Set one node-type bit. -/
def setFlag (N : DSNode) (bit : Nat) : DSNode :=
  { N with nodeType := N.nodeType ||| 1 <<< bit }

/-- The link leaving byte `o`, if any. -/
def getLink (N : DSNode) (o : Nat) : Option DSNodeHandle := N.links.lookup o

/-- Replace the link leaving byte `o`. -/
def setLink (N : DSNode) (o : Nat) (h : DSNodeHandle) : DSNode :=
  { N with links := (o, h) :: N.links.filter (fun l => l.1 != o) }

/-- Where a read at byte `o` lands: always `0` in a folded node, wrapped in an
array node, and clamped into `[0, size)` otherwise. -/
def clampOffset (N : DSNode) (o : Nat) : Nat :=
  if N.isNodeCompletelyFolded then 0
  else if N.isArrayNode && 0 < N.size then o % N.size
  else min o (N.size - 1)

@[simp] theorem setFlag_hasFlag (N : DSNode) (bit b : Nat) :
    (N.setFlag bit).hasFlag b = (N.hasFlag b || decide (bit = b)) := by
  simp only [hasFlag, setFlag, Nat.testBit_or, Nat.one_shiftLeft, Nat.testBit_two_pow]

@[simp] theorem setFlag_forward (N : DSNode) (bit : Nat) :
    (N.setFlag bit).forward = N.forward := rfl

@[simp] theorem setFlag_globals (N : DSNode) (bit : Nat) :
    (N.setFlag bit).globals = N.globals := rfl

@[simp] theorem setFlag_links (N : DSNode) (bit : Nat) :
    (N.setFlag bit).links = N.links := rfl

@[simp] theorem setLink_forward (N : DSNode) (o : Nat) (h : DSNodeHandle) :
    (N.setLink o h).forward = N.forward := rfl

@[simp] theorem setLink_globals (N : DSNode) (o : Nat) (h : DSNodeHandle) :
    (N.setLink o h).globals = N.globals := rfl

@[simp] theorem setLink_nodeType (N : DSNode) (o : Nat) (h : DSNodeHandle) :
    (N.setLink o h).nodeType = N.nodeType := rfl

theorem mem_setLink_links {N : DSNode} {o : Nat} {h : DSNodeHandle}
    {l : Nat × DSNodeHandle} (hl : l ∈ (N.setLink o h).links) :
    l = (o, h) ∨ l ∈ N.links := by
  simp only [setLink, List.mem_cons, List.mem_filter] at hl
  exact hl.imp_right And.left

theorem mem_links_of_getLink {N : DSNode} {o : Nat} {h : DSNodeHandle}
    (hl : N.getLink o = some h) : (o, h) ∈ N.links :=
  mem_of_lookup_eq_some hl

end DSNode

/-- The arena of nodes of one graph; node ids index `nodes`. -/
structure NodeStore where
  nodes : List DSNode
deriving DecidableEq, Repr

namespace NodeStore

/-- The record of node `n` (an empty node past the end of the arena). -/
def node (st : NodeStore) (n : Nat) : DSNode := st.nodes.getD n {}

def length (st : NodeStore) : Nat := st.nodes.length

/-- Overwrite the record of node `n`. -/
def setNode (st : NodeStore) (n : Nat) (N : DSNode) : NodeStore :=
  ⟨st.nodes.set n N⟩

/-- Append a fresh empty node (`new DSNode`); its id is the old length. -/
def createNode (st : NodeStore) : NodeStore := ⟨st.nodes ++ [({} : DSNode)]⟩

/-- The representative of node `n`: forwarding links always name a live node. -/
def rep (st : NodeStore) (n : Nat) : Nat :=
  match (st.node n).forward with
  | some f => f.node
  | none => n

/-- Read a handle through the forwarding link of its node. -/
def normalize (st : NodeStore) (h : DSNodeHandle) : DSNodeHandle :=
  match (st.node h.node).forward with
  | some f => ⟨f.node, (st.node f.node).clampOffset (h.offset + f.delta).toNat⟩
  | none => ⟨h.node, (st.node h.node).clampOffset h.offset⟩

/-- The live record that node `n` reads through. -/
def repNode (st : NodeStore) (n : Nat) : DSNode := st.node (st.rep n)

@[simp] theorem length_setNode (st : NodeStore) (n : Nat) (N : DSNode) :
    (st.setNode n N).length = st.length := by
  simp [setNode, length]

theorem node_setNode (st : NodeStore) (n m : Nat) (N : DSNode) :
    (st.setNode n N).node m = if n = m ∧ n < st.length then N else st.node m := by
  simp only [node, setNode, length, List.getD_eq_getElem?_getD, List.getElem?_set]
  by_cases hnm : n = m
  · subst hnm
    by_cases hn : n < st.nodes.length
    · simp [hn]
    · simp [hn, List.getElem?_eq_none (Nat.le_of_not_lt hn)]
  · simp [hnm]

@[simp] theorem node_setNode_self (st : NodeStore) (n : Nat) (N : DSNode)
    (hn : n < st.length) : (st.setNode n N).node n = N := by
  simp [node_setNode, hn]

@[simp] theorem node_setNode_ne (st : NodeStore) {n m : Nat} (N : DSNode)
    (hnm : n ≠ m) : (st.setNode n N).node m = st.node m := by
  simp [node_setNode, hnm]

theorem node_of_length_le (st : NodeStore) {n : Nat} (hn : st.length ≤ n) :
    st.node n = {} := by
  simp [node, length, List.getD_eq_getElem?_getD, List.getElem?_eq_none hn]

/-- A fresh empty node at the end of the arena changes no record. -/
@[simp] theorem node_createNode (st : NodeStore) (n : Nat) : st.createNode.node n = st.node n := by
  simp only [node, createNode, List.getD_eq_getElem?_getD]
  rcases Nat.lt_or_ge n st.nodes.length with hn | hn
  · rw [List.getElem?_append_left hn]
  · rw [List.getElem?_append_right hn, List.getElem?_eq_none hn]
    rcases Nat.lt_or_ge (n - st.nodes.length) 1 with h1 | h1
    · simp [show n - st.nodes.length = 0 by omega]
    · rw [List.getElem?_eq_none (by simpa using h1)]

@[simp] theorem length_createNode (st : NodeStore) : st.createNode.length = st.length + 1 := by
  simp [createNode, length]

@[simp] theorem normalize_node (st : NodeStore) (h : DSNodeHandle) :
    (st.normalize h).node = st.rep h.node := by
  unfold normalize rep
  split <;> rfl

theorem rep_of_forward_none (st : NodeStore) {n : Nat}
    (hn : (st.node n).forward = none) : st.rep n = n := by
  simp [rep, hn]

/-- The invariant every store keeps: forwarding links name live nodes of the
arena, and links point into the arena. -/
structure WellFormed (st : NodeStore) : Prop where
  forward_live : ∀ n f, (st.node n).forward = some f → (st.node f.node).forward = none
  forward_lt : ∀ n f, (st.node n).forward = some f → f.node < st.length
  link_lt : ∀ n o h, (o, h) ∈ (st.node n).links → h.node < st.length

theorem node_mem_or_eq_empty (st : NodeStore) (n : Nat) : st.node n ∈ st.nodes ∨ st.node n = {} := by
  rcases Nat.lt_or_ge n st.length with hn | hn
  · left
    simp only [node, List.getD_eq_getElem?_getD, List.getElem?_eq_getElem hn, Option.getD_some]
    exact List.getElem_mem hn
  · exact Or.inr (st.node_of_length_le hn)

theorem exists_node_eq_of_mem {st : NodeStore} {N : DSNode} (hN : N ∈ st.nodes) :
    ∃ n, st.node n = N := by
  obtain ⟨i, hi, rfl⟩ := List.mem_iff_getElem.mp hN
  exact ⟨i, by simp [node, List.getD_eq_getElem?_getD, List.getElem?_eq_getElem hi]⟩

/-- `WellFormed` over the records the arena holds, which decides it. -/
theorem wellFormed_iff (st : NodeStore) : st.WellFormed ↔ ∀ N ∈ st.nodes,
    (∀ f ∈ N.forward, (st.node f.node).forward = none ∧ f.node < st.length) ∧
      ∀ l ∈ N.links, l.2.node < st.length := by
  constructor
  · intro hwf N hN
    obtain ⟨n, rfl⟩ := exists_node_eq_of_mem hN
    exact ⟨fun f hf => ⟨hwf.forward_live n f hf, hwf.forward_lt n f hf⟩,
      fun l hl => hwf.link_lt n l.1 l.2 hl⟩
  · intro h
    have hn : ∀ n, (∀ f ∈ (st.node n).forward,
        (st.node f.node).forward = none ∧ f.node < st.length) ∧
          ∀ l ∈ (st.node n).links, l.2.node < st.length := fun n =>
      (st.node_mem_or_eq_empty n).elim (h _) fun he => by rw [he]; simp
    exact ⟨fun n f hf => ((hn n).1 f hf).1, fun n f hf => ((hn n).1 f hf).2,
      fun n o l hl => (hn n).2 (o, l) hl⟩

instance (st : NodeStore) : Decidable st.WellFormed := decidable_of_iff _ st.wellFormed_iff.symm

variable {st : NodeStore}

theorem WellFormed.rep_rep (hwf : st.WellFormed) (n : Nat) :
    st.rep (st.rep n) = st.rep n := by
  unfold rep
  cases hf : (st.node n).forward with
  | none => simp [hf]
  | some f => simp [hwf.forward_live n f hf]

theorem WellFormed.repNode_forward (hwf : st.WellFormed) (n : Nat) :
    (st.repNode n).forward = none := by
  unfold repNode rep
  cases hf : (st.node n).forward with
  | none => exact hf
  | some f => exact hwf.forward_live n f hf

theorem WellFormed.rep_lt (hwf : st.WellFormed) {n : Nat} (hn : n < st.length) :
    st.rep n < st.length := by
  unfold rep
  cases hf : (st.node n).forward with
  | none => exact hn
  | some f => exact hwf.forward_lt n f hf

theorem WellFormed.normalize_forward (hwf : st.WellFormed) (h : DSNodeHandle) :
    (st.node (st.normalize h).node).forward = none := by
  rw [normalize_node]; exact hwf.repNode_forward h.node

theorem WellFormed.normalize_lt (hwf : st.WellFormed) {h : DSNodeHandle}
    (hh : h.node < st.length) : (st.normalize h).node < st.length := by
  rw [normalize_node]; exact hwf.rep_lt hh

/-- `st'` arises from `st` by joining classes: no class splits, and the globals
and node-type bits read through any node only grow. -/
structure Coarsens (st st' : NodeStore) : Prop where
  length_le : st.length ≤ st'.length
  rep_eq : ∀ n m, st.rep n = st.rep m → st'.rep n = st'.rep m
  globals_sub : ∀ n x, x ∈ (st.repNode n).globals → x ∈ (st'.repNode n).globals
  hasFlag_mono : ∀ n b, (st.repNode n).hasFlag b = true → (st'.repNode n).hasFlag b = true
  globals_src : ∀ n x, x ∈ (st'.node n).globals → ∃ m, x ∈ (st.node m).globals

theorem Coarsens.refl (st : NodeStore) : st.Coarsens st :=
  ⟨le_rfl, fun _ _ h => h, fun _ _ h => h, fun _ _ h => h, fun n _ h => ⟨n, h⟩⟩

theorem Coarsens.trans {st₁ st₂ st₃ : NodeStore} (h₁ : st₁.Coarsens st₂)
    (h₂ : st₂.Coarsens st₃) : st₁.Coarsens st₃ :=
  ⟨h₁.length_le.trans h₂.length_le, fun n m h => h₂.rep_eq n m (h₁.rep_eq n m h),
    fun n x h => h₂.globals_sub n x (h₁.globals_sub n x h),
    fun n b h => h₂.hasFlag_mono n b (h₁.hasFlag_mono n b h),
    fun n x h => by
      obtain ⟨m, hm⟩ := h₂.globals_src n x h
      exact h₁.globals_src m x hm⟩

/-- Both halves of what a store operation guarantees. -/
def Evolves (st st' : NodeStore) : Prop := st'.WellFormed ∧ st.Coarsens st'

theorem Evolves.trans {st₁ st₂ st₃ : NodeStore} (h₁ : Evolves st₁ st₂)
    (h₂ : Evolves st₂ st₃) : Evolves st₁ st₃ :=
  ⟨h₂.1, h₁.2.trans h₂.2⟩

section SetNode

variable {n : Nat} {N : DSNode} (hfwd : N.forward = (st.node n).forward)
include hfwd

theorem forward_setNode (m : Nat) :
    ((st.setNode n N).node m).forward = (st.node m).forward := by
  rw [node_setNode]
  split_ifs with h
  · rw [← h.1]; exact hfwd
  · rfl

theorem rep_setNode (m : Nat) : (st.setNode n N).rep m = st.rep m := by
  simp only [rep, forward_setNode hfwd]

theorem repNode_setNode (m : Nat) :
    (st.setNode n N).repNode m =
      if n = st.rep m ∧ n < st.length then N else st.repNode m := by
  simp only [repNode, rep_setNode hfwd, node_setNode]

/-- Rewriting a record without touching its forwarding link keeps the
invariant, and coarsens as long as globals and bits are kept. -/
theorem setNode_evolves (hwf : st.WellFormed)
    (hglob : ∀ x ∈ (st.node n).globals, x ∈ N.globals)
    (hflag : ∀ b, (st.node n).hasFlag b = true → N.hasFlag b = true)
    (hsrc : ∀ x ∈ N.globals, ∃ m, x ∈ (st.node m).globals)
    (hlink : ∀ o h, (o, h) ∈ N.links → h.node < st.length) :
    Evolves st (st.setNode n N) := by
  refine ⟨⟨?_, ?_, ?_⟩, ⟨by simp, ?_, ?_, ?_, ?_⟩⟩
  · intro m f hf
    rw [forward_setNode hfwd] at hf ⊢
    exact hwf.forward_live m f hf
  · intro m f hf
    rw [forward_setNode hfwd] at hf
    simpa using hwf.forward_lt m f hf
  · intro m o h hl
    rw [node_setNode] at hl
    split_ifs at hl
    · simpa using hlink o h hl
    · simpa using hwf.link_lt m o h hl
  · intro m k hmk
    simpa only [rep_setNode hfwd] using hmk
  · intro m x hx
    rw [repNode_setNode hfwd]
    split_ifs with h
    · exact hglob x (by rw [h.1]; exact hx)
    · exact hx
  · intro m b hb
    rw [repNode_setNode hfwd]
    split_ifs with h
    · exact hflag b (by rw [h.1]; exact hb)
    · exact hb
  · intro m x hx
    rw [node_setNode] at hx
    split_ifs at hx
    · exact hsrc x hx
    · exact ⟨m, hx⟩

end SetNode

@[simp] theorem rep_createNode (n : Nat) : st.createNode.rep n = st.rep n := by
  simp only [rep, node_createNode]

theorem createNode_evolves (hwf : st.WellFormed) : Evolves st st.createNode := by
  refine ⟨⟨?_, ?_, ?_⟩, ⟨by simp, ?_, ?_, ?_, fun n x hx => ⟨n, by simpa using hx⟩⟩⟩
  · intro n f hf; rw [node_createNode] at hf ⊢; exact hwf.forward_live n f hf
  · intro n f hf; rw [node_createNode] at hf; simpa using Nat.lt_succ_of_lt (hwf.forward_lt n f hf)
  · intro n o h hh; rw [node_createNode] at hh; simpa using Nat.lt_succ_of_lt (hwf.link_lt n o h hh)
  · intro n m hnm; simpa using hnm
  · intro n x hx; simpa [repNode] using hx
  · intro n b hb; simpa [repNode] using hb

end NodeStore

end DSA
