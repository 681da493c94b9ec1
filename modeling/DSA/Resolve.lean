/-
Resolving one call site against one callee inside the result graph.  The
Steensgaard drivers of `Steensgaard.cpp` call `mergeInGraph` with the result
graph as both caller and callee graph; the older driver of `Basic.cpp` calls
`ResolveFunctionCall`.  Both unify the return handles, the vararg handles and
the pointer formals with the pointer arguments, pairwise and in order.  Only
`mergeInGraph` also unifies the arguments or formals left over on the longer
side with the vararg handle.
-/
import DSA.Graph

namespace DSA

namespace DSGraph

/-- Unify formals with arguments pairwise; whatever is left over on the longer
side is unified with the vararg handle `va`. -/
def bindArguments (va : Option DSNodeHandle) :
    DSGraph → List DSNodeHandle → List DSNodeHandle → DSGraph
  | g, f :: fs, a :: as => bindArguments va (g.mergeWith f a) fs as
  | g, [], extras => extras.foldl (fun g h => g.mergeOpt va (some h)) g
  | g, extras, [] => extras.foldl (fun g h => g.mergeOpt va (some h)) g

/-- Modelled from the spec: `DSGraph::mergeInGraph` for a callee whose graph
is this graph (`mergeInGraph(CS, F, *this, DontCloneCallNodes)`, §4.2).  The
formals are looked up with `getNodeForValue`; the return handles, the vararg
handles and the formals with the arguments are merged in turn, and extras on
either side go to the vararg handle (the callee's, or the call's if the callee
has none). -/
def mergeInGraph (g : DSGraph) (cs : DSCallSite) (F : Function) : DSGraph :=
  let r := g.getNodesForValues (F.ptrArgs.map (·.value))
  let g := r.1.mergeOpt (r.1.getReturnNodeFor F.id) cs.retVal
  let g := g.mergeOpt (g.getVANodeFor F.id) cs.vaVal
  let va := match g.getVANodeFor F.id with
    | some h => some h
    | none => cs.vaVal
  g.bindArguments va r.2 cs.ptrArgs

/-- The argument loop of `ResolveFunctionCall`: walk the formals of `F`; a
formal bound in the scalar map `valMap` takes the next pointer argument, and
the walk stops when the pointer arguments run out. -/
def resolvePtrArgs (valMap : List (Nat × DSNodeHandle)) :
    DSGraph → List Argument → List DSNodeHandle → DSGraph
  | g, a :: as, p :: ps =>
    match valMap.lookup a.value with
    | some h => resolvePtrArgs valMap (g.mergeWith h p) as ps
    | none => resolvePtrArgs valMap g as (p :: ps)
  | g, _, _ => g

/-- `SteensgaardDataStructures::ResolveFunctionCall` (`Basic.cpp`). -/
def resolveFunctionCall (g : DSGraph) (F : Function) (call : DSCallSite) : DSGraph :=
  let valMap := g.scalarMap
  let g := g.mergeOpt (g.getReturnNodeFor F.id) call.retVal
  let g := g.mergeOpt (g.getVANodeFor F.id) call.vaVal
  resolvePtrArgs valMap g F.args call.ptrArgs

/-- What resolving call site `cs` against `F` leaves in `g`: return with
return and vararg with vararg when both handles exist, and the `k`-th pointer
formal (bound in the scalar map) with the `k`-th pointer argument. -/
structure Binds (g : DSGraph) (cs : DSCallSite) (F : Function) : Prop where
  ret : ∀ r c, g.getReturnNodeFor F.id = some r → cs.retVal = some c → g.repOf r = g.repOf c
  va : ∀ r c, g.getVANodeFor F.id = some r → cs.vaVal = some c → g.repOf r = g.repOf c
  args : ∀ k (hkF : k < F.ptrArgs.length) (hkc : k < cs.ptrArgs.length),
    ∃ h, g.scalarMap.lookup (F.ptrArgs[k]).value = some h ∧ g.repOf h = g.repOf cs.ptrArgs[k]

/-- Bindings survive every later coarsening of the graph. -/
theorem Binds.mono {g g' : DSGraph} {cs : DSCallSite} {F : Function} (hb : Binds g cs F)
    (hg : Evolves g g') : Binds g' cs F := by
  refine ⟨fun r c hr hc => ?_, fun r c hr hc => ?_, fun k hkF hkc => ?_⟩
  · rw [getReturnNodeFor, hg.returnNodes] at hr
    exact hg.repOf_eq (hb.ret r c hr hc)
  · rw [getVANodeFor, hg.vaNodes] at hr
    exact hg.repOf_eq (hb.va r c hr hc)
  · obtain ⟨h, hl, hrep⟩ := hb.args k hkF hkc
    exact ⟨h, hg.lookup _ _ hl, hg.repOf_eq hrep⟩

variable {g : DSGraph}

/-- Handles of the graph's arena. -/
def InArena (g : DSGraph) (hs : List DSNodeHandle) : Prop := ∀ h ∈ hs, h.node < g.store.length

theorem InArena.mono {g g' : DSGraph} {hs : List DSNodeHandle} (h : InArena g hs)
    (hg : Evolves g g') : InArena g' hs :=
  fun x hx => hg.lt (h x hx)

theorem extras_evolves (hwf : g.WellFormed) {va : Option DSNodeHandle}
    (hva : ∀ h ∈ va, h.node < g.store.length) (extras : List DSNodeHandle)
    (hex : InArena g extras) :
    Evolves g (extras.foldl (fun g h => g.mergeOpt va (some h)) g) :=
  foldl_evolves _ (fun g h => (∀ x ∈ va, x.node < g.store.length) ∧ h.node < g.store.length)
    (fun _ _ _ hh hg => ⟨fun x hx => hg.lt (hh.1 x hx), hg.lt hh.2⟩)
    (fun _ _ hwf hh => mergeOpt_evolves hwf hh.1 (fun _ hx => by cases hx; exact hh.2))
    extras g hwf (fun h hh => ⟨hva, hex h hh⟩)

theorem bindArguments_evolves {va : Option DSNodeHandle} :
    ∀ {g : DSGraph} (fs as : List DSNodeHandle), g.WellFormed →
      (∀ h ∈ va, h.node < g.store.length) → InArena g fs → InArena g as →
      Evolves g (g.bindArguments va fs as)
  | g, f :: fs, a :: as, hwf, hva, hfs, has => by
      have h₁ := mergeWith_evolves hwf (hfs f (List.mem_cons_self _ _)) (has a (List.mem_cons_self _ _))
      exact h₁.trans (bindArguments_evolves fs as h₁.wf (fun x hx => h₁.lt (hva x hx))
        (fun x hx => h₁.lt (hfs x (List.mem_cons_of_mem _ hx)))
        (fun x hx => h₁.lt (has x (List.mem_cons_of_mem _ hx))))
  | g, [], extras, hwf, hva, _, has => by
      simpa only [bindArguments] using extras_evolves hwf hva extras has
  | g, _ :: _, [], hwf, hva, hfs, _ => by
      simpa only [bindArguments] using extras_evolves hwf hva _ hfs

/-- The pairwise part of `bindArguments`: the `k`-th formal and the `k`-th
argument end in one class. -/
theorem bindArguments_repOf {va : Option DSNodeHandle} :
    ∀ {g : DSGraph} (fs as : List DSNodeHandle), g.WellFormed →
      (∀ h ∈ va, h.node < g.store.length) → InArena g fs → InArena g as →
      ∀ k (hkf : k < fs.length) (hka : k < as.length),
        (g.bindArguments va fs as).repOf fs[k] = (g.bindArguments va fs as).repOf as[k]
  | g, f :: fs, a :: as, hwf, hva, hfs, has, k, hkf, hka => by
      have hf := hfs f (List.mem_cons_self _ _)
      have ha := has a (List.mem_cons_self _ _)
      have h₁ := mergeWith_evolves hwf hf ha
      have hva₁ : ∀ h ∈ va, h.node < (g.mergeWith f a).store.length := fun x hx => h₁.lt (hva x hx)
      have hfs₁ : InArena (g.mergeWith f a) fs := fun x hx => h₁.lt (hfs x (List.mem_cons_of_mem _ hx))
      have has₁ : InArena (g.mergeWith f a) as := fun x hx => h₁.lt (has x (List.mem_cons_of_mem _ hx))
      cases k with
      | zero =>
          exact (bindArguments_evolves fs as h₁.wf hva₁ hfs₁ has₁).repOf_eq
            (mergeWith_repOf hwf hf ha)
      | succ k =>
          exact bindArguments_repOf fs as h₁.wf hva₁ hfs₁ has₁ k (by simpa using hkf)
            (by simpa using hka)
  | _, [], _, _, _, _, _, k, hkf, _ => absurd hkf (Nat.not_lt_zero k)
  | _, _ :: _, [], _, _, _, _, k, _, hka => absurd hka (Nat.not_lt_zero k)

/-- The first two merges of both resolutions, the return handles and then the
vararg handles of `F` with those of the call: they join what `Binds` asks of
them, and every later coarsening keeps it. -/
theorem mergeRetVA_spec (hwf : g.WellFormed) {cs : DSCallSite} (hcs : InArena g cs.handles)
    (F : Function) :
    let g₂ := g.mergeOpt (g.getReturnNodeFor F.id) cs.retVal
    let g₃ := g₂.mergeOpt (g₂.getVANodeFor F.id) cs.vaVal
    Evolves g g₃ ∧ ∀ g', Evolves g₃ g' →
      (∀ r c, g'.getReturnNodeFor F.id = some r → cs.retVal = some c → g'.repOf r = g'.repOf c) ∧
      (∀ r c, g'.getVANodeFor F.id = some r → cs.vaVal = some c → g'.repOf r = g'.repOf c) := by
  intro g₂ g₃
  have h₂ : Evolves g g₂ := mergeOpt_evolves hwf (fun h hh => hwf.getReturnNodeFor_lt hh)
    (fun h hh => hcs h (DSCallSite.retVal_mem_handles hh))
  have h₃ : Evolves g₂ g₃ := mergeOpt_evolves h₂.wf (fun h hh => h₂.wf.getVANodeFor_lt hh)
    (fun h hh => hcs.mono h₂ h (DSCallSite.vaVal_mem_handles hh))
  refine ⟨h₂.trans h₃, fun g' hg => ⟨fun r c hr hc => ?_, fun r c hr hc => ?_⟩⟩
  · rw [getReturnNodeFor, hg.returnNodes, h₃.returnNodes, h₂.returnNodes] at hr
    refine (h₃.trans hg).repOf_eq ?_
    simp only [g₂, getReturnNodeFor, hr, hc]
    exact mergeOpt_repOf hwf (hwf.return_lt _ _ (mem_of_lookup_eq_some hr))
      (hcs c (DSCallSite.retVal_mem_handles hc))
  · rw [getVANodeFor, hg.vaNodes, h₃.vaNodes] at hr
    refine hg.repOf_eq ?_
    simp only [g₃, getVANodeFor, hr, hc]
    exact mergeOpt_repOf h₂.wf (h₂.wf.va_lt _ _ (mem_of_lookup_eq_some hr))
      (hcs.mono h₂ c (DSCallSite.vaVal_mem_handles hc))

theorem mergeInGraph_spec (hwf : g.WellFormed) {cs : DSCallSite} (hcs : InArena g cs.handles)
    (F : Function) : Evolves g (g.mergeInGraph cs F) ∧ Binds (g.mergeInGraph cs F) cs F := by
  obtain ⟨h₁, hlen, hlook⟩ := getNodesForValues_evolves hwf (F.ptrArgs.map (·.value))
  set r := g.getNodesForValues (F.ptrArgs.map (·.value))
  obtain ⟨h₃, hrv⟩ := mergeRetVA_spec h₁.wf (hcs.mono h₁) F
  set g₂ := r.1.mergeOpt (r.1.getReturnNodeFor F.id) cs.retVal
  set g₃ := g₂.mergeOpt (g₂.getVANodeFor F.id) cs.vaVal
  have hcs₃ := InArena.mono hcs (h₁.trans h₃)
  set va := match g₃.getVANodeFor F.id with
    | some h => some h
    | none => cs.vaVal
  have hva : ∀ h ∈ va, h.node < g₃.store.length := by
    intro h hh
    simp only [va] at hh
    split at hh
    · next x hx => cases hh; exact h₃.wf.getVANodeFor_lt hx
    · exact hcs₃ h (DSCallSite.vaVal_mem_handles hh)
  have hformals : InArena g₃ r.2 := by
    intro h hh
    obtain ⟨k, hk, rfl⟩ := List.getElem_of_mem hh
    have := hlook k (by simpa [hlen] using hk)
    exact h₃.lt (h₁.wf.lookup_lt (this.trans (List.getElem?_eq_getElem hk)))
  have hargs : InArena g₃ cs.ptrArgs := fun h hh => hcs₃ h (DSCallSite.ptrArg_mem_handles hh)
  have h₄ := bindArguments_evolves r.2 cs.ptrArgs h₃.wf hva hformals hargs
  refine ⟨h₁.trans (h₃.trans h₄), (hrv _ h₄).1, (hrv _ h₄).2, fun k hkF hkc => ?_⟩
  have hkr : k < r.2.length := by simpa [hlen] using hkF
  have hl := hlook k (by simpa using hkF)
  rw [List.getElem?_eq_getElem hkr] at hl
  exact ⟨r.2[k], (h₃.trans h₄).lookup _ _ (by simpa using hl),
    bindArguments_repOf r.2 cs.ptrArgs h₃.wf hva hformals hargs k hkr hkc⟩

section ResolveFunctionCall

variable {valMap : List (Nat × DSNodeHandle)}

/-- The scalar-map handles `ResolveFunctionCall` reads stay in the arena. -/
def MapInArena (g : DSGraph) (valMap : List (Nat × DSNodeHandle)) : Prop :=
  ∀ v h, (v, h) ∈ valMap → h.node < g.store.length

theorem resolvePtrArgs_evolves :
    ∀ {g : DSGraph} (args : List Argument) (ps : List DSNodeHandle), g.WellFormed →
      MapInArena g valMap → InArena g ps → Evolves g (resolvePtrArgs valMap g args ps)
  | g, a :: as, p :: ps, hwf, hvm, hps => by
      simp only [resolvePtrArgs]
      split
      · next h hh =>
          have h₁ := mergeWith_evolves hwf (hvm _ _ (mem_of_lookup_eq_some hh))
            (hps p (List.mem_cons_self _ _))
          exact h₁.trans (resolvePtrArgs_evolves as ps h₁.wf (fun v x hx => h₁.lt (hvm v x hx))
            (fun x hx => h₁.lt (hps x (List.mem_cons_of_mem _ hx))))
      · exact resolvePtrArgs_evolves as (p :: ps) hwf hvm hps
  | g, [], _, hwf, _, _ => by simpa only [resolvePtrArgs] using Evolves.refl hwf
  | g, _ :: _, [], hwf, _, _ => by simpa only [resolvePtrArgs] using Evolves.refl hwf

/-- With the formals bound in `valMap` exactly the pointer formals, the `k`-th
pointer formal meets the `k`-th pointer argument. -/
theorem resolvePtrArgs_repOf :
    ∀ {g : DSGraph} (args : List Argument) (ps : List DSNodeHandle), g.WellFormed →
      MapInArena g valMap → InArena g ps →
      (∀ a ∈ args, (valMap.lookup a.value).isSome = a.isPointer) →
      ∀ k (hka : k < (args.filter (·.isPointer)).length) (hkp : k < ps.length),
        ∃ h, valMap.lookup (args.filter (·.isPointer))[k].value = some h ∧
          (resolvePtrArgs valMap g args ps).repOf h = (resolvePtrArgs valMap g args ps).repOf ps[k]
  | g, a :: as, p :: ps, hwf, hvm, hps, hbound, k, hka, hkp => by
      have has : ∀ b ∈ as, (valMap.lookup b.value).isSome = b.isPointer :=
        fun b hb => hbound b (List.mem_cons_of_mem _ hb)
      cases hl : valMap.lookup a.value with
      | some h =>
          have hptr : a.isPointer = true := by simpa [hl] using (hbound a (List.mem_cons_self _ _)).symm
          have hh := hvm _ _ (mem_of_lookup_eq_some hl)
          have hp := hps p (List.mem_cons_self _ _)
          have h₁ := mergeWith_evolves hwf hh hp
          have hvm₁ : MapInArena (g.mergeWith h p) valMap := fun v x hx => h₁.lt (hvm v x hx)
          have hps₁ : InArena (g.mergeWith h p) ps := fun x hx => h₁.lt (hps x (List.mem_cons_of_mem _ hx))
          simp only [resolvePtrArgs, hl]
          simp only [List.filter_cons, hptr, if_true] at hka ⊢
          cases k with
          | zero =>
              exact ⟨h, hl, (resolvePtrArgs_evolves as ps h₁.wf hvm₁ hps₁).repOf_eq
                (mergeWith_repOf hwf hh hp)⟩
          | succ k =>
              exact resolvePtrArgs_repOf as ps h₁.wf hvm₁ hps₁ has k (by simpa using hka)
                (by simpa using hkp)
      | none =>
          have hptr : a.isPointer = false := by simpa [hl] using (hbound a (List.mem_cons_self _ _)).symm
          simp only [resolvePtrArgs, hl]
          simp only [List.filter_cons, hptr] at hka ⊢
          exact resolvePtrArgs_repOf as (p :: ps) hwf hvm hps has k (by simpa using hka) hkp
  | _, [], _, _, _, _, _, k, hka, _ => absurd hka (by simp)
  | _, _ :: _, [], _, _, _, _, k, _, hkp => absurd hkp (Nat.not_lt_zero k)

end ResolveFunctionCall

@[simp] theorem mergeWith_scalarMap (h1 h2 : DSNodeHandle) :
    (g.mergeWith h1 h2).scalarMap = g.scalarMap := rfl

@[simp] theorem mergeOpt_scalarMap (o1 o2 : Option DSNodeHandle) :
    (g.mergeOpt o1 o2).scalarMap = g.scalarMap := by
  cases o1 <;> cases o2 <;> rfl

theorem resolvePtrArgs_scalarMap (valMap : List (Nat × DSNodeHandle)) :
    ∀ (g : DSGraph) (args : List Argument) (ps : List DSNodeHandle),
      (resolvePtrArgs valMap g args ps).scalarMap = g.scalarMap
  | g, a :: as, p :: ps => by
      simp only [resolvePtrArgs]
      split
      · rw [resolvePtrArgs_scalarMap valMap _ as ps, mergeWith_scalarMap]
      · exact resolvePtrArgs_scalarMap valMap g as (p :: ps)
  | _, [], _ => by simp [resolvePtrArgs]
  | _, _ :: _, [] => by simp [resolvePtrArgs]

/-- `ResolveFunctionCall` binds no value: it only merges. -/
@[simp] theorem resolveFunctionCall_scalarMap (F : Function) (cs : DSCallSite) :
    (g.resolveFunctionCall F cs).scalarMap = g.scalarMap := by
  simp [resolveFunctionCall, resolvePtrArgs_scalarMap]

/-- The formals of `F` bound in the scalar map are exactly its pointer formals
(what the local analysis guarantees). -/
def FormalsBound (g : DSGraph) (F : Function) : Prop :=
  ∀ a ∈ F.args, (g.scalarMap.lookup a.value).isSome = a.isPointer

instance (F : Function) : Decidable (FormalsBound g F) :=
  inferInstanceAs (Decidable (∀ a ∈ F.args, _))

theorem resolveFunctionCall_spec (hwf : g.WellFormed) {cs : DSCallSite}
    (hcs : InArena g cs.handles) (F : Function) :
    Evolves g (g.resolveFunctionCall F cs) ∧
      (FormalsBound g F → Binds (g.resolveFunctionCall F cs) cs F) := by
  obtain ⟨h₃, hrv⟩ := mergeRetVA_spec hwf hcs F
  set g₂ := g.mergeOpt (g.getReturnNodeFor F.id) cs.retVal
  set g₃ := g₂.mergeOpt (g₂.getVANodeFor F.id) cs.vaVal
  have hvm : MapInArena g₃ g.scalarMap := fun v h hh => h₃.lt (hwf.scalar_lt v h hh)
  have hargs : InArena g₃ cs.ptrArgs :=
    fun h hh => (InArena.mono hcs h₃) h (DSCallSite.ptrArg_mem_handles hh)
  have h₄ := resolvePtrArgs_evolves F.args cs.ptrArgs h₃.wf hvm hargs
  refine ⟨h₃.trans h₄, fun hbound => ⟨(hrv _ h₄).1, (hrv _ h₄).2, fun k hkF hkc => ?_⟩⟩
  obtain ⟨h, hl, hrep⟩ := resolvePtrArgs_repOf F.args cs.ptrArgs h₃.wf hvm hargs hbound k hkF hkc
  exact ⟨h, (h₃.trans h₄).lookup _ _ hl, hrep⟩

/-- Merge two lists of handles pairwise, up to the shorter one. -/
def mergePairs (g : DSGraph) (fs as : List DSNodeHandle) : DSGraph :=
  (fs.zip as).foldl (fun g p => g.mergeWith p.1 p.2) g

@[simp] theorem mergePairs_cons (f a : DSNodeHandle) (fs as : List DSNodeHandle) :
    g.mergePairs (f :: fs) (a :: as) = (g.mergeWith f a).mergePairs fs as := rfl

@[simp] theorem mergeOpt_vaNodes (o1 o2 : Option DSNodeHandle) :
    (g.mergeOpt o1 o2).vaNodes = g.vaNodes := by
  cases o1 <;> cases o2 <;> rfl

/-- The argument loop of `ResolveFunctionCall` merges the bound formals, in
order, with the pointer arguments. -/
theorem resolvePtrArgs_eq_mergePairs (valMap : List (Nat × DSNodeHandle)) :
    ∀ (g : DSGraph) (args : List Argument) (ps : List DSNodeHandle),
      resolvePtrArgs valMap g args ps =
        g.mergePairs (args.filterMap fun a => valMap.lookup a.value) ps
  | g, a :: as, p :: ps => by
      rw [resolvePtrArgs, List.filterMap_cons]
      cases valMap.lookup a.value with
      | none => exact resolvePtrArgs_eq_mergePairs valMap g as (p :: ps)
      | some h => exact resolvePtrArgs_eq_mergePairs valMap _ as ps
  | g, [], ps => by simp [resolvePtrArgs, mergePairs]
  | g, _ :: _, [] => by simp [resolvePtrArgs, mergePairs]

/-- Without a vararg handle, or with no extras, `bindArguments` only merges
pairwise. -/
theorem bindArguments_eq_mergePairs {va : Option DSNodeHandle} :
    ∀ (g : DSGraph) (fs as : List DSNodeHandle), (va = none ∨ fs.length = as.length) →
      g.bindArguments va fs as = g.mergePairs fs as
  | g, f :: fs, a :: as, h => by
      rw [bindArguments, mergePairs_cons]
      exact bindArguments_eq_mergePairs _ fs as (by simpa using h)
  | g, [], as, h => by
      rcases h with rfl | h
      · simp only [bindArguments, mergePairs, List.zip_nil_left, List.foldl_nil]
        exact List.foldl_fixed' (fun _ => rfl) as
      · cases as <;> simp_all [bindArguments, mergePairs]
  | g, f :: fs, [], h => by
      rcases h with rfl | h
      · simp only [bindArguments, mergePairs, List.zip_nil_right, List.foldl_nil]
        exact List.foldl_fixed' (fun _ => rfl) (f :: fs)
      · simp at h

/-- When exactly the pointer formals are bound, looking the formals up finds
the handles of the pointer formals. -/
theorem filterMap_lookup_of_bound (l : List (Nat × DSNodeHandle)) : ∀ args : List Argument,
    (∀ a ∈ args, (l.lookup a.value).isSome = a.isPointer) →
      args.filterMap (fun a => l.lookup a.value) =
        ((args.filter (·.isPointer)).map (·.value)).filterMap l.lookup
  | [], _ => rfl
  | a :: as, h => by
      obtain ⟨ha, has⟩ := List.forall_mem_cons.mp h
      have ih := filterMap_lookup_of_bound l as has
      cases hp : a.isPointer
      · have hn : l.lookup a.value = none := by simpa [hp] using ha
        simp [List.filter_cons, hp, hn, ih]
      · obtain ⟨x, hx⟩ := Option.isSome_iff_exists.mp (ha.trans hp)
        simp [List.filter_cons, List.filterMap_cons, hp, hx, ih]

theorem getNodesForValues_of_bound : ∀ (vs : List Nat),
    (∀ v ∈ vs, (g.scalarMap.lookup v).isSome) →
      g.getNodesForValues vs = (g, vs.filterMap g.scalarMap.lookup)
  | [], _ => rfl
  | v :: vs, h => by
      obtain ⟨hv, hvs⟩ := List.forall_mem_cons.mp h
      obtain ⟨x, hx⟩ := Option.isSome_iff_exists.mp hv
      simp only [getNodesForValues, getNodeForValue, hx, getNodesForValues_of_bound vs hvs,
        List.filterMap_cons]

/-- `ResolveFunctionCall` builds the very graph `mergeInGraph` builds, when
the formals of `F` bound in the scalar map are its pointer formals and there
are no extras to send to a vararg handle: as many pointer arguments as
pointer formals, or no vararg handle on either side. -/
theorem resolveFunctionCall_eq_mergeInGraph {F : Function} {cs : DSCallSite}
    (hF : FormalsBound g F)
    (h : F.ptrArgs.length = cs.ptrArgs.length ∨ (g.getVANodeFor F.id = none ∧ cs.vaVal = none)) :
    g.resolveFunctionCall F cs = g.mergeInGraph cs F := by
  have hbound : ∀ v ∈ F.ptrArgs.map (·.value), (g.scalarMap.lookup v).isSome := by
    simp only [List.mem_map, Function.ptrArgs, List.mem_filter]
    rintro v ⟨a, ⟨ha, hp⟩, rfl⟩
    rw [hF a ha, hp]
  have hlen : ((F.ptrArgs.map (·.value)).filterMap g.scalarMap.lookup).length = F.ptrArgs.length := by
    rw [List.length_filterMap_eq_countP, List.countP_eq_length.mpr (by simpa using hbound),
      List.length_map]
  unfold resolveFunctionCall mergeInGraph
  rw [getNodesForValues_of_bound _ hbound]
  dsimp only
  rw [resolvePtrArgs_eq_mergePairs, filterMap_lookup_of_bound _ F.args hF]
  refine (bindArguments_eq_mergePairs _ _ _ ?_).symm
  rcases h with h | ⟨hva, hcs⟩
  · exact Or.inr (hlen.trans h)
  · left
    simp only [getVANodeFor, mergeOpt_vaNodes] at hva ⊢
    simp [hva, hcs]

/-- A variadic callee `void F(i8* %p, ...)` (id 1), its pointer formal bound
to node 1 and its vararg node 0. -/
def varargCallee : Function := ⟨1, false, false, [⟨10, true⟩], [[]]⟩

/-- A call `F(%a, %b)` with two pointer arguments, in nodes 2 and 3. -/
def varargCall : DSCallSite := ⟨20, .direct 1, none, none, [⟨2, 0⟩, ⟨3, 0⟩]⟩

def varargGraph : DSGraph where
  store := ⟨[{}, {}, {}, {}]⟩
  scalarMap := [(10, ⟨1, 0⟩)]
  returnNodes := []
  vaNodes := [(1, ⟨0, 0⟩)]
  functionCalls := [varargCall]

/-- On a call passing more pointer arguments than the variadic callee has
pointer formals, `mergeInGraph` unifies the extra argument with the callee's
vararg node and `ResolveFunctionCall` leaves them apart. -/
theorem resolveFunctionCall_drops_vararg_extra :
    varargGraph.WellFormed ∧ FormalsBound varargGraph varargCallee ∧
      (varargGraph.mergeInGraph varargCall varargCallee).repOf ⟨3, 0⟩ =
        (varargGraph.mergeInGraph varargCall varargCallee).repOf ⟨0, 0⟩ ∧
      (varargGraph.resolveFunctionCall varargCallee varargCall).repOf ⟨3, 0⟩ ≠
        (varargGraph.resolveFunctionCall varargCallee varargCall).repOf ⟨0, 0⟩ := by
  decide

/-- Sequences of the merges the drivers perform on a graph: `mergeWith` on two
of its handles, and the in-place `mergeInGraph` or `ResolveFunctionCall` on one
of its call sites. -/
inductive MergeSteps : DSGraph → DSGraph → Prop
  | refl (g : DSGraph) : MergeSteps g g
  | mergeWith {g g' : DSGraph} (h1 h2 : DSNodeHandle) : MergeSteps g g' →
      InArena g' [h1, h2] → MergeSteps g (g'.mergeWith h1 h2)
  | mergeInGraph {g g' : DSGraph} (cs : DSCallSite) (F : Function) : MergeSteps g g' →
      cs ∈ g'.functionCalls → MergeSteps g (g'.mergeInGraph cs F)
  | resolveFunctionCall {g g' : DSGraph} (cs : DSCallSite) (F : Function) : MergeSteps g g' →
      cs ∈ g'.functionCalls → MergeSteps g (g'.resolveFunctionCall F cs)

theorem WellFormed.call_inArena (hwf : g.WellFormed) {cs : DSCallSite}
    (hcs : cs ∈ g.functionCalls) : InArena g cs.handles :=
  hwf.call_lt cs hcs

theorem MergeSteps.evolves {g g' : DSGraph} (hs : MergeSteps g g') (hwf : g.WellFormed) :
    Evolves g g' := by
  induction hs with
  | refl => exact Evolves.refl hwf
  | mergeWith h1 h2 _ hin ih =>
      exact ih.trans (mergeWith_evolves ih.wf (hin h1 (by simp)) (hin h2 (by simp)))
  | mergeInGraph cs F _ hcs ih =>
      exact ih.trans (mergeInGraph_spec ih.wf (ih.wf.call_inArena hcs) F).1
  | resolveFunctionCall cs F _ hcs ih =>
      exact ih.trans (resolveFunctionCall_spec ih.wf (ih.wf.call_inArena hcs) F).1

end DSGraph

end DSA
