import Yloc.HwlocEmbedding
import Yloc.PropertyLookup
import Yloc.RankPlacement
import Yloc.VertexTypes

/-!
The modules only add to the graph.

Whatever a module does is a sequence of few steps (`Graph.Step`): it adds a vertex for an
object that has no identifier, asks for the vertex of an identifier, changes such a vertex,
adds a pair of edges or sets the root vertex. So what every step keeps holds after `init` on
any graph, also on one that an earlier `init` or the program itself has left.

* `Graph.Steps`: a sequence of steps, with the identifiers that it asks for and the vertices
  that it adds for objects.
* `Graph.Grows`: what is in the graph stays there.
* `init_steps`: a run of `init` is a sequence of steps, for `ModuleSource.identifiers` and
  `ModuleSource.objectVertices`.
* `init_grows`: descriptors, identifiers, property values and paths stay valid, and no
  vertex gets further away.
-/

namespace Yloc

variable {n : ℕ}

/-- The types of vertices that have an identifier. -/
def identifiedTypes : List Component :=
  [.unknownComponentType, .node, .misc, .pciDevice, .gpu, .mpiProcess]

namespace Adapter

/-- The adapter answers for no device and no process. -/
def Anonymous (a : Adapter n) : Prop := a.bdfid = none ∧ a.mpiRank = none

/-- The adapter answers for the device or process of the identifier, if for any. -/
structure Fits (a : Adapter n) (id : Identifier) : Prop where
  bdfid : ∀ b, a.bdfid = some b → id = bdfidId b
  mpiRank : ∀ r, a.mpiRank = some r → ∃ i : ℕ, r = UInt64.ofNat i ∧ id = mpiRankId i

lemma Anonymous.fits {a : Adapter n} (h : a.Anonymous) (id : Identifier) : a.Fits id where
  bdfid b hb := by
    rw [h.1] at hb
    cases hb
  mpiRank r hr := by
    rw [h.2] at hr
    cases hr

end Adapter

/-- A change of the vertex of an identifier: it adds an adapter that fits. -/
structure Contributes (id : Identifier) (f : Vertex n → Vertex n) : Prop where
  adapter : ∃ a : Adapter n, a.Fits id ∧ ∀ x, (f x).mAdapters = x.mAdapters ++ [a]
  types : ∀ x, x.mType ∈ identifiedTypes → (f x).mType ∈ identifiedTypes

namespace Graph

/-- `add_vertex()` with what is put on the vertex. -/
def addObject (g : Graph n) (x : Vertex n) : Graph n := { g with vertices := g.vertices ++ [x] }

/-- What the modules do to a graph, one step, with the identifier that it asks for or the
vertex of an object that it adds. -/
inductive Step : Graph n → List Identifier → List (Vertex n) → Graph n → Prop where
  | addObject (g : Graph n) {x : Vertex n} (hx : ∀ a ∈ x.mAdapters, a.Anonymous) :
      Step g [] [x] (g.addObject x)
  | addVertexId (g : Graph n) (id : Identifier) : Step g [id] [] (g.addVertexId id).2
  | modify {g : Graph n} {id : Identifier} {vd : VertexT} (hvd : g.lookup id = some vd)
      {f : Vertex n → Vertex n} (hf : Contributes id f) : Step g [] [] (g.modify vd f)
  | addEdges {g : Graph n} {u v : VertexT} (hu : u < g.numVertices) (hv : v < g.numVertices)
      (l l' : EdgeType) : Step g [] [] ((g.addEdge u v l).addEdge v u l')
  | setRootVertex (g : Graph n) (vd : VertexT) : Step g [] [] (g.setRootVertex vd)

/-- Several steps. -/
inductive Steps : Graph n → List Identifier → List (Vertex n) → Graph n → Prop where
  | refl (g : Graph n) : Steps g [] [] g
  | tail {g g' g'' : Graph n} {ids ids' : List Identifier} {objects objects' : List (Vertex n)}
      (h : Steps g ids objects g') (hstep : Step g' ids' objects' g'') :
      Steps g (ids ++ ids') (objects ++ objects') g''

/-- What is in `g` stays in `g'`. -/
structure Grows (g g' : Graph n) : Prop where
  numVertices : g.numVertices ≤ g'.numVertices
  lookup : ∀ id v, g.lookup id = some v → g'.lookup id = some v
  edges : g.edges <+: g'.edges
  adapters : ∀ v, (g.vertex v).mAdapters <+: (g'.vertex v).mAdapters

/-! ### One step -/

section

variable {g g' g'' : Graph n} {ids ids' : List Identifier} {objects objects' : List (Vertex n)}

lemma Grows.refl (g : Graph n) : g.Grows g :=
  ⟨le_rfl, fun _ _ h => h, List.prefix_rfl, fun _ => List.prefix_rfl⟩

lemma Grows.trans (h : g.Grows g') (h' : g'.Grows g'') : g.Grows g'' :=
  ⟨h.numVertices.trans h'.numVertices, fun id v hid => h'.lookup id v (h.lookup id v hid),
    h.edges.trans h'.edges, fun v => (h.adapters v).trans (h'.adapters v)⟩

@[simp] lemma addObject_numVertices (g : Graph n) (x : Vertex n) :
    (g.addObject x).numVertices = g.numVertices + 1 := by
  simp [addObject, numVertices]

/-- The vertices before it stay. -/
lemma addObject_vertex (g : Graph n) (x : Vertex n) {v : VertexT} (hv : v < g.numVertices) :
    (g.addObject x).vertex v = g.vertex v := by
  rw [vertex, vertex, addObject, List.getElem?_append_left hv]

/-- A new vertex that is changed at once. -/
lemma addVertex_modify (g : Graph n) (f : Vertex n → Vertex n) :
    g.addVertex.2.modify g.addVertex.1 f = g.addObject (f {}) := by
  have hlast : (g.vertices ++ [({} : Vertex n)]).modify g.vertices.length f =
      g.vertices ++ [f {}] := by
    rw [List.modify_eq_take_cons_drop (by simp)]
    simp
  exact congrArg (fun vs => { g with vertices := vs }) hlast

/-- A vertex that does not exist has no adapters. -/
lemma vertex_of_le (g : Graph n) {v : VertexT} (hv : g.numVertices ≤ v) : g.vertex v = {} := by
  rw [vertex, List.getElem?_eq_none hv]
  rfl

lemma Grows.addObject (g : Graph n) (x : Vertex n) : g.Grows (g.addObject x) where
  numVertices := by
    rw [addObject_numVertices]
    exact Nat.le_succ _
  lookup _ _ h := h
  edges := List.prefix_rfl
  adapters v := by
    rcases lt_or_ge v g.numVertices with hv | hv
    · rw [addObject_vertex g x hv]
    · rw [vertex_of_le g hv]
      exact List.nil_prefix

/-- A vertex is asked for: it is there, or it is new. -/
lemma addVertexId_cases (g : Graph n) (id : Identifier) :
    (∃ vd, g.lookup id = some vd ∧ g.addVertexId id = (vd, g)) ∨
      g.lookup id = none ∧ g.addVertexId id = (g.numVertices,
        { g.addObject {} with mIdentifierMap := g.mIdentifierMap.insert id g.numVertices }) := by
  cases hid : g.lookup id with
  | some vd => exact .inl ⟨vd, rfl, addVertexId_of_some hid⟩
  | none => exact .inr ⟨rfl, addVertexId_of_none hid⟩

/-- **A step adds to the graph.** -/
theorem Step.grows (h : g.Step ids objects g') : g.Grows g' := by
  cases h with
  | @addObject x hx => exact .addObject g x
  | addVertexId id =>
      rcases g.addVertexId_cases id with ⟨vd, -, heq⟩ | ⟨hid, heq⟩
      · rw [heq]
        exact .refl g
      · rw [heq]
        have hadd := Grows.addObject g {}
        refine ⟨hadd.numVertices, fun id' v hid' => ?_, hadd.edges, hadd.adapters⟩
        refine (AList.lookup_insert_ne ?_).trans hid'
        rintro rfl
        rw [hid] at hid'
        cases hid'
  | @modify id vd hvd f hf =>
      refine ⟨(modify_numVertices g vd f).ge, fun _ _ h => h, List.prefix_rfl, fun v => ?_⟩
      by_cases hv : v = vd
      · subst hv
        rcases lt_or_ge v g.numVertices with hlt | hge
        · obtain ⟨a, -, hadds⟩ := hf.adapter
          rw [modify_vertex_self hlt, hadds]
          exact List.prefix_append _ _
        · rw [vertex_of_le g hge]
          exact List.nil_prefix
      · rw [modify_vertex_of_ne g hv]
  | addEdges hu hv l l' =>
      refine ⟨le_rfl, fun _ _ h => h, ?_, fun _ => List.prefix_rfl⟩
      exact (List.prefix_append _ _).trans (List.prefix_append _ _)
  | setRootVertex vd =>
      exact ⟨le_rfl, fun _ _ h => h, List.prefix_rfl, fun _ => List.prefix_rfl⟩

/-- A step keeps a graph in order. -/
theorem Step.wellFormed (h : g.Step ids objects g') (hg : g.WellFormed) : g'.WellFormed := by
  cases h with
  | @addObject x hx =>
      have hle := (Grows.addObject g x).numVertices
      exact ⟨fun id v hid => (hg.bound id v hid).trans_le hle, hg.inj, fun e he =>
        ⟨(hg.ends e he).1.trans_le hle, (hg.ends e he).2.trans_le hle⟩⟩
  | addVertexId id =>
      obtain ⟨vd, g', heq, hadd⟩ := hg.addVertexId id
      rw [heq]
      exact hadd.wellFormed
  | modify => exact hg.modify _ _
  | addEdges hu hv l l' =>
      refine ⟨hg.bound, hg.inj, fun e he => ?_⟩
      simp only [addEdge, List.mem_append, List.mem_singleton] at he
      rcases he with (he | rfl) | rfl
      · exact hg.ends e he
      · exact ⟨hu, hv⟩
      · exact ⟨hv, hu⟩
  | setRootVertex vd => exact ⟨hg.bound, hg.inj, hg.ends⟩

/-- A step keeps an edge back for every edge. -/
theorem Step.reversible (h : g.Step ids objects g') (hg : g.Reversible) : g'.Reversible := by
  cases h with
  | addVertexId id =>
      rw [Reversible, addVertexId_edges]
      exact hg
  | @addEdges u v hu hv l l' =>
      intro e he
      simp only [addEdge, List.mem_append, List.mem_singleton] at he ⊢
      rcases he with (he | rfl) | rfl
      · obtain ⟨e', he', hends⟩ := hg e he
        exact ⟨e', .inl (.inl he'), hends⟩
      · exact ⟨⟨v, u, l'⟩, .inr rfl, rfl, rfl⟩
      · exact ⟨⟨u, v, l⟩, .inl (.inr rfl), rfl, rfl⟩
  | _ => exact hg

/-! ### Several steps -/

lemma Step.steps (h : g.Step ids objects g') : g.Steps ids objects g' := by
  simpa using (Steps.refl g).tail h

/-- A step that adds nothing to the lists. -/
lemma Steps.tail_nil (h : g.Steps ids objects g') (hstep : g'.Step [] [] g'') :
    g.Steps ids objects g'' := by
  simpa using h.tail hstep

lemma Steps.trans (h : g.Steps ids objects g') (h' : g'.Steps ids' objects' g'') :
    g.Steps (ids ++ ids') (objects ++ objects') g'' := by
  induction h' with
  | refl => simpa using h
  | tail _ hstep ih => simpa using ih.tail hstep

lemma Steps.grows (h : g.Steps ids objects g') : g.Grows g' := by
  induction h with
  | refl => exact .refl _
  | tail _ hstep ih => exact ih.trans hstep.grows

lemma Steps.wellFormed (h : g.Steps ids objects g') (hg : g.WellFormed) : g'.WellFormed := by
  induction h with
  | refl => exact hg
  | tail _ hstep ih => exact hstep.wellFormed ih

lemma Steps.reversible (h : g.Steps ids objects g') (hg : g.Reversible) : g'.Reversible := by
  induction h with
  | refl => exact hg
  | tail _ hstep ih => exact hstep.reversible ih

lemma Steps.lt (h : g.Steps ids objects g') {v : VertexT} (hv : v < g.numVertices) :
    v < g'.numVertices :=
  hv.trans_le h.grows.numVertices

/-- A vertex is asked for and changed. -/
lemma WellFormed.addVertexId_modify (hg : g.WellFormed) (id : Identifier)
    {f : Vertex n → Vertex n} (hf : Contributes id f) :
    g.Steps [id] [] ((g.addVertexId id).2.modify (g.addVertexId id).1 f) ∧
      (g.addVertexId id).1 < ((g.addVertexId id).2.modify (g.addVertexId id).1 f).numVertices := by
  have hid := g.addVertexId_lookup_self id
  have hstep := (Step.addVertexId g id).steps
  refine ⟨hstep.tail_nil (.modify hid hf), ?_⟩
  rw [modify_numVertices]
  exact (hstep.wellFormed hg).bound id _ hid

end

end Graph

/-! ### What the modules add -/

/-- The vertices of the objects without an identifier. -/
def HwlocApi.objectVertices (api : HwlocApi) (n : ℕ) (objects : List HwlocObj) : List (Vertex n) :=
  (objects.filter fun obj => (api.identifier obj).isNone).map fun obj => api.contribute obj {}

namespace ModuleSource

/-- The identifiers that a module asks for. -/
def identifiers : ModuleSource → List Identifier
  | hwloc source =>
      if source.checkHwlocApiVersion = .success then
        machineId source.hostname :: source.children.objects.filterMap source.api.identifier
      else []
  | mpi source =>
      if source.initialized then
        (List.finRange source.nbproc).flatMap fun i =>
          [machineId (source.hostnames i), mpiRankId i]
      else []
  | superMUC source =>
      if source.check then
        source.hostnames.flatMap fun hostname => [machineId hostname, systemId (cut hostname 9),
          systemId (cut hostname 6), systemId (cut hostname 3)]
      else []
  | rocm source => (rocmBdfids source.bdfid source.devices).map bdfidId
  | nvml source => source.devices.filterMap fun device =>
      device.pciInfo.map fun pci => bdfidId (bdfidGet pci)

/-- The vertices that a module adds for objects without an identifier. -/
def objectVertices (n : ℕ) : ModuleSource → List (Vertex n)
  | hwloc source =>
      if source.checkHwlocApiVersion = .success then
        source.api.objectVertices n source.children.objects
      else []
  | _ => []

end ModuleSource

/-! ### The modules -/

section

variable {g g' : Graph n}

/-- A change that sets the type. -/
lemma Contributes.of_type {id : Identifier} {f : Vertex n → Vertex n} {a : Adapter n}
    (ha : a.Fits id) (hf : ∀ x, (f x).mAdapters = x.mAdapters ++ [a]) {t : Component}
    (htype : ∀ x, (f x).mType = t) (ht : t ∈ identifiedTypes) : Contributes id f :=
  ⟨⟨a, ha, hf⟩, fun x _ => htype x ▸ ht⟩

/-- Only PCI devices have a bdfid. -/
lemma HwlocApi.bdfid_eq_none {api : HwlocApi} {obj : HwlocObj}
    (hpci : ¬ (api.hwloc2YlocType obj).isA .pciDevice = true) : api.bdfid obj = none := by
  refine if_neg fun htype => hpci ?_
  rw [hwloc2YlocType_pciDevice (sameType_iff.mp htype)]
  rfl

/-- What a PCI device does to its vertex. -/
lemma HwlocApi.contributes {api : HwlocApi} {obj : HwlocObj} {id : Identifier}
    (hid : api.identifier obj = some id) : Contributes (n := n) id (api.contribute obj) := by
  have hpci : (api.hwloc2YlocType obj).isA .pciDevice = true := by
    by_contra hpci
    rw [identifier, if_neg hpci] at hid
    cases hid
  refine ⟨⟨api.hwlocAdapter n obj, ⟨fun b (hb : api.bdfid obj = some b) => ?_,
    fun r hr => by cases hr⟩, fun x => ?_⟩, fun x hx => ?_⟩
  · rw [identifier, if_pos hpci, hb] at hid
    exact (Option.some.inj hid).symm
  · rw [contribute, GraphElement.setTypeIfUnknown_mAdapters, GraphElement.addAdapter_mAdapters,
      GraphElement.describeIfEmpty_mAdapters]
  · rw [contribute_mType]
    split
    · rw [hwloc2YlocType_eq hpci]
      decide
    · exact hx

/-- Other objects get a vertex that answers for no device. -/
lemma HwlocApi.anonymous_contribute {api : HwlocApi} {obj : HwlocObj}
    (hpci : ¬ (api.hwloc2YlocType obj).isA .pciDevice = true) :
    ∀ a ∈ (api.contribute obj ({} : Vertex n)).mAdapters, a.Anonymous := by
  intro a ha
  rw [contribute, GraphElement.setTypeIfUnknown_mAdapters, GraphElement.addAdapter_mAdapters,
    GraphElement.describeIfEmpty_mAdapters] at ha
  obtain rfl := List.mem_singleton.mp ha
  exact ⟨bdfid_eq_none hpci, rfl⟩

/-- What the root object does to its vertex. -/
lemma HwlocSource.contributesRoot (source : HwlocSource) (id : Identifier) :
    Contributes (n := n) id source.contributeRoot := by
  have hbdfid : source.api.bdfid source.root = none := by
    rw [HwlocApi.bdfid, source.root_type]
    exact if_neg fun htype => absurd (HwlocApi.sameType_iff.mp htype) (by decide)
  refine ⟨⟨source.api.hwlocAdapter n source.root, Adapter.Anonymous.fits ⟨hbdfid, rfl⟩ id,
    fun x => ?_⟩, fun x hx => ?_⟩
  · rw [contributeRoot, GraphElement.setTypeIfUnknown_mAdapters]
    rfl
  · rw [contributeRoot_mType]
    split
    · decide
    · exact hx

/-- `make_hwloc_graph`. -/
lemma makeHwlocGraph_steps (api : HwlocApi) {vd : VertexT} (hg : g.WellFormed)
    (hvd : vd < g.numVertices) (children : HwlocChildren) :
    g.Steps (children.objects.filterMap api.identifier) (api.objectVertices n children.objects)
      (makeHwlocGraph api g vd children) := by
  induction children generalizing g vd with
  | nil => exact .refl g
  | cons child children next ihchildren ihnext =>
      -- the vertex of the child
      have hvertex : ∃ childVd g₁, g.Steps (api.identifier child).toList
            (api.objectVertices n [child]) g₁ ∧ childVd < g₁.numVertices ∧
          makeHwlocGraph api g vd (.cons child children next) =
            makeHwlocGraph api (makeHwlocGraph api
              ((g₁.addEdge vd childVd .child).addEdge childVd vd .parent) childVd children)
                vd next := by
        by_cases hpci : (api.hwloc2YlocType child).isA .pciDevice = true
        · let id := bdfidId ((api.bdfid child).get (HwlocApi.bdfid_isSome hpci))
          have hid : api.identifier child = some id := by
            rw [HwlocApi.identifier, if_pos hpci, ← Option.some_get (HwlocApi.bdfid_isSome hpci)]
            rfl
          obtain ⟨hsteps, hlt⟩ := hg.addVertexId_modify id (HwlocApi.contributes hid)
          refine ⟨_, _, ?_, hlt, by simp only [makeHwlocGraph, dif_pos hpci, id]⟩
          simpa [HwlocApi.objectVertices, hid] using hsteps
        · have hid : api.identifier child = none := by rw [HwlocApi.identifier, if_neg hpci]
          refine ⟨g.addVertex.1, g.addObject (api.contribute child {}), ?_, ?_,
            by simp only [makeHwlocGraph, dif_neg hpci, Graph.addVertex_modify]⟩
          · simpa [HwlocApi.objectVertices, hid] using
              (Graph.Step.addObject g (HwlocApi.anonymous_contribute hpci)).steps
          · rw [Graph.addObject_numVertices]
            exact Nat.lt_succ_self _
      obtain ⟨childVd, g₁, hsteps, hchild, heq⟩ := hvertex
      rw [heq]
      have hedges := hsteps.tail_nil (.addEdges (hsteps.lt hvd) hchild .child .parent)
      have hbelow := hedges.trans (ihchildren (hedges.wellFormed hg) hchild)
      have hall := hbelow.trans (ihnext (hbelow.wellFormed hg) (hbelow.lt hvd))
      have hids : (child :: (children.objects ++ next.objects)).filterMap api.identifier =
          (api.identifier child).toList ++ children.objects.filterMap api.identifier ++
            next.objects.filterMap api.identifier := by
        rw [List.append_assoc, ← List.filterMap_append, List.filterMap_cons]
        cases api.identifier child <;> rfl
      have hobjects : api.objectVertices n (child :: (children.objects ++ next.objects)) =
          api.objectVertices n [child] ++ api.objectVertices n children.objects ++
            api.objectVertices n next.objects := by
        rw [← List.singleton_append, ← List.append_assoc]
        simp only [HwlocApi.objectVertices, List.filter_append, List.map_append]
      rwa [HwlocChildren.objects, hids, hobjects]

/-- `make_supermuc_node`. -/
lemma makeSupermucNode_steps (hg : g.WellFormed) (name : String) :
    g.Steps [systemId name] [] (makeSupermucNode g name).2 ∧
      (makeSupermucNode g name).1 < (makeSupermucNode g name).2.numVertices :=
  hg.addVertexId_modify (systemId name)
    (.of_type (a := supermucAdapter n name) (Adapter.Anonymous.fits ⟨rfl, rfl⟩ _) (fun _ => rfl)
      (fun _ => rfl) (by decide))

lemma addEdgesIfNew_steps {u v : VertexT} (hu : u < g.numVertices) (hv : v < g.numVertices) :
    g.Steps [] [] (addEdgesIfNew g u v) := by
  rw [addEdgesIfNew]
  split
  · exact (Graph.Step.addEdges hu hv .child .parent).steps
  · exact .refl g

/-- One round of `make_supermuc_graph`. -/
lemma makeSupermucHost_steps (hg : g.WellFormed) (hostname : String) :
    g.Steps [machineId hostname, systemId (cut hostname 9), systemId (cut hostname 6),
      systemId (cut hostname 3)] [] (makeSupermucHost g hostname) := by
  let slot := g.addVertexId (machineId hostname)
  let g₁ := slot.2.modify slot.1 (contributeSupermuc .node hostname)
  let column := makeSupermucNode g₁ (cut hostname 9)
  let rack := makeSupermucNode column.2 (cut hostname 6)
  let island := makeSupermucNode rack.2 (cut hostname 3)
  let g₂ := addEdgesIfNew island.2 island.1 rack.1
  let g₃ := addEdgesIfNew g₂ rack.1 column.1
  change g.Steps _ _ (addEdgesIfNew g₃ column.1 slot.1)
  have hslot : g.Steps [machineId hostname] [] g₁ ∧ slot.1 < g₁.numVertices :=
    hg.addVertexId_modify (machineId hostname)
      (.of_type (a := supermucAdapter n hostname) (Adapter.Anonymous.fits ⟨rfl, rfl⟩ _)
        (fun _ => rfl) (fun _ => rfl) (by decide))
  have hcolumn := makeSupermucNode_steps (hslot.1.wellFormed hg) (cut hostname 9)
  have hrack := makeSupermucNode_steps (hcolumn.1.wellFormed (hslot.1.wellFormed hg))
    (cut hostname 6)
  have hisland := makeSupermucNode_steps (hrack.1.wellFormed (hcolumn.1.wellFormed
    (hslot.1.wellFormed hg))) (cut hostname 3)
  have h₂ : island.2.Steps [] [] g₂ := addEdgesIfNew_steps hisland.2 (hisland.1.lt hrack.2)
  have h₃ : g₂.Steps [] [] g₃ := addEdgesIfNew_steps (h₂.lt (hisland.1.lt hrack.2))
    (h₂.lt (hisland.1.lt (hrack.1.lt hcolumn.2)))
  have hfrom := ((hrack.1.trans hisland.1).trans h₂).trans h₃
  exact ((hslot.1.trans hcolumn.1).trans hfrom).trans
    (addEdgesIfNew_steps (hfrom.lt hcolumn.2) (hfrom.lt (hcolumn.1.lt hslot.2)))

/-- `make_supermuc_graph`. -/
lemma makeSupermucGraph_steps (hg : g.WellFormed) (hostnames : List String) :
    g.Steps (hostnames.flatMap fun hostname => [machineId hostname, systemId (cut hostname 9),
      systemId (cut hostname 6), systemId (cut hostname 3)]) []
      (makeSupermucGraph g hostnames) := by
  induction hostnames generalizing g with
  | nil => exact .refl g
  | cons hostname hostnames ih =>
      have hround := makeSupermucHost_steps hg hostname
      exact hround.trans (ih (hround.wellFormed hg))

/-- The inner loop of the interconnects. -/
lemma linkDevices_steps (linked : ℕ → ℕ → Bool) {src : VertexT × ℕ} (hsrc : src.1 < g.numVertices)
    {rest : List (VertexT × ℕ)} (hrest : ∀ dst ∈ rest, dst.1 < g.numVertices) (count : ℕ) :
    g.Steps [] [] (rest.foldl (linkDevices linked src) (count, g)).2 := by
  induction rest generalizing g count with
  | nil => exact .refl g
  | cons dst rest ih =>
      rw [List.foldl_cons, linkDevices]
      split
      · have hround := (Graph.Step.addEdges hsrc (hrest dst List.mem_cons_self) .gpuInterconnect
          .gpuInterconnect).steps
        exact hround.trans (ih (hround.lt hsrc)
          (fun dst' hdst' => hround.lt (hrest dst' (List.mem_cons_of_mem _ hdst'))) _)
      · exact ih hsrc (fun dst' hdst' => hrest dst' (List.mem_cons_of_mem _ hdst')) _

/-- The loops of the interconnects. -/
lemma gpuInterconnect_steps (linked : ℕ → ℕ → Bool) {vertices : List (VertexT × ℕ)}
    (hvertices : ∀ src ∈ vertices, src.1 < g.numVertices) (count : ℕ) :
    g.Steps [] [] (gpuInterconnect linked vertices (count, g)).2 := by
  induction vertices generalizing g count with
  | nil => exact .refl g
  | cons src rest ih =>
      have hrest : ∀ dst ∈ rest, dst.1 < g.numVertices := fun dst hdst =>
        hvertices dst (List.mem_cons_of_mem _ hdst)
      have hround := linkDevices_steps linked (hvertices src List.mem_cons_self) hrest count
      rw [gpuInterconnect]
      exact hround.trans (ih (fun dst hdst => hround.lt (hrest dst hdst)) _)

/-- The loop over the devices of ROCm. -/
lemma addRocmDevices_steps (hg : g.WellFormed) (devices : List (RocmDevice × ℕ))
    (vertices : List VertexT) (hvertices : ∀ v ∈ vertices, v < g.numVertices) (bdfid : UInt64) :
    g.Steps ((rocmBdfids bdfid (devices.map Prod.fst)).map bdfidId) []
        (devices.foldl addRocmDevice (g, vertices, bdfid)).1 ∧
      ∀ v ∈ (devices.foldl addRocmDevice (g, vertices, bdfid)).2.1,
        v < (devices.foldl addRocmDevice (g, vertices, bdfid)).1.numVertices := by
  induction devices generalizing g vertices bdfid with
  | nil => exact ⟨.refl g, hvertices⟩
  | cons device devices ih =>
      let id := bdfidId (device.1.pciId.getD bdfid)
      have hfits : (rocmAdapter n device.1 device.2).Fits id := by
        refine ⟨fun b (hb : device.1.pciId = some b) => ?_, fun r hr => by cases hr⟩
        simp only [id, hb, Option.getD_some]
      obtain ⟨hround, hlt⟩ := hg.addVertexId_modify id (f := contributeRocm device.1 device.2)
        (.of_type hfits (fun _ => rfl) (fun _ => rfl) (by decide))
      obtain ⟨hsteps, hlts⟩ := ih (hround.wellFormed hg)
        (vertices ++ [(g.addVertexId id).1]) (fun v hv => by
          rcases List.mem_append.mp hv with hv | hv
          · exact hround.lt (hvertices v hv)
          · rw [List.mem_singleton.mp hv]
            exact hlt) (device.1.pciId.getD bdfid)
      exact ⟨hround.trans hsteps, hlts⟩

/-- The loop over the devices of NVML. -/
lemma addNvmlDevices_steps (hg : g.WellFormed) {devices : List NvmlDevice}
    {vertices vertices' : List VertexT} (hvertices : ∀ v ∈ vertices, v < g.numVertices)
    (hrun : devices.foldlM addNvmlDevice (g, vertices) = .ok (g', vertices')) :
    g.Steps (devices.filterMap fun device => device.pciInfo.map fun pci => bdfidId (bdfidGet pci))
      [] g' ∧ ∀ v ∈ vertices', v < g'.numVertices := by
  induction devices generalizing g vertices with
  | nil =>
      obtain ⟨rfl, rfl⟩ := Prod.mk.inj (Except.ok.inj hrun)
      exact ⟨.refl g, hvertices⟩
  | cons device devices ih =>
      rw [List.foldlM_cons] at hrun
      obtain ⟨state, hdevice, hrun⟩ := Except.exists_of_bind hrun
      rw [addNvmlDevice] at hdevice
      split at hdevice
      · cases hdevice
      · next bdfid hbdfid =>
          obtain ⟨pci, hpci, rfl⟩ := Option.map_eq_some_iff.mp hbdfid
          have hfits : (nvmlAdapter n device).Fits (bdfidId (bdfidGet pci)) := by
            refine ⟨fun b (hb : device.pciInfo.map bdfidGet = some b) => ?_,
              fun r hr => by cases hr⟩
            rw [hpci] at hb
            rw [Option.some.inj hb]
          obtain ⟨hround, hlt⟩ := hg.addVertexId_modify (bdfidId (bdfidGet pci))
            (f := contributeNvml device) (.of_type hfits (fun _ => rfl) (fun _ => rfl) (by decide))
          obtain rfl := Except.ok.inj hdevice
          obtain ⟨hsteps, hlts⟩ := ih (hround.wellFormed hg) (fun v hv => by
            rcases List.mem_append.mp hv with hv | hv
            · exact hround.lt (hvertices v hv)
            · rw [List.mem_singleton.mp hv]
              exact hlt) hrun
          rw [List.filterMap_cons, hpci]
          exact ⟨hround.trans hsteps, hlts⟩

/-- What a rank does to its vertex. -/
lemma MpiSource.contributes (source : MpiSource) (i : Fin source.nbproc) :
    Contributes (n := n) (mpiRankId i) (source.contributeMask i ∘ contributeRank i) := by
  have hfits : ∀ mask, (mpiAdapter n i mask).Fits (mpiRankId i) := by
    refine fun mask => ⟨fun b hb => ?_, fun r hr => ⟨i, (Option.some.inj hr).symm, rfl⟩⟩
    cases hb
  refine .of_type (hfits ((source.localMask n i).getD .zero)) (fun x => ?_) (t := .mpiProcess)
    (fun x => ?_) (by decide)
  · rw [Function.comp_apply, contributeMask]
    cases source.localMask n i with
    | none => rfl
    | some mask =>
        -- the adapter that is replaced is the one added before
        change (x.mAdapters ++ [mpiAdapter n i .zero]).dropLast ++ _ = _
        rw [List.dropLast_concat]
        rfl
  · rw [Function.comp_apply, contributeMask_type]
    rfl

/-- One round of `make_mpi_graph`. -/
lemma makeMpiRank_steps (hg : g.WellFormed) {S : StdSort VertexT} {source : MpiSource}
    {i : Fin source.nbproc} (hrun : makeMpiRank S source g i = .ok g') :
    g.Steps [machineId (source.hostnames i), mpiRankId i] [] g' := by
  let node := g.addVertexId (machineId (source.hostnames i))
  let proc := node.2.addVertexId (mpiRankId i)
  let g₁ := (proc.2.modify proc.1 (contributeRank i)).modify proc.1 (source.contributeMask i)
  have hnode : g.Steps [machineId (source.hostnames i)] [] node.2 :=
    (Graph.Step.addVertexId g _).steps
  have hproc : node.2.Steps [mpiRankId i] [] g₁ ∧ proc.1 < g₁.numVertices := by
    have hmodify : g₁ = proc.2.modify proc.1 (source.contributeMask i ∘ contributeRank i) := by
      simp only [g₁, Graph.modify, List.modify_modify_eq]
    rw [hmodify]
    exact (hnode.wellFormed hg).addVertexId_modify (mpiRankId i) (source.contributes i)
  have hedges : ∀ vd < g₁.numVertices, g.Steps [machineId (source.hostnames i), mpiRankId i] []
      ((g₁.addEdge vd proc.1 .child).addEdge proc.1 vd .parent) := fun vd hvd =>
    (hnode.trans hproc.1).tail_nil (.addEdges hvd hproc.2 .child .parent)
  rw [makeMpiRank] at hrun
  cases hmask : source.localMask n i with
  | none =>
      rw [hmask] at hrun
      obtain rfl := Except.ok.inj hrun
      exact hedges node.1 (hproc.1.lt
        ((hnode.wellFormed hg).bound _ _ (g.addVertexId_lookup_self _)))
  | some mask =>
      rw [hmask] at hrun
      obtain ⟨vd, hsearch, hrun⟩ := Except.exists_of_bind hrun
      obtain rfl := Except.ok.inj hrun
      exact hedges vd (lowestContainingVertexFrom_spec hsearch).1

/-- `make_mpi_graph`. -/
lemma makeMpiGraph_steps (hg : g.WellFormed) {S : StdSort VertexT} {source : MpiSource}
    {ranks : List (Fin source.nbproc)} (hrun : ranks.foldlM (makeMpiRank S source) g = .ok g') :
    g.Steps (ranks.flatMap fun i => [machineId (source.hostnames i), mpiRankId i]) [] g' := by
  induction ranks generalizing g with
  | nil =>
      obtain rfl := Except.ok.inj hrun
      exact .refl g
  | cons i ranks ih =>
      rw [List.foldlM_cons] at hrun
      obtain ⟨g₁, hround, hrun⟩ := Except.exists_of_bind hrun
      have hsteps := makeMpiRank_steps hg hround
      exact hsteps.trans (ih (hsteps.wellFormed hg) hrun)

/-- **`init_graph` of every module is a sequence of steps.** -/
theorem ModuleSource.initGraph_steps (hg : g.WellFormed) {S : StdSort VertexT}
    {source : ModuleSource} {status : YlocStatus}
    (hrun : source.initGraph S g = .ok (status, g')) :
    g.Steps source.identifiers (source.objectVertices n) g' := by
  cases source with
  | hwloc source =>
      rw [initGraph, HwlocSource.initGraph] at hrun
      split at hrun
      · next hversion =>
          obtain ⟨-, rfl⟩ := Prod.mk.inj (Except.ok.inj hrun)
          rw [identifiers, objectVertices, if_neg hversion, if_neg hversion]
          exact .refl g
      · next hversion =>
          obtain ⟨-, rfl⟩ := Prod.mk.inj (Except.ok.inj hrun)
          rw [identifiers, objectVertices, if_pos (not_not.mp hversion),
            if_pos (not_not.mp hversion)]
          let root := g.addVertexId (machineId source.hostname)
          let g₁ := root.2.setRootVertex root.1
          have hlookup : g₁.lookup (machineId source.hostname) = some root.1 :=
            g.addVertexId_lookup_self _
          have hset : g.Steps [machineId source.hostname] [] g₁ :=
            (Graph.Step.addVertexId g _).steps.tail_nil (.setRootVertex root.2 root.1)
          have hroot : g.Steps [machineId source.hostname] []
              (g₁.modify root.1 source.contributeRoot) :=
            hset.tail_nil (.modify hlookup (source.contributesRoot _))
          have hlt := (hset.wellFormed hg).bound _ _ hlookup
          exact hroot.trans (makeHwlocGraph_steps source.api (hroot.wellFormed hg)
            (by rwa [Graph.modify_numVertices]) source.children)
  | mpi source =>
      rw [initGraph, MpiSource.initGraph_eq] at hrun
      rw [identifiers]
      change g.Steps _ [] g'
      split at hrun
      · next hinit =>
          obtain ⟨g₁, hloop, heq⟩ := Except.exists_of_map hrun
          obtain ⟨-, rfl⟩ := Prod.mk.inj heq
          rw [if_pos hinit]
          exact makeMpiGraph_steps hg hloop
      · next hinit =>
          obtain ⟨-, rfl⟩ := Prod.mk.inj (Except.ok.inj hrun)
          rw [if_neg hinit]
          exact .refl g
  | superMUC source =>
      rw [initGraph, SupermucSource.initGraph_eq] at hrun
      rw [identifiers]
      change g.Steps _ [] g'
      split at hrun
      · next hcheck =>
          obtain ⟨-, rfl⟩ := Prod.mk.inj (Except.ok.inj hrun)
          rw [if_pos hcheck]
          exact makeSupermucGraph_steps hg _
      · next hcheck =>
          obtain ⟨-, rfl⟩ := Prod.mk.inj (Except.ok.inj hrun)
          rw [if_neg hcheck]
          exact .refl g
  | rocm source =>
      obtain ⟨-, rfl⟩ := Prod.mk.inj (Except.ok.inj hrun)
      obtain ⟨hdevices, hvertices⟩ := addRocmDevices_steps hg source.devices.zipIdx
        [] (fun v hv => by cases hv) source.bdfid
      rw [List.zipIdx_map_fst] at hdevices
      rw [identifiers]
      change g.Steps _ [] _
      simpa using hdevices.trans (gpuInterconnect_steps _
        (fun src hsrc => hvertices _ (List.fst_mem_of_mem_zipIdx hsrc)) 0)
  | nvml source =>
      rw [initGraph, NvmlSource.initGraph] at hrun
      obtain ⟨⟨g₁, vertices⟩, hloop, heq⟩ := Except.exists_of_bind hrun
      obtain ⟨-, rfl⟩ := Prod.mk.inj (Except.ok.inj heq)
      obtain ⟨hdevices, hvertices⟩ := addNvmlDevices_steps hg (fun v hv => by cases hv) hloop
      rw [identifiers]
      change g.Steps _ [] _
      simpa using hdevices.trans (gpuInterconnect_steps _
        (fun src hsrc => hvertices _ (List.fst_mem_of_mem_zipIdx hsrc)) 0)

/-- A run of modules. -/
lemma runSources_steps (hg : g.WellFormed) {S : StdSort VertexT} {sources : List ModuleSource}
    (hrun : runSources S sources g = .ok g') :
    g.Steps (sources.flatMap ModuleSource.identifiers)
      (sources.flatMap (ModuleSource.objectVertices n)) g' := by
  induction sources generalizing g with
  | nil =>
      obtain rfl := Except.ok.inj hrun
      exact .refl g
  | cons source sources ih =>
      rw [runSources_cons] at hrun
      obtain ⟨g₂, hround, hrest⟩ := Except.exists_of_bind hrun
      obtain ⟨⟨status', g₃⟩, hsource, rfl⟩ := Except.exists_of_map hround
      have hsteps := ModuleSource.initGraph_steps hg hsource
      exact hsteps.trans (ih (hsteps.wellFormed hg) hrest)

/-- **A run of `init` is a sequence of steps.** -/
theorem init_steps (hg : g.WellFormed) {S : StdSort VertexT} {S' : StdSort Module}
    {modules : List Module} {status : YlocStatus}
    (hrun : init S S' modules g = .ok (status, g')) :
    g.Steps ((enabledSources (sortModules S' modules)).flatMap ModuleSource.identifiers)
      ((enabledSources (sortModules S' modules)).flatMap (ModuleSource.objectVertices n)) g' := by
  obtain ⟨g₁, hloop, heq⟩ := Except.exists_of_map hrun
  obtain ⟨-, rfl⟩ := Prod.mk.inj heq
  rw [runModules_eq] at hloop
  exact runSources_steps hg hloop

end

/-! ### What stays valid -/

/-- Further adapters change no value. -/
lemma GraphElement.get_of_prefix {v w : GraphElement n} (h : v.mAdapters <+: w.mAdapters)
    {rt : TypeId} {name : String} {x : rt.denote n} (hx : v.get rt name = some x) :
    w.get rt name = some x := by
  obtain ⟨as, has⟩ := h
  have hget := w.get_append v.mAdapters as rt name
  have hsame : ({ w with mAdapters := v.mAdapters } : GraphElement n).get rt name =
      v.get rt name := by
    cases rt <;> rfl
  rw [has, hsame, hx] at hget
  exact hget

section

variable {g g' : Graph n}

/-- Edges keep their descriptors, so that paths stay paths. -/
lemma Graph.Grows.path (h : g.Grows g') {u v : VertexT} {p : List EdgeT} (hp : g.Path u p v) :
    g'.Path u p v := by
  induction hp with
  | nil => exact .nil
  | @snoc p w e _ he ih =>
      obtain ⟨hmem, hsource⟩ := Graph.mem_outEdges.mp he
      refine .snoc ih (Graph.mem_outEdges.mpr ⟨?_, hsource⟩)
      obtain ⟨new, hedges⟩ := h.edges
      rw [Graph.edgeRange, ← hedges, List.zipIdx_append]
      exact List.mem_append_left _ hmem

/-- No vertex gets further away. -/
lemma Graph.Grows.bfsDistances_le (h : g.Grows g')
    (hends : ∀ e ∈ g.edges, e.target < g.numVertices)
    (hends' : ∀ e ∈ g'.edges, e.target < g'.numVertices) {u v : VertexT}
    (hu : u < g.numVertices) {p : List EdgeT} (hp : g.Path u p v) :
    ∃ d d', (bfsDistances g u)[v]? = some d ∧ (bfsDistances g' u)[v]? = some d' ∧ d' ≤ d := by
  have hv := Graph.path_lt hends hu hp
  rcases bfsDistances_spec hends hu hv with ⟨q, hq, hdist⟩ | ⟨hnone, -⟩
  · rcases bfsDistances_spec hends' (hu.trans_le h.numVertices) (hv.trans_le h.numVertices) with
      ⟨r, hr, hdist'⟩ | ⟨hnone', -⟩
    · exact ⟨_, _, hdist, hdist', by exact_mod_cast hr.2 q (h.path hq.1)⟩
    · exact absurd (h.path hp) (hnone' p)
  · exact absurd hp (hnone p)

/-- **`init` only adds**, to any graph in order and with any modules: the graph stays in
order, edges still have an edge back if they had one, identifiers stay bound to their
vertices, every value that `get` has returned is returned again, paths keep their edge
descriptors, and no vertex gets further away. -/
theorem init_grows (S : StdSort VertexT) (S' : StdSort Module) {modules : List Module}
    (hg : g.WellFormed) {status : YlocStatus}
    (hrun : init S S' modules g = .ok (status, g')) :
    g'.WellFormed ∧ (g.Reversible → g'.Reversible) ∧
    (∀ id v, g.lookup id = some v → g'.lookup id = some v) ∧
    (∀ v (rt : TypeId) name (x : rt.denote n),
      (g.vertex v).get rt name = some x → (g'.vertex v).get rt name = some x) ∧
    (∀ u p v, g.Path u p v → g'.Path u p v) ∧
    ∀ u < g.numVertices, ∀ p v, g.Path u p v →
      ∃ d d', (bfsDistances g u)[v]? = some d ∧ (bfsDistances g' u)[v]? = some d' ∧ d' ≤ d := by
  have hsteps := init_steps hg hrun
  have hgrows := hsteps.grows
  have hg' := hsteps.wellFormed hg
  refine ⟨hg', hsteps.reversible, hgrows.lookup, fun v rt name x hx => ?_,
    fun u p v hp => hgrows.path hp, fun u hu p v hp => ?_⟩
  · exact GraphElement.get_of_prefix (hgrows.adapters v) hx
  · exact hgrows.bfsDistances_le (fun e he => (hg.ends e he).2) (fun e he => (hg'.ends e he).2)
      hu hp

end

/-- A graph with a vertex for the first GPU of `linkedGpus`, below another vertex. -/
def startedGraph : Graph 0 where
  vertices := [{ mAdapters := [{ memory := some 64, mObj := .rocmDevice 0 }] }, {}]
  edges := [⟨0, 1, .parent⟩, ⟨1, 0, .child⟩]
  mIdentifierMap := AList.insert (bdfidId 0x300) 0 ∅

lemma startedGraph_lookup {id : Identifier} {v : VertexT}
    (h : startedGraph.lookup id = some v) : id = bdfidId 0x300 ∧ v = 0 := by
  by_cases hid : id = bdfidId 0x300
  · rw [hid, Graph.lookup, startedGraph, AList.lookup_insert] at h
    exact ⟨hid, (Option.some.inj h).symm⟩
  · rw [Graph.lookup, startedGraph, AList.lookup_insert_ne hid, AList.lookup_empty] at h
    cases h

lemma startedGraph_wellFormed : startedGraph.WellFormed := by
  refine ⟨fun id v h => ?_, fun id id' v h h' => ?_, by decide⟩
  · rw [(startedGraph_lookup h).2]
    decide
  · rw [(startedGraph_lookup h).1, (startedGraph_lookup h').1]

/-- hwloc and ROCm find the GPU again. -/
theorem init_grows_startedGraph : ∃ status, ∃ g' : Graph 0,
    init .insertion .insertion [⟨.hwloc smallMachine, true⟩, ⟨.rocm linkedGpus, true⟩]
      startedGraph = .ok (status, g') ∧
    g'.WellFormed ∧ (startedGraph.Reversible → g'.Reversible) ∧
    (∀ id v, startedGraph.lookup id = some v → g'.lookup id = some v) ∧
    (∀ v (rt : TypeId) name (x : rt.denote 0), (startedGraph.vertex v).get rt name = some x →
      (g'.vertex v).get rt name = some x) ∧
    (∀ u p v, startedGraph.Path u p v → g'.Path u p v) ∧
    ∀ u < startedGraph.numVertices, ∀ p v, startedGraph.Path u p v →
      ∃ d d', (bfsDistances startedGraph u)[v]? = some d ∧ (bfsDistances g' u)[v]? = some d' ∧
        d' ≤ d := by
  obtain ⟨⟨status, g'⟩, hrun⟩ : ∃ result, init .insertion .insertion
      [⟨.hwloc smallMachine, true⟩, ⟨.rocm linkedGpus, true⟩] startedGraph = .ok result :=
    ⟨_, rfl⟩
  exact ⟨status, g', hrun, init_grows .insertion .insertion startedGraph_wellFormed hrun⟩

end Yloc
