import Yloc.GraphView
import Yloc.Growth

/-!
What a run of `init` adds, counted.

An identifier is bound once, whoever asks for it and how often, while every object without
an identifier gives a vertex of its own each time. So the vertices of a graph are those it
had, one for each new identifier and one for each of these objects, and a view by a type
that no vertex with an identifier has (a core, a cache, a PU) lists the objects of this type
in the order in which hwloc has found them.

* `Graph.Identified`: the graphs on which this holds.
* `Graph.Adds`: what is added to a graph.
* `init_adds`: what a run of `init` adds, and what it adds when it is run again.
-/

namespace Yloc

variable {n : ℕ}

/-- No vertex with an identifier is in the view by this type. -/
def Component.Unidentified (type : Component) : Prop :=
  ∀ t ∈ identifiedTypes, t.isA type = false

instance (type : Component) : Decidable type.Unidentified :=
  inferInstanceAs (Decidable (∀ t ∈ identifiedTypes, t.isA type = false))

example : Component.cache.Unidentified ∧ Component.logicalCore.Unidentified := by decide

namespace Graph

/-- The identifiers that are bound. -/
def identifiers (g : Graph n) : Finset Identifier := g.mIdentifierMap.keys.toFinset

/-- The vertices in the view by a type, in the order of the traversal. -/
def ofType (g : Graph n) (type : Component) : List (Vertex n) :=
  (g.typeView type).vertexRange.map g.vertex

/-- The graph is in order and its identifiers are at vertices of these types. -/
structure Identified (g : Graph n) : Prop where
  wellFormed : g.WellFormed
  types : ∀ id v, g.lookup id = some v → (g.vertex v).mType ∈ identifiedTypes

/-- What is added to `g`, when the identifiers are asked for and the objects get vertices of
their own. -/
structure Adds (g : Graph n) (ids : List Identifier) (objects : List (Vertex n))
    (g' : Graph n) : Prop where
  identifiers : g'.identifiers = g.identifiers ∪ ids.toFinset
  numVertices : g'.numVertices =
    g.numVertices + objects.length + (ids.toFinset \ g.identifiers).card
  ofType : ∀ type : Component, type.Unidentified →
    g'.ofType type = g.ofType type ++ objects.filter fun x => x.mType.isA type

section

variable {g g' g'' : Graph n} {ids ids' : List Identifier} {objects objects' : List (Vertex n)}

lemma mem_identifiers {id : Identifier} : id ∈ g.identifiers ↔ ∃ v, g.lookup id = some v := by
  rw [identifiers, List.mem_toFinset, ← AList.mem_keys, ← AList.lookup_isSome,
    Option.isSome_iff_exists]
  rfl

/-- The view lists the vertices of the type. -/
lemma ofType_eq (g : Graph n) (type : Component) :
    g.ofType type = g.vertices.filter fun x => x.mType.isA type := by
  have hvertices : (List.range g.numVertices).map g.vertex = g.vertices := by
    refine List.ext_getElem (by simp [numVertices]) fun i hi hi' => ?_
    rw [List.getElem_map, List.getElem_range, vertex, List.getElem?_eq_getElem hi',
      Option.getD_some]
  conv_rhs => rw [← hvertices, List.filter_map]
  rw [ofType, typeView, GraphView.filter]
  rfl

/-! ### Several additions -/

lemma Adds.refl (g : Graph n) : g.Adds [] [] g := by
  refine ⟨?_, ?_, fun type _ => ?_⟩ <;> simp

lemma Adds.trans (h : g.Adds ids objects g') (h' : g'.Adds ids' objects' g'') :
    g.Adds (ids ++ ids') (objects ++ objects') g'' := by
  refine ⟨?_, ?_, fun type htype => ?_⟩
  · rw [h'.identifiers, h.identifiers, List.toFinset_append, Finset.union_assoc]
  · -- what the first has bound is not counted again
    have hsplit : (ids ++ ids').toFinset \ g.identifiers =
        (ids.toFinset \ g.identifiers) ∪ (ids'.toFinset \ g'.identifiers) := by
      ext id
      simp only [h.identifiers, List.toFinset_append, Finset.mem_sdiff, Finset.mem_union]
      tauto
    have hdisjoint : Disjoint (ids.toFinset \ g.identifiers) (ids'.toFinset \ g'.identifiers) := by
      rw [Finset.disjoint_left]
      intro id hid hid'
      rw [h.identifiers] at hid'
      exact (Finset.mem_sdiff.mp hid').2 (Finset.mem_union_right _ (Finset.mem_sdiff.mp hid).1)
    rw [h'.numVertices, h.numVertices, hsplit, Finset.card_union_of_disjoint hdisjoint,
      List.length_append]
    omega
  · rw [h'.ofType type htype, h.ofType type htype, List.filter_append, List.append_assoc]

/-! ### One step -/

/-- The view by a type does not see a change of a vertex that is of no such type, before and
after. -/
lemma filter_modify {α : Type} {p : α → Bool} {f : α → α} {l : List α} {i : ℕ}
    (h : ∀ x, l[i]? = some x → p x = false ∧ p (f x) = false) :
    (l.modify i f).filter p = l.filter p := by
  rcases lt_or_ge i l.length with hi | hi
  · obtain ⟨hx, hfx⟩ := h l[i] (List.getElem?_eq_getElem hi)
    have hcut : l = l.take i ++ l[i] :: l.drop (i + 1) := by
      rw [← List.drop_eq_getElem_cons hi, List.take_append_drop]
    calc (l.modify i f).filter p
        = (l.take i).filter p ++ (f l[i] :: l.drop (i + 1)).filter p := by
          rw [List.modify_eq_take_cons_drop hi, List.filter_append]
      _ = (l.take i).filter p ++ (l[i] :: l.drop (i + 1)).filter p := by
          rw [List.filter_cons_of_neg (by simp [hfx]), List.filter_cons_of_neg (by simp [hx])]
      _ = l.filter p := by rw [← List.filter_append, ← hcut]
  · rw [List.modify_eq_self hi]

lemma Step.identified (h : g.Step ids objects g') (hg : g.Identified) : g'.Identified := by
  refine ⟨h.wellFormed hg.wellFormed, ?_⟩
  cases h with
  | @addObject x hx =>
      intro id v hid
      rw [addObject_vertex g x (hg.wellFormed.bound id v hid)]
      exact hg.types id v hid
  | addVertexId id =>
      rcases g.addVertexId_cases id with ⟨vd, -, heq⟩ | ⟨hnone, heq⟩
      · rw [heq]
        exact hg.types
      · rw [heq]
        intro id' v hid'
        by_cases hid : id' = id
        · obtain rfl : g.numVertices = v := by
            rw [hid, lookup, AList.lookup_insert] at hid'
            exact Option.some.inj hid'
          have hnew : (g.addObject {}).vertex g.numVertices = {} := by
            simp [vertex, Graph.addObject, numVertices]
          change ((g.addObject {}).vertex g.numVertices).mType ∈ identifiedTypes
          rw [hnew]
          exact List.mem_cons_self
        · rw [lookup, AList.lookup_insert_ne hid] at hid'
          change ((g.addObject {}).vertex v).mType ∈ identifiedTypes
          rw [addObject_vertex g {} (hg.wellFormed.bound id' v hid')]
          exact hg.types id' v hid'
  | @modify id vd hvd f hf =>
      intro id' v hid'
      by_cases hv : v = vd
      · rw [hv, modify_vertex_self (hg.wellFormed.bound id vd hvd)]
        exact hf.types _ (hg.types id vd hvd)
      · rw [modify_vertex_of_ne g hv]
        exact hg.types id' v hid'
  | addEdges => exact hg.types
  | setRootVertex => exact hg.types

/-- **What a step adds.** -/
theorem Step.adds (h : g.Step ids objects g') (hg : g.Identified) : g.Adds ids objects g' := by
  -- most steps bind nothing
  have hsame : ∀ {g' : Graph n}, g'.mIdentifierMap = g.mIdentifierMap →
      g'.identifiers = g.identifiers ∪ ([] : List Identifier).toFinset := by
    intro g' hmap
    rw [List.toFinset_nil, Finset.union_empty, identifiers, identifiers, hmap]
  cases h with
  | @addObject x hx =>
      refine ⟨hsame rfl, by simp, fun type _ => ?_⟩
      rw [ofType_eq, ofType_eq, Graph.addObject, List.filter_append]
  | addVertexId id =>
      rcases g.addVertexId_cases id with ⟨vd, hvd, heq⟩ | ⟨hnone, heq⟩
      · have hid : [id].toFinset ⊆ g.identifiers := by
          simpa using mem_identifiers.mpr ⟨vd, hvd⟩
        rw [heq]
        refine ⟨(Finset.union_eq_left.mpr hid).symm, ?_, fun type _ => by simp⟩
        rw [Finset.sdiff_eq_empty_iff_subset.mpr hid]
        rfl
      · have hid : id ∉ g.identifiers := by
          rw [mem_identifiers]
          rintro ⟨v, hv⟩
          rw [hnone] at hv
          cases hv
        rw [heq]
        refine ⟨?_, ?_, fun type htype => ?_⟩
        · rw [identifiers, AList.keys_insert]
          ext id'
          by_cases hid' : id' = id
          · simp [hid']
          · simp [hid', identifiers, List.mem_erase_of_ne]
        · have hnew : [id].toFinset \ g.identifiers = {id} := by
            rw [List.toFinset_cons, List.toFinset_nil, insert_empty_eq,
              Finset.sdiff_eq_self_iff_disjoint, Finset.disjoint_singleton_left]
            exact hid
          rw [hnew, Finset.card_singleton]
          exact addObject_numVertices g {}
        · have hnone : (Component.unknownComponentType).isA type = false := htype _ (by decide)
          rw [ofType_eq, ofType_eq, Graph.addObject, List.filter_append]
          simpa using hnone
  | @modify id vd hvd f hf =>
      refine ⟨hsame rfl, by simp, fun type htype => ?_⟩
      rw [ofType_eq, ofType_eq, Graph.modify, List.filter_nil, List.append_nil]
      refine filter_modify fun x hx => ?_
      have hvertex : g.vertex vd = x := by rw [vertex, hx, Option.getD_some]
      have htypes := hg.types id vd hvd
      rw [hvertex] at htypes
      exact ⟨htype _ htypes, htype _ (hf.types x htypes)⟩
  | addEdges => exact ⟨hsame rfl, by simp [numVertices], fun type _ => (List.append_nil _).symm⟩
  | setRootVertex =>
      refine ⟨hsame rfl, ?_, fun type _ => (List.append_nil _).symm⟩
      simp [numVertices, Graph.setRootVertex]

/-- **What several steps add.** -/
theorem Steps.adds (h : g.Steps ids objects g') (hg : g.Identified) :
    g.Adds ids objects g' ∧ g'.Identified := by
  induction h with
  | refl => exact ⟨.refl _, hg⟩
  | tail _ hstep ih => exact ⟨ih.1.trans (hstep.adds ih.2), hstep.identified ih.2⟩

end

end Graph

/-! ### What `init` adds -/

/-- **What `init` adds** to a graph: an identifier is bound if it was or if a module asks for
it, there is one vertex for each new identifier and for each object without one, and a view
by a type that no vertex with an identifier has shows the objects of this type after those
that it showed before. When `init` is run once more, no identifier is new, and the objects
get vertices once more. -/
theorem init_adds (S : StdSort VertexT) (S' : StdSort Module) {modules : List Module}
    {g g' : Graph n} (hg : g.Identified) {status : YlocStatus}
    (hrun : init S S' modules g = .ok (status, g')) :
    let sources := enabledSources (sortModules S' modules)
    let ids := sources.flatMap ModuleSource.identifiers
    let objects := sources.flatMap (ModuleSource.objectVertices n)
    g'.Identified ∧ g'.identifiers = g.identifiers ∪ ids.toFinset ∧
    g'.numVertices = g.numVertices + objects.length + (ids.toFinset \ g.identifiers).card ∧
    (∀ type : Component, type.Unidentified →
      g'.ofType type = g.ofType type ++ objects.filter fun x => x.mType.isA type) ∧
    ∀ status' g'', init S S' modules g' = .ok (status', g'') →
      g''.identifiers = g'.identifiers ∧ g''.numVertices = g'.numVertices + objects.length ∧
      ∀ type : Component, type.Unidentified →
        g''.ofType type = g'.ofType type ++ objects.filter fun x => x.mType.isA type := by
  intro sources ids objects
  obtain ⟨hadds, hg'⟩ := (init_steps hg.wellFormed hrun).adds hg
  refine ⟨hg', hadds.identifiers, hadds.numVertices, hadds.ofType, fun status' g'' hagain => ?_⟩
  obtain ⟨hadds', -⟩ := (init_steps hg'.wellFormed hagain).adds hg'
  -- the first run has bound what the second one asks for
  have hbound : ids.toFinset ⊆ g'.identifiers := by
    rw [hadds.identifiers]
    exact Finset.subset_union_right
  refine ⟨?_, ?_, hadds'.ofType⟩
  · rw [hadds'.identifiers]
    exact Finset.union_eq_left.mpr hbound
  · rw [hadds'.numVertices, Finset.sdiff_eq_empty_iff_subset.mpr hbound]
    rfl

lemma startedGraph_identified : startedGraph.Identified := by
  refine ⟨startedGraph_wellFormed, fun id v h => ?_⟩
  rw [(startedGraph_lookup h).2]
  decide

/-- hwloc finds a package and two cores, a second time too, and the machine and one GPU are
new. -/
theorem init_adds_startedGraph : ∃ status status', ∃ g' g'' : Graph 0,
    init .insertion .insertion [⟨.hwloc smallMachine, true⟩, ⟨.rocm linkedGpus, true⟩]
      startedGraph = .ok (status, g') ∧
    init .insertion .insertion [⟨.hwloc smallMachine, true⟩, ⟨.rocm linkedGpus, true⟩] g' =
      .ok (status', g'') ∧
    g'.numVertices = startedGraph.numVertices + 3 + 2 ∧
    g''.identifiers = g'.identifiers ∧ g''.numVertices = g'.numVertices + 3 ∧
    (g''.ofType .cpuCore).length = (g'.ofType .cpuCore).length + 2 := by
  let modules : List Module := [⟨.hwloc smallMachine, true⟩, ⟨.rocm linkedGpus, true⟩]
  obtain ⟨⟨status, g'⟩, ⟨status', g''⟩, hrun, hagain⟩ : ∃ result result' : YlocStatus × Graph 0,
      init .insertion .insertion modules startedGraph = .ok result ∧
      init .insertion .insertion modules result.2 = .ok result' := ⟨_, _, rfl, rfl⟩
  obtain ⟨-, -, hnum, -, hnext⟩ := init_adds .insertion .insertion startedGraph_identified hrun
  obtain ⟨hids, hnum', htype⟩ := hnext status' g'' hagain
  refine ⟨status, status', g', g'', hrun, hagain, hnum.trans ?_, hids, hnum', ?_⟩
  · decide
  · rw [htype .cpuCore (by decide), List.length_append]
    rfl

end Yloc
