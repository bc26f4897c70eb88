import Yloc.HopDistance
import Yloc.Lib.Forest

/-!
Hop distances without GPU interconnects are distances in a forest.

CHILD and PARENT edges mirror one another and give no vertex two parents, so a path
along them is a walk in a forest (`exists_walk_of_path`), and the other way round
(`exists_path_of_walk`).

* `Graph.TopologyShape.bfsDistances_meet`: the distance of two vertices is the number of
  steps up to the lowest vertex above both and down again, and all shortest paths go that
  way.
* `bfsDistances_tree`: the same for the graphs that the modules leave.
-/

namespace Yloc

variable {n : ℕ}

/-- The type of an edge in a direction of the forest. -/
def Dir.edgeType : Dir → EdgeType
  | .up => .parent
  | .down => .child

/-- The types of the edges of a path. -/
def edgeTypes (p : List EdgeT) : List EdgeType := p.map fun e => e.1.label

/-- Every edge is a CHILD or a PARENT edge. -/
def Graph.TreeEdges (g : Graph n) : Prop := ∀ e ∈ g.edges, e.label = .child ∨ e.label = .parent

namespace Graph.TopologyShape

variable {g : Graph n} {u v w : VertexT} {i j : ℕ}

/-- The CHILD edges are a forest. -/
lemma forest (h : g.TopologyShape) : Forest g.Child where
  parent _ _ _ ha ha' := Arc.source_unique h.parent ha ha'
  acyclic := h.acyclic

/-- A path is a walk in the forest. -/
lemma exists_walk_of_path (h : g.TopologyShape) (htree : g.TreeEdges) {p : List EdgeT}
    (hp : g.Path u p v) : ∃ ds, Walk g.Child u ds v ∧ edgeTypes p = ds.map Dir.edgeType := by
  induction hp with
  | nil => exact ⟨[], .nil, rfl⟩
  | @snoc p w e _ he ih =>
      obtain ⟨ds, hwalk, htypes⟩ := ih
      obtain ⟨hmem, rfl⟩ := mem_outEdges.mp he
      have hedge := mem_edges_of_mem_edgeRange hmem
      rcases htree _ hedge with hlabel | hlabel
      · have hchild : g.Child e.source e.target := by
          rw [Graph.Child, Arc.Step, ← hlabel]
          exact hedge
        refine ⟨ds ++ [.down], hwalk.down hchild, ?_⟩
        simp only [edgeTypes, List.map_append, List.map_cons, List.map_nil, hlabel] at htypes ⊢
        rw [htypes]
        rfl
      · have hparent : Arc.Step .parent g.edges e.source e.target := by
          rw [Arc.Step, ← hlabel]
          exact hedge
        refine ⟨ds ++ [.up], hwalk.up (h.mirrored.step_iff.mpr hparent), ?_⟩
        simp only [edgeTypes, List.map_append, List.map_cons, List.map_nil, hlabel] at htypes ⊢
        rw [htypes]
        rfl

/-- A walk in the forest is a path. -/
lemma exists_path_of_walk (h : g.TopologyShape) {ds : List Dir} (hwalk : Walk g.Child u ds v) :
    ∃ p, g.Path u p v ∧ edgeTypes p = ds.map Dir.edgeType := by
  -- an edge at the end of a path
  have hsnoc : ∀ {p : List EdgeT} {a b : VertexT} {l : EdgeType}, g.Path u p a →
      (⟨a, b, l⟩ : Edge) ∈ g.edges → ∃ e : EdgeT, g.Path u (p ++ [e]) b ∧ e.1.label = l := by
    intro p a b l hp hedge
    obtain ⟨k, hk⟩ := exists_mem_edgeRange hedge
    exact ⟨(⟨a, b, l⟩, k), .snoc hp (mem_outEdges.mpr ⟨hk, rfl⟩), rfl⟩
  induction hwalk with
  | nil => exact ⟨[], .nil, rfl⟩
  | up _ hr ih =>
      obtain ⟨p, hp, htypes⟩ := ih
      obtain ⟨e, hp', hlabel⟩ := hsnoc hp (h.mirrored.step_iff.mp hr)
      refine ⟨p ++ [e], hp', ?_⟩
      simp only [edgeTypes, List.map_append, List.map_cons, List.map_nil, hlabel] at htypes ⊢
      rw [htypes]
      rfl
  | down _ hr ih =>
      obtain ⟨p, hp, htypes⟩ := ih
      obtain ⟨e, hp', hlabel⟩ := hsnoc hp hr
      refine ⟨p ++ [e], hp', ?_⟩
      simp only [edgeTypes, List.map_append, List.map_cons, List.map_nil, hlabel] at htypes ⊢
      rw [htypes]
      rfl

/-- **The shortest paths between vertices that meet** go up to the vertex in which they
meet and down from it. -/
theorem shortestPath_meet (h : g.TopologyShape) (htree : g.TreeEdges)
    (hmeet : Meet g.Child u v w i j) :
    (∃ p, g.ShortestPath u p v) ∧ ∀ p, g.ShortestPath u p v →
      p.length = i + j ∧ edgeTypes p = List.replicate i .parent ++ List.replicate j .child := by
  obtain ⟨hover, hleast⟩ := h.forest.walk_spec hmeet
  obtain ⟨p₀, hp₀, htypes₀⟩ := h.exists_path_of_walk hover
  have hlength : ∀ {p : List EdgeT} {ds : List Dir}, edgeTypes p = ds.map Dir.edgeType →
      p.length = ds.length := fun htypes => by simpa [edgeTypes] using congrArg List.length htypes
  have hlength₀ : p₀.length = i + j := by rw [hlength htypes₀, length_overTop]
  refine ⟨⟨p₀, hp₀, fun q hq => ?_⟩, fun p hp => ?_⟩
  · obtain ⟨ds, hwalk, htypes⟩ := h.exists_walk_of_path htree hq
    rw [hlength₀, hlength htypes]
    exact (hleast ds hwalk).1
  · obtain ⟨ds, hwalk, htypes⟩ := h.exists_walk_of_path htree hp.1
    have hle := hp.2 p₀ hp₀
    rw [hlength₀, hlength htypes] at hle
    have hds := le_antisymm hle (hleast ds hwalk).1
    refine ⟨by rw [hlength htypes, hds], ?_⟩
    rw [htypes, (hleast ds hwalk).2 hds, overTop, List.map_append, List.map_replicate,
      List.map_replicate]
    rfl

/-- Paths join the vertices that meet. -/
lemma exists_path_iff (h : g.TopologyShape) (htree : g.TreeEdges) :
    (∃ p, g.Path u p v) ↔ ∃ w i j, Meet g.Child u v w i j := by
  rw [← h.forest.exists_walk_iff]
  constructor
  · rintro ⟨p, hp⟩
    obtain ⟨ds, hwalk, -⟩ := h.exists_walk_of_path htree hp
    exact ⟨ds, hwalk⟩
  · rintro ⟨ds, hwalk⟩
    obtain ⟨p, hp, -⟩ := h.exists_path_of_walk hwalk
    exact ⟨p, hp⟩

/-- **The distance of two vertices** is the number of steps up to the vertex in which they
meet and down again; vertices that do not meet are at distance zero. -/
theorem bfsDistances_meet (h : g.TopologyShape) (htree : g.TreeEdges)
    (hends : ∀ e ∈ g.edges, e.target < g.numVertices) (hu : u < g.numVertices)
    (hv : v < g.numVertices) :
    (∀ w i j, Meet g.Child u v w i j → (bfsDistances g u)[v]? = some ((i + j : ℕ) : ℤ)) ∧
      ((¬ ∃ w i j, Meet g.Child u v w i j) → (bfsDistances g u)[v]? = some 0) := by
  refine ⟨fun w i j hmeet => ?_, fun hnone => ?_⟩
  · obtain ⟨⟨p, hp⟩, hshortest⟩ := h.shortestPath_meet htree hmeet
    rw [bfsDistances_of_shortestPath hends hu hv hp, (hshortest p hp).1]
  · rcases bfsDistances_spec hends hu hv with ⟨p, hp, -⟩ | ⟨-, hdist⟩
    · exact absurd ((h.exists_path_iff htree).mp ⟨p, hp.1⟩) hnone
    · exact hdist

end Graph.TopologyShape

/-! ### The graphs that the modules leave -/

/-- Without GPU interconnects every edge of the graph is a CHILD or a PARENT edge. -/
lemma Represents.treeEdges {φ : Key → Option VertexT} {g : Graph n} {ops : List (TopologyOp n)}
    (h : Represents φ g (Topology.run ops Keyed.empty))
    (hlinks : ∀ e ∈ g.edges, e.label ≠ .gpuInterconnect) : g.TreeEdges := by
  intro e he
  obtain ⟨a, b, -, -, hab⟩ := h.exists_of_step (l := e.label) he
  rcases Topology.label_of_run hab with hnone | hlabel | hlabel | ⟨hlabel, -⟩
  · cases hnone
  · exact .inl hlabel
  · exact .inr hlabel
  · exact absurd hlabel (hlinks e he)

/-- A run without linked GPUs leaves a forest. -/
lemma SourcesOk.treeShape {sources : List ModuleSource} (h : SourcesOk sources)
    {S : StdSort VertexT} {source : MpiSource} {g : Graph n}
    (hrun : runSources S (sources ++ [.mpi source]) {} = .ok g)
    (hlinks : ∀ e ∈ g.edges, e.label ≠ .gpuInterconnect) :
    g.TopologyShape ∧ g.TreeEdges ∧ ∀ e ∈ g.edges, e.target < g.numVertices := by
  obtain ⟨g', hrun', hshape⟩ := h.topologyShape (n := n) S source
  obtain rfl : g' = g := Except.ok.inj (hrun'.symm.trans hrun)
  obtain ⟨φ, φ', g₀, place, -, -, -, hadv, -, -, -⟩ := runMpi_advance h.first hrun
  exact ⟨hshape, hadv.rep.treeEdges hlinks, fun e he => (hadv.rep.wellFormed.ends e he).2⟩

/-- **Hop distances are distances in the forest of the topology**: after the modules of
order FIRST and `ModuleMPI`, and where no GPUs are linked, two vertices are as far from one
another as they are from the lowest vertex above both, together, and every shortest path
goes up to it and down again. Where there is no such vertex the distance is zero, and there
is no path. -/
theorem bfsDistances_tree {sources : List ModuleSource} (h : SourcesOk sources)
    {S : StdSort VertexT} {source : MpiSource} {g : Graph n}
    (hrun : runSources S (sources ++ [.mpi source]) {} = .ok g)
    (hlinks : ∀ e ∈ g.edges, e.label ≠ .gpuInterconnect) :
    ∀ u < g.numVertices, ∀ v < g.numVertices,
      (∀ w i j, Meet g.Child u v w i j →
        (bfsDistances g u)[v]? = some ((i + j : ℕ) : ℤ) ∧ ∀ p, g.ShortestPath u p v →
          edgeTypes p = List.replicate i .parent ++ List.replicate j .child) ∧
      ((¬ ∃ w i j, Meet g.Child u v w i j) →
        (bfsDistances g u)[v]? = some 0 ∧ ∀ p, ¬ g.Path u p v) := by
  obtain ⟨hshape, htree, hends⟩ := h.treeShape hrun hlinks
  intro u hu v hv
  obtain ⟨hdist, hzero⟩ := hshape.bfsDistances_meet htree hends hu hv
  refine ⟨fun w i j hmeet => ⟨hdist w i j hmeet, fun p hp => ?_⟩, fun hnone => ⟨hzero hnone, ?_⟩⟩
  · exact ((hshape.shortestPath_meet htree hmeet).2 p hp).2
  · exact fun p hp => hnone ((hshape.exists_path_iff htree).mp ⟨p, hp⟩)

lemma smallSources_ok : SourcesOk [.superMUC smallSystem, .hwloc smallMachine] where
  first := by simp [ModuleSource.IsFirst]
  kinds := by decide
  bdfids hw hmem := by
    simp only [List.mem_cons, reduceCtorEq, ModuleSource.hwloc.injEq, List.not_mem_nil, or_false,
      false_or] at hmem
    rw [hmem]
    exact smallMachine_distinctBdfids
  hostnames sm hmem := by
    simp only [List.mem_cons, ModuleSource.superMUC.injEq, reduceCtorEq, List.not_mem_nil,
      or_false] at hmem
    rw [hmem]
    decide

theorem bfsDistances_tree_smallMachine : ∃ g : Graph 2,
    runSources .insertion ([.superMUC smallSystem, .hwloc smallMachine] ++ [.mpi twoRanks]) {} =
      .ok g ∧
    ∀ u < g.numVertices, ∀ v < g.numVertices,
      (∀ w i j, Meet g.Child u v w i j →
        (bfsDistances g u)[v]? = some ((i + j : ℕ) : ℤ) ∧ ∀ p, g.ShortestPath u p v →
          edgeTypes p = List.replicate i .parent ++ List.replicate j .child) ∧
      ((¬ ∃ w i j, Meet g.Child u v w i j) →
        (bfsDistances g u)[v]? = some 0 ∧ ∀ p, ¬ g.Path u p v) := by
  obtain ⟨g, hrun, -⟩ := smallSources_ok.exists_runMpi (n := 2) .insertion twoRanks
  have hlinks : (runSources .insertion ([.superMUC smallSystem, .hwloc smallMachine] ++
      [.mpi twoRanks]) {}).toOption.map
        (fun g : Graph 2 => g.edges.all fun e => decide (e.label ≠ .gpuInterconnect)) =
      some true := by decide +kernel
  rw [hrun] at hlinks
  simp only [Except.toOption, Option.map_some, Option.some.injEq, List.all_eq_true,
    decide_eq_true_eq] at hlinks
  exact ⟨g, hrun, bfsDistances_tree smallSources_ok hrun hlinks⟩

end Yloc
