import Yloc.Query

/-!
`boost::filtered_graph` and the templates that take one.

The algorithms of `util.h` and `query.h` are templates over the concepts of BGL. A
`GraphView` is what a graph offers through them; `Graph.view` is the graph itself and
`GraphView.filter` a filtered graph, of a graph or of a filtered graph. As the comment of
`num_vertices_view` says, `boost::num_vertices` of a filtered graph is that of the graph
below.

* `filter_filter`: a view of a view is the view with both predicates.
* `filter_path`: the paths of a view are those of the graph that it keeps.
* `Graph.view_bfsDistances`: the search in the view of the whole graph is that of
  `Yloc.bfsDistances`.
* `bfsDistances_filter`: the distances in a view.
* `childTargets_eq`: the view of CHILD edges that `lowest_containing_vertex` takes.
-/

namespace Yloc

variable {n : ℕ}

/-- What the algorithms see of a graph. -/
structure GraphView where
  /-- `boost::num_vertices` -/
  numVertices : ℕ
  /-- `boost::vertices`, `yloc::vertex_range` -/
  vertexRange : List VertexT
  /-- `boost::edges`, `yloc::edge_range` -/
  edgeRange : List EdgeT
  /-- `boost::out_edges` -/
  outEdges : VertexT → List EdgeT

/-- The graph itself. -/
def Graph.view (g : Graph n) : GraphView where
  numVertices := g.numVertices
  vertexRange := List.range g.numVertices
  edgeRange := g.edgeRange
  outEdges := g.outEdges

/-- `boost::keep_all`. -/
def keepAll {α : Type} : α → Bool := fun _ => true

namespace GraphView

/-- `boost::make_filtered_graph(view, edgePredicate, vertexPredicate)`. -/
def filter (view : GraphView) (edgePredicate : EdgeT → Bool) (vertexPredicate : VertexT → Bool) :
    GraphView where
  numVertices := view.numVertices
  vertexRange := view.vertexRange.filter vertexPredicate
  edgeRange := view.edgeRange.filter fun e =>
    edgePredicate e && (vertexPredicate e.source && vertexPredicate e.target)
  outEdges vd := (view.outEdges vd).filter fun e => edgePredicate e && vertexPredicate e.target

/-- `num_vertices_view`. -/
def numVerticesView (view : GraphView) : ℕ := view.vertexRange.foldl (fun count _ => count + 1) 0

/-- `bfs_distance_vector(view, vstart, on_tree_edge)`. -/
def bfsDistanceVector {T : Type} (view : GraphView) (vstart : VertexT) (t₀ : T)
    (onTreeEdge : EdgeT → T → T) : List T :=
  (List.range view.numVertices).map
    (bfs view.outEdges EdgeT.target onTreeEdge t₀ view.numVertices vstart).value

/-- `bfs_distance_vector(view, vstart)`. -/
def bfsDistances (view : GraphView) (vstart : VertexT) : List ℤ :=
  view.bfsDistanceVector vstart 0 fun _ valPre => valPre + 1

/-- The edges of `p` lead from `u` to `v`, in the view. -/
abbrev Path (view : GraphView) (u : VertexT) (p : List EdgeT) (v : VertexT) : Prop :=
  IsPath view.outEdges EdgeT.target u p v

/-- No path of the view from `u` to `v` has fewer edges than `p`. -/
def ShortestPath (view : GraphView) (u : VertexT) (p : List EdgeT) (v : VertexT) : Prop :=
  view.Path u p v ∧ ∀ q, view.Path u q v → p.length ≤ q.length

variable {view : GraphView} {edgePredicate edgePredicate' : EdgeT → Bool}
  {vertexPredicate vertexPredicate' : VertexT → Bool} {u v : VertexT}

@[simp] lemma numVerticesView_eq (view : GraphView) :
    view.numVerticesView = view.vertexRange.length := by
  have hcount : ∀ (l : List VertexT) (k : ℕ),
      l.foldl (fun count _ => count + 1) k = k + l.length := by
    intro l
    induction l with
    | nil => exact fun _ => rfl
    | cons a l ih =>
        intro k
        rw [List.foldl_cons, ih, List.length_cons]
        omega
  rw [numVerticesView, hcount, zero_add]

/-- **A view of a view** keeps what both of them keep. -/
theorem filter_filter (view : GraphView) (edgePredicate edgePredicate' : EdgeT → Bool)
    (vertexPredicate vertexPredicate' : VertexT → Bool) :
    (view.filter edgePredicate vertexPredicate).filter edgePredicate' vertexPredicate' =
      view.filter (fun e => edgePredicate e && edgePredicate' e)
        (fun v => vertexPredicate v && vertexPredicate' v) := by
  have hedges : ∀ e : EdgeT,
      ((edgePredicate' e && (vertexPredicate' e.source && vertexPredicate' e.target)) &&
        (edgePredicate e && (vertexPredicate e.source && vertexPredicate e.target))) =
      ((edgePredicate e && edgePredicate' e) &&
        ((vertexPredicate e.source && vertexPredicate' e.source) &&
          (vertexPredicate e.target && vertexPredicate' e.target))) := by
    intro e
    grind
  have hout : ∀ e : EdgeT,
      ((edgePredicate' e && vertexPredicate' e.target) &&
        (edgePredicate e && vertexPredicate e.target)) =
      ((edgePredicate e && edgePredicate' e) &&
        (vertexPredicate e.target && vertexPredicate' e.target)) := by
    intro e
    grind
  simp only [filter, List.filter_filter, hedges, hout]
  congr 1
  exact List.filter_congr fun v _ => Bool.and_comm _ _

lemma mem_vertexRange_filter : v ∈ (view.filter edgePredicate vertexPredicate).vertexRange ↔
    v ∈ view.vertexRange ∧ vertexPredicate v = true := List.mem_filter

/-- **The paths of a view** are those along edges that it keeps, to vertices that it
keeps. -/
theorem filter_path {p : List EdgeT} :
    (view.filter edgePredicate vertexPredicate).Path u p v ↔
      view.Path u p v ∧ ∀ e ∈ p, edgePredicate e = true ∧ vertexPredicate e.target = true := by
  constructor
  · intro hp
    induction hp with
    | nil => exact ⟨.nil, by simp⟩
    | snoc _ he ih =>
        obtain ⟨he, hkept⟩ := List.mem_filter.mp he
        rw [Bool.and_eq_true] at hkept
        refine ⟨ih.1.snoc he, fun e' he' => ?_⟩
        rcases List.mem_append.mp he' with he' | he'
        · exact ih.2 e' he'
        · rw [List.mem_singleton.mp he']
          exact hkept
  · rintro ⟨hp, hkept⟩
    induction hp with
    | nil => exact .nil
    | snoc _ he ih =>
        refine (ih fun e' he' => hkept e' (List.mem_append_left _ he')).snoc ?_
        refine List.mem_filter.mpr ⟨he, ?_⟩
        rw [Bool.and_eq_true]
        exact hkept _ (by simp)

end GraphView

/-! ### Distances in a view -/

/-- A search in a view finds shortest paths of the view. -/
lemma GraphView.bfsDistances_spec (view : GraphView)
    (hends : ∀ w, ∀ e ∈ view.outEdges w, e.target < view.numVertices) {u v : VertexT}
    (hu : u < view.numVertices) (hv : v < view.numVertices) :
    (∃ p, view.ShortestPath u p v ∧ (view.bfsDistances u)[v]? = some (p.length : ℤ)) ∨
      (∀ p, ¬ view.Path u p v) ∧ (view.bfsDistances u)[v]? = some 0 := by
  have hrange : ∀ w, ∀ e ∈ view.outEdges w, e.target ∈ Finset.range view.numVertices :=
    fun w e he => Finset.mem_range.mpr (hends w e he)
  have hspec := bfs_correct hrange (Finset.mem_range.mpr hu) v
  rw [Finset.card_range] at hspec
  have hvalue : (view.bfsDistances u)[v]? =
      some (((bfsPaths view.outEdges EdgeT.target view.numVertices u).value v).length : ℤ) := by
    rw [bfsDistances, bfsDistanceVector, List.getElem?_map, List.getElem?_range hv,
      Option.map_some, bfs_value_eq_foldl, foldl_count, zero_add]
  rcases hspec with hp | ⟨hnil, hnone⟩
  · exact .inl ⟨_, hp, hvalue⟩
  · rw [hnil] at hvalue
    exact .inr ⟨hnone, hvalue⟩

/-- The template on the view of the whole graph is that on the graph. -/
lemma Graph.view_bfsDistanceVector {T : Type} (g : Graph n) (vstart : VertexT) (t₀ : T)
    (onTreeEdge : EdgeT → T → T) :
    g.view.bfsDistanceVector vstart t₀ onTreeEdge = Yloc.bfsDistanceVector g vstart t₀ onTreeEdge :=
  rfl

lemma Graph.view_bfsDistances (g : Graph n) (vstart : VertexT) :
    g.view.bfsDistances vstart = Yloc.bfsDistances g vstart :=
  g.view_bfsDistanceVector vstart 0 _

section

variable {g : Graph n} {u v : VertexT}

lemma Graph.view_path {p : List EdgeT} : g.view.Path u p v ↔ g.Path u p v := Iff.rfl

lemma Graph.view_shortestPath {p : List EdgeT} :
    g.view.ShortestPath u p v ↔ g.ShortestPath u p v := Iff.rfl

/-- **Distances in a view** are lengths of shortest paths among those that it keeps, so
that they are nowhere shorter than in the graph. A vertex that the kept paths do not reach
has distance zero, also where the graph has a path to it. -/
theorem bfsDistances_filter (hends : ∀ e ∈ g.edges, e.target < g.numVertices)
    (hu : u < g.numVertices) (hv : v < g.numVertices) (edgePredicate : EdgeT → Bool)
    (vertexPredicate : VertexT → Bool) :
    (∀ p, g.Path u p v → (∀ e ∈ p, edgePredicate e = true ∧ vertexPredicate e.target = true) →
      ∃ q d, ((g.view.filter edgePredicate vertexPredicate).bfsDistances u)[v]? =
          some (q.length : ℤ) ∧ q.length ≤ p.length ∧ g.Path u q v ∧
        (∀ e ∈ q, edgePredicate e = true ∧ vertexPredicate e.target = true) ∧
        (bfsDistances g u)[v]? = some d ∧ d ≤ q.length) ∧
    ((∀ p, g.Path u p v → ∃ e ∈ p, edgePredicate e = false ∨ vertexPredicate e.target = false) →
      ((g.view.filter edgePredicate vertexPredicate).bfsDistances u)[v]? = some 0) := by
  have hview : ∀ w, ∀ e ∈ g.view.outEdges w, e.target < g.view.numVertices := fun w e he =>
    Finset.mem_range.mp (target_mem_range hends w e he)
  have hspec := GraphView.bfsDistances_spec (g.view.filter edgePredicate vertexPredicate)
    (fun w e he => hview w e (List.mem_filter.mp he).1) hu hv
  constructor
  · intro p hp hkept
    have hpath : (g.view.filter edgePredicate vertexPredicate).Path u p v :=
      GraphView.filter_path.mpr ⟨Graph.view_path.mpr hp, hkept⟩
    rcases hspec with ⟨q, hq, hdist⟩ | ⟨hnone, -⟩
    · obtain ⟨hqpath, hqkept⟩ := GraphView.filter_path.mp hq.1
      rw [Graph.view_path] at hqpath
      -- the same search in the whole graph
      rcases GraphView.bfsDistances_spec g.view hview hu hv with ⟨r, hr, hdist'⟩ | ⟨hnone', -⟩
      · rw [Graph.view_shortestPath] at hr
        rw [Graph.view_bfsDistances] at hdist'
        exact ⟨q, r.length, hdist, hq.2 p hpath, hqpath, hqkept, hdist',
          by exact_mod_cast hr.2 q hqpath⟩
      · exact absurd (Graph.view_path.mpr hp) (hnone' p)
    · exact absurd hpath (hnone p)
  · intro hcut
    rcases hspec with ⟨q, hq, -⟩ | ⟨-, hzero⟩
    · obtain ⟨hqpath, hqkept⟩ := GraphView.filter_path.mp hq.1
      obtain ⟨e, he, hcut⟩ := hcut q hqpath
      obtain ⟨hedge, hvertex⟩ := hqkept e he
      rw [hedge, hvertex] at hcut
      rcases hcut with h | h <;> cases h
    · exact hzero

/-- The paths along CHILD edges in a graph with a cycle. -/
theorem bfsDistances_filter_parallelGraph :
    (∀ p : List EdgeT, parallelGraph.Path 0 p 2 →
      (∀ e ∈ p, (e.1.label == .child) = true ∧ keepAll e.target = true) →
      ∃ (q : List EdgeT) (d : ℤ),
        ((parallelGraph.view.filter (fun e => e.1.label == .child) keepAll).bfsDistances 0)[2]? =
          some (q.length : ℤ) ∧ q.length ≤ p.length ∧ parallelGraph.Path 0 q 2 ∧
        (∀ e ∈ q, (e.1.label == .child) = true ∧ keepAll e.target = true) ∧
        (bfsDistances parallelGraph 0)[2]? = some d ∧ d ≤ q.length) ∧
    ((∀ p : List EdgeT, parallelGraph.Path 0 p 2 →
        ∃ e ∈ p, (e.1.label == .child) = false ∨ keepAll e.target = false) →
      ((parallelGraph.view.filter (fun e => e.1.label == .child) keepAll).bfsDistances 0)[2]? =
        some 0) :=
  bfsDistances_filter (g := parallelGraph) (by decide) (by decide) (by decide) _ _

end

/-! ### The views of the program -/

/-- The view of the CHILD edges, as in `lowest_containing_vertex`. -/
def Graph.childView (g : Graph n) : GraphView :=
  g.view.filter (fun e => e.1.label == .child) keepAll

/-- `boost::make_filtered_graph(g, boost::keep_all{}, …)` for the vertices `v` with
`g[v].is_a<type>()`. -/
def Graph.typeView (g : Graph n) (type : Component) : GraphView :=
  g.view.filter keepAll fun v => (g.vertex v).mType.isA type

/-- The targets of the edges out of a vertex in the view of the CHILD edges. -/
theorem Graph.childTargets_eq (g : Graph n) (vd : VertexT) :
    g.childTargets vd = (g.childView.outEdges vd).map EdgeT.target := by
  have hedges : g.edges.filter (fun e => e.source == vd && e.label == .child) =
      (g.childView.outEdges vd).map Prod.fst := by
    conv_lhs => rw [← List.zipIdx_map_fst 0 g.edges, List.filter_map]
    change _ = ((g.outEdges vd).filter _).map Prod.fst
    rw [outEdges, edgeRange, List.filter_filter]
    congr 1
    refine List.filter_congr fun e _ => ?_
    simp [keepAll, EdgeT.source, Bool.and_comm]
  rw [childTargets, hedges, List.map_map]
  rfl

lemma Graph.nodup_typeView (g : Graph n) (type : Component) :
    (g.typeView type).vertexRange.Nodup := List.nodup_range.filter _

lemma Graph.mem_typeView {g : Graph n} {type : Component} {v : VertexT} :
    v ∈ (g.typeView type).vertexRange ↔
      v < g.numVertices ∧ (g.vertex v).mType.isA type = true := by
  rw [typeView, GraphView.mem_vertexRange_filter, view, List.mem_range]

end Yloc
