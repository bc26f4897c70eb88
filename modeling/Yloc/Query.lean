import Yloc.Graph
import Yloc.Lib.Bfs

/-!
`query.h`: distances by breadth-first search.

`bfsDistanceVector` runs the search of BGL with the visitor of the source: on a
tree edge the distance of the target is computed from that of the source of the
edge. `bfsDistances` is the overload that counts edges.

* `bfsDistanceVector_fold`: the value at a vertex is the callback folded along a
  shortest path, and so are the values along that path.
* `bfsDistances_spec`, `bfsDistances_comm`: the overload returns the length of a
  shortest path, and is symmetric where every edge has an edge back.
-/

namespace Yloc

variable {n : ℕ}

/-- `edge_t`: an edge of the graph and its place in the edge list, which tells parallel
edges apart. -/
abbrev EdgeT := Edge × ℕ

/-- `boost::source`. -/
def EdgeT.source (e : EdgeT) : VertexT := e.1.source

/-- `boost::target`. -/
def EdgeT.target (e : EdgeT) : VertexT := e.1.target

namespace Graph

/-- `yloc::edge_range`. -/
def edgeRange (g : Graph n) : List EdgeT := g.edges.zipIdx

/-- `boost::out_edges`. -/
def outEdges (g : Graph n) (vd : VertexT) : List EdgeT :=
  g.edgeRange.filter fun e => EdgeT.source e == vd

/-- The edges of `p` lead from `u` to `v`. -/
abbrev Path (g : Graph n) (u : VertexT) (p : List EdgeT) (v : VertexT) : Prop :=
  IsPath g.outEdges EdgeT.target u p v

/-- The path `p` from `u` to `v` has the fewest edges. -/
def ShortestPath (g : Graph n) (u : VertexT) (p : List EdgeT) (v : VertexT) : Prop :=
  g.Path u p v ∧ ∀ q, g.Path u q v → p.length ≤ q.length

/-- Every edge has an edge back. -/
def Reversible (g : Graph n) : Prop :=
  ∀ e ∈ g.edges, ∃ e' ∈ g.edges, e'.source = e.target ∧ e'.target = e.source

lemma mem_outEdges {g : Graph n} {vd : VertexT} {e : EdgeT} :
    e ∈ g.outEdges vd ↔ e ∈ g.edgeRange ∧ e.source = vd := by
  simp [outEdges]

lemma mem_edges_of_mem_edgeRange {g : Graph n} {e : EdgeT} (h : e ∈ g.edgeRange) :
    e.1 ∈ g.edges := List.fst_mem_of_mem_zipIdx h

/-- Every edge has a place. -/
lemma exists_mem_edgeRange {g : Graph n} {e : Edge} (h : e ∈ g.edges) :
    ∃ i, (e, i) ∈ g.edgeRange := by
  obtain ⟨i, hi, rfl⟩ := List.getElem_of_mem h
  exact ⟨i, List.mk_mem_zipIdx_iff_getElem?.mpr (List.getElem?_eq_getElem hi)⟩

/-- In a reversible graph paths can be gone back. -/
lemma Reversible.path {g : Graph n} (h : g.Reversible) {u v : VertexT} {p : List EdgeT}
    (hp : g.Path u p v) : ∃ q, g.Path v q u ∧ q.length = p.length := by
  refine hp.reverse fun w e he => ?_
  obtain ⟨hmem, rfl⟩ := mem_outEdges.mp he
  obtain ⟨e', hmem', hsource, htarget⟩ := h e.1 (mem_edges_of_mem_edgeRange hmem)
  obtain ⟨i, hi⟩ := exists_mem_edgeRange hmem'
  exact ⟨(e', i), mem_outEdges.mpr ⟨hi, hsource⟩, htarget⟩

end Graph

/-- `bfs_distance_vector(graph, vstart, on_tree_edge)`, the vector being filled
with `t₀` before the search. -/
def bfsDistanceVector {T : Type} (g : Graph n) (vstart : VertexT) (t₀ : T)
    (onTreeEdge : EdgeT → T → T) : List T :=
  (List.range g.numVertices).map
    (bfs g.outEdges EdgeT.target onTreeEdge t₀ g.numVertices vstart).value

/-- `bfs_distance_vector(graph, vstart)`. The `int` of the source is an integer without
bounds, which is exact below 2^31 vertices. -/
def bfsDistances (g : Graph n) (vstart : VertexT) : List ℤ :=
  bfsDistanceVector g vstart 0 fun _ valPre => valPre + 1

section

variable {g : Graph n} {u v : VertexT}

/-- The search stays among the vertices. -/
lemma target_mem_range (hends : ∀ e ∈ g.edges, e.target < g.numVertices) (w : VertexT) :
    ∀ e ∈ g.outEdges w, e.target ∈ Finset.range g.numVertices := fun _ he =>
  Finset.mem_range.mpr (hends _ (Graph.mem_edges_of_mem_edgeRange (Graph.mem_outEdges.mp he).1))

/-- The end of a path exists. -/
lemma Graph.path_lt (hends : ∀ e ∈ g.edges, e.target < g.numVertices) (hu : u < g.numVertices)
    {p : List EdgeT} (hp : g.Path u p v) : v < g.numVertices := by
  cases hp with
  | nil => exact hu
  | @snoc p w e _ he => exact Finset.mem_range.mp (target_mem_range hends w e he)

/-- The value at a vertex is the callback folded along the path collected for it. -/
lemma bfsDistanceVector_getElem? {T : Type} (hv : v < g.numVertices) (t₀ : T)
    (onTreeEdge : EdgeT → T → T) :
    (bfsDistanceVector g u t₀ onTreeEdge)[v]? =
      some (((bfsPaths g.outEdges EdgeT.target g.numVertices u).value v).foldl
        (fun t e => onTreeEdge e t) t₀) := by
  rw [bfsDistanceVector, List.getElem?_map, List.getElem?_range hv, Option.map_some,
    bfs_value_eq_foldl]

/-- Counting edges along a path. -/
lemma foldl_count (p : List EdgeT) (k : ℤ) :
    p.foldl (fun t _ => t + 1) k = k + p.length := by
  induction p generalizing k with
  | nil => simp
  | cons e p ih =>
      rw [List.foldl_cons, ih, List.length_cons]
      push_cast
      ring

/-- **The distance is the number of edges of a shortest path**, and zero where
there is no path. -/
theorem bfsDistances_spec (hends : ∀ e ∈ g.edges, e.target < g.numVertices)
    (hu : u < g.numVertices) (hv : v < g.numVertices) :
    (∃ p, g.ShortestPath u p v ∧ (bfsDistances g u)[v]? = some (p.length : ℤ)) ∨
      (∀ p, ¬ g.Path u p v) ∧ (bfsDistances g u)[v]? = some 0 := by
  have hspec := bfs_correct (target_mem_range hends) (Finset.mem_range.mpr hu) v
  rw [Finset.card_range] at hspec
  have hvalue : (bfsDistances g u)[v]? =
      some (((bfsPaths g.outEdges EdgeT.target g.numVertices u).value v).length : ℤ) := by
    rw [bfsDistances, bfsDistanceVector_getElem? hv, foldl_count, zero_add]
  rcases hspec with hp | ⟨hnil, hnone⟩
  · exact .inl ⟨_, hp, hvalue⟩
  · rw [hnil] at hvalue
    exact .inr ⟨hnone, hvalue⟩

/-- The distance along any shortest path. -/
lemma bfsDistances_of_shortestPath (hends : ∀ e ∈ g.edges, e.target < g.numVertices)
    (hu : u < g.numVertices) (hv : v < g.numVertices) {p : List EdgeT}
    (hp : g.ShortestPath u p v) : (bfsDistances g u)[v]? = some (p.length : ℤ) := by
  rcases bfsDistances_spec hends hu hv with ⟨q, hq, hdist⟩ | ⟨hnone, -⟩
  · rw [hdist, le_antisymm (hq.2 p hp.1) (hp.2 q hq.1)]
  · exact absurd hp.1 (hnone p)

/-- **The values are folded along shortest paths**: for every vertex that is reachable
there is a shortest path along which every value is the callback folded so far, and the
overload that counts edges returns the length of that path. -/
theorem bfsDistanceVector_fold {T : Type} (hends : ∀ e ∈ g.edges, e.target < g.numVertices)
    (hu : u < g.numVertices) (hreach : ∃ q, g.Path u q v) (t₀ : T) (onTreeEdge : EdgeT → T → T) :
    ∃ p, g.ShortestPath u p v ∧
      (bfsDistanceVector g u t₀ onTreeEdge)[v]? = some (p.foldl (fun t e => onTreeEdge e t) t₀) ∧
      (∀ q w, q <+: p → g.Path u q w →
        (bfsDistanceVector g u t₀ onTreeEdge)[w]? =
          some (q.foldl (fun t e => onTreeEdge e t) t₀)) ∧
      (bfsDistances g u)[v]? = some (p.length : ℤ) := by
  obtain ⟨q, hq⟩ := hreach
  have hinv := bfsInv_bfsPaths g.outEdges EdgeT.target g.numVertices u
  have hfound := bfs_discovered (target_mem_range hends) (Finset.mem_range.mpr hu) hq
  have hshortest := bfs_correct (target_mem_range hends) (Finset.mem_range.mpr hu) v
  rw [Finset.card_range] at hfound hshortest
  -- the path collected for `v`
  let p := (bfsPaths g.outEdges EdgeT.target g.numVertices u).value v
  have hp : g.ShortestPath u p v := by
    rcases hshortest with hp | ⟨-, hnone⟩
    · exact hp
    · exact absurd hq (hnone q)
  have hv := Graph.path_lt hends hu hq
  refine ⟨p, hp, bfsDistanceVector_getElem? hv t₀ onTreeEdge, fun q' w hprefix hq' => ?_, ?_⟩
  · have hvalue := (hinv.beginning hfound.1 hprefix hq').2
    rw [bfsDistanceVector_getElem? (Graph.path_lt hends hu hq'), hvalue]
  · rw [bfsDistances, bfsDistanceVector_getElem? hv, foldl_count, zero_add]

/-- A loop, two parallel edges and a cycle. -/
def parallelGraph : Graph 0 where
  vertices := [{}, {}, {}]
  edges := [⟨0, 0, .child⟩, ⟨0, 1, .child⟩, ⟨0, 1, .child⟩, ⟨1, 2, .child⟩, ⟨2, 0, .parent⟩]

lemma parallelGraph_path : parallelGraph.Path 0 [(⟨0, 1, .child⟩, 1), (⟨1, 2, .child⟩, 3)] 2 :=
  .snoc (.snoc (p := []) .nil (show (⟨⟨0, 1, .child⟩, 1⟩ : EdgeT) ∈ _ by decide))
    (show (⟨⟨1, 2, .child⟩, 3⟩ : EdgeT) ∈ _ by decide)

/-- A callback that tells parallel edges apart. -/
theorem bfsDistanceVector_fold_parallelGraph :
    ∃ p, parallelGraph.ShortestPath 0 p 2 ∧
      (bfsDistanceVector parallelGraph 0 1 fun e t => 10 * t + e.2)[2]? =
        some (p.foldl (fun t e => 10 * t + e.2) 1) ∧
      (∀ q w, q <+: p → parallelGraph.Path 0 q w →
        (bfsDistanceVector parallelGraph 0 1 fun e t => 10 * t + e.2)[w]? =
          some (q.foldl (fun t e => 10 * t + e.2) 1)) ∧
      (bfsDistances parallelGraph 0)[2]? = some (p.length : ℤ) :=
  bfsDistanceVector_fold (by decide) (by decide) ⟨_, parallelGraph_path⟩ 1 _

/-- In a reversible graph a shortest path turned round is a shortest path. -/
lemma Graph.Reversible.shortestPath (h : g.Reversible) {p : List EdgeT}
    (hp : g.ShortestPath u p v) : ∃ q, g.ShortestPath v q u ∧ q.length = p.length := by
  obtain ⟨q, hq, hlength⟩ := h.path hp.1
  refine ⟨q, ⟨hq, fun r hr => ?_⟩, hlength⟩
  obtain ⟨r', hr', hlength'⟩ := h.path hr
  calc q.length = p.length := hlength
    _ ≤ r'.length := hp.2 r' hr'
    _ = r.length := hlength'

/-- **In a reversible graph distances are symmetric.** -/
theorem bfsDistances_comm (h : g.Reversible) (hends : ∀ e ∈ g.edges, e.target < g.numVertices)
    (hu : u < g.numVertices) (hv : v < g.numVertices) :
    (bfsDistances g u)[v]? = (bfsDistances g v)[u]? := by
  rcases bfsDistances_spec hends hu hv with ⟨p, hp, hdist⟩ | ⟨hnone, hdist⟩
  · obtain ⟨q, hq, hlength⟩ := h.shortestPath hp
    rw [hdist, bfsDistances_of_shortestPath hends hv hu hq, hlength]
  · rcases bfsDistances_spec hends hv hu with ⟨q, hq, -⟩ | ⟨-, hdist'⟩
    · obtain ⟨p, hp, -⟩ := h.path hq.1
      exact absurd hp (hnone p)
    · rw [hdist, hdist']

end

end Yloc
