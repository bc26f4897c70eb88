import Yloc.Lib.Dijkstra
import Yloc.Query

/-!
`query.h`: weighted shortest paths.

* `makeEdgeWeightMap`, `dijkstraPathDistanceVector`: the functions of the source. The
  algorithm of BGL is that of `Lib.Dijkstra`, with the out-edges of the graph and the
  weights read from the map.
* `makeEdgeWeightMap_toList`: the map has one entry for each edge, although parallel edges
  have the same hash.
* `LeastSums`: what the distances and the predecessors are to be.
* `dijkstraPathDistanceVector_leastSums`: they are, when no sum on the way goes beyond the
  maximum of the type. Simple paths are not enough for this (`not_leastSums_heavyLoop`):
  the algorithm also adds up edges that lead back.
* `dijkstra_between_hops`: the distances and the numbers of hops of `bfs_distance_vector`.
-/

namespace Yloc

open ArithmeticType

variable {n : ℕ}

/-- `std::hash<yloc::edge_t>`. -/
instance : Hashable EdgeT := ⟨fun f => hash f.source ^^^ (hash f.target <<< 1)⟩

section

variable {T : Type}

/-- `make_edge_weight_map`. -/
def makeEdgeWeightMap (g : Graph n) (edgeWeightFn : EdgeT → T) : Std.HashMap EdgeT T :=
  g.edgeRange.foldl (fun edgeWeightMap e => edgeWeightMap.insert e (edgeWeightFn e)) ∅

variable [LT T] [DecidableLT T] [Add T] [Zero T] [DecidableEq T] [ArithmeticType T]

/-- `dijkstra_path_distance_vector`: the predecessors and the distances. -/
def dijkstraPathDistanceVector (Q : ExtractMin VertexT T) (g : Graph n) (vstart : VertexT)
    (edgeWeightMap : Std.HashMap EdgeT T) : List VertexT × List T :=
  let st := dijkstra Q g.outEdges EdgeT.target (fun e => (edgeWeightMap[e]?).getD 0)
    g.numVertices vstart
  ((List.range g.numVertices).map st.predecessor, (List.range g.numVertices).map st.distance)

end

/-! ### The map -/

section

variable {T : Type}

lemma getElem?_foldl_insert (edgeWeightFn : EdgeT → T) (es : List EdgeT)
    (m : Std.HashMap EdgeT T) (e : EdgeT) :
    (es.foldl (fun m e => m.insert e (edgeWeightFn e)) m)[e]? =
      if e ∈ es then some (edgeWeightFn e) else m[e]? := by
  induction es generalizing m with
  | nil => simp
  | cons e' es ih =>
      rw [List.foldl_cons, ih, Std.HashMap.getElem?_insert]
      by_cases hes : e ∈ es
      · rw [if_pos hes, if_pos (List.mem_cons_of_mem _ hes)]
      · rw [if_neg hes]
        by_cases he : e' = e
        · subst he
          rw [if_pos (beq_self_eq_true e'), if_pos List.mem_cons_self]
        · rw [if_neg (by simpa using he), if_neg (by simp [hes, Ne.symm he])]

/-- **An edge has its weight in the map**, whichever edges have the same hash. -/
theorem makeEdgeWeightMap_getElem? (g : Graph n) (edgeWeightFn : EdgeT → T) (e : EdgeT) :
    (makeEdgeWeightMap g edgeWeightFn)[e]? =
      if e ∈ g.edgeRange then some (edgeWeightFn e) else none := by
  rw [makeEdgeWeightMap, getElem?_foldl_insert]
  simp

/-- **The map has one entry for each edge.** -/
theorem makeEdgeWeightMap_toList (g : Graph n) (edgeWeightFn : EdgeT → T) :
    (makeEdgeWeightMap g edgeWeightFn).toList.Perm
      (g.edgeRange.map fun e => (e, edgeWeightFn e)) := by
  have hrange : g.edgeRange.Nodup := (List.nodup_zipIdx_map_snd g.edges).of_map _
  have hmap : (makeEdgeWeightMap g edgeWeightFn).toList.Nodup :=
    Std.HashMap.distinct_keys_toList.imp fun hne heq => by simp [heq] at hne
  refine (List.perm_ext_iff_of_nodup hmap (hrange.map fun _ _ h => (Prod.mk.inj h).1)).mpr
    fun ⟨e, t⟩ => ?_
  rw [Std.HashMap.mem_toList_iff_getElem?_eq_some, makeEdgeWeightMap_getElem?, List.mem_map]
  constructor
  · intro h
    split at h
    · next he => exact ⟨e, he, by rw [Option.some.inj h]⟩
    · cases h
  · rintro ⟨e', he', heq⟩
    obtain ⟨rfl, rfl⟩ := Prod.mk.inj heq
    exact if_pos he'

end

/-! ### Distances and predecessors -/

section

variable {T : Type} [LT T] [Add T] [Zero T] [ArithmeticType T]

/-- Following the predecessors from `v` leads to `vstart`, and the cheapest edges on the way
have the sum `total`. -/
inductive FollowsBack (g : Graph n) (fn : EdgeT → T) (predecessors : List VertexT)
    (vstart : VertexT) : VertexT → ℤ → Prop where
  | start : FollowsBack g fn predecessors vstart vstart 0
  | step {v u : VertexT} {total weight : ℤ} (hv : v ≠ vstart) (hu : predecessors[v]? = some u)
      (hweight : IsLeast {x | ∃ e ∈ g.outEdges u, e.target = v ∧ value (fn e) = x} weight)
      (hrest : FollowsBack g fn predecessors vstart u total) :
      FollowsBack g fn predecessors vstart v (total + weight)

/-- The distances are the least sums of the weights along paths, and the predecessors lead
back along paths with these sums. -/
structure LeastSums (g : Graph n) (vstart : VertexT) (fn : EdgeT → T)
    (result : List VertexT × List T) : Prop where
  reachable : ∀ v, (∃ p, g.Path vstart p v) → ∃ d, result.2[v]? = some d ∧
    IsLeast {x | ∃ p, g.Path vstart p v ∧ pathSum fn p = x} (value d) ∧
    FollowsBack g fn result.1 vstart v (value d)
  unreachable : ∀ v < g.numVertices, (∀ p, ¬ g.Path vstart p v) → result.2[v]? = some maximum

variable [DecidableLT T] [DecidableEq T]

/-- The run reads the weights off the map. -/
lemma dijkstraPathDistanceVector_makeEdgeWeightMap (Q : ExtractMin VertexT T) (g : Graph n)
    (vstart : VertexT) (fn : EdgeT → T) :
    dijkstraPathDistanceVector Q g vstart (makeEdgeWeightMap g fn) =
      ((List.range g.numVertices).map
        (dijkstra Q g.outEdges EdgeT.target fn g.numVertices vstart).predecessor,
      (List.range g.numVertices).map
        (dijkstra Q g.outEdges EdgeT.target fn g.numVertices vstart).distance) := by
  rw [dijkstraPathDistanceVector, dijkstra_congr fun u e he => ?_]
  rw [makeEdgeWeightMap_getElem?, if_pos (Graph.mem_outEdges.mp he).1, Option.getD_some]

variable {g : Graph n} {vstart v : VertexT} {fn : EdgeT → T} {Q : ExtractMin VertexT T}

/-- The way back along the predecessors. -/
lemma FollowsBack.of_treePath (hends : ∀ e ∈ g.edges, e.target < g.numVertices)
    (hstart : vstart < g.numVertices) (hfit : SumsFit g.outEdges EdgeT.target fn vstart)
    {p : List EdgeT} (h : TreePath g.outEdges EdgeT.target fn vstart
      (dijkstra Q g.outEdges EdgeT.target fn g.numVertices vstart) p v) :
    FollowsBack g fn ((List.range g.numVertices).map
      (dijkstra Q g.outEdges EdgeT.target fn g.numVertices vstart).predecessor) vstart v
      (pathSum fn p) := by
  induction h with
  | nil => exact .start
  | @snoc p u e hp hu he hnew hpred hdist ih =>
      have hne : EdgeT.target e ≠ vstart := fun heq => hnew (heq ▸ List.mem_cons_self)
      have htarget := Finset.mem_range.mp (target_mem_range hends u e he)
      rw [pathSum_concat]
      refine .step hne ?_ ⟨⟨e, he, rfl, rfl⟩, ?_⟩ ih
      · rw [List.getElem?_map, List.getElem?_range htarget, Option.map_some, hpred]
      · -- a cheaper edge would have lowered the distance of its target further
        rintro _ ⟨e', he', htarget', rfl⟩
        have hvs := target_mem_range hends
        have hs := Finset.mem_range.mpr hstart
        have hclosed := dijkstra_closed hvs hs hfit Q (e := e') (u := u)
        rw [Finset.card_range] at hclosed
        have hle := (hclosed hu.1 he').2
        rw [htarget', hdist] at hle
        omega

/-- **Weighted shortest paths.** The map has one entry for each edge, the distances are the
least sums, and the predecessors lead back along them, provided that no sum of a simple
path and one more edge goes beyond the maximum. -/
theorem dijkstraPathDistanceVector_leastSums (Q : ExtractMin VertexT T)
    (hends : ∀ e ∈ g.edges, e.target < g.numVertices) (hstart : vstart < g.numVertices)
    (hfit : SumsFit g.outEdges EdgeT.target fn vstart) :
    (makeEdgeWeightMap g fn).toList.Perm (g.edgeRange.map fun e => (e, fn e)) ∧
      LeastSums g vstart fn (dijkstraPathDistanceVector Q g vstart (makeEdgeWeightMap g fn)) := by
  have hvs := target_mem_range hends
  have hs := Finset.mem_range.mpr hstart
  have hdistance := dijkstra_distance hvs hs hfit Q
  have htree := fun {q v} => dijkstra_tree hvs hs hfit Q (q := q) (v := v)
  rw [Finset.card_range] at hdistance htree
  refine ⟨makeEdgeWeightMap_toList g fn, ?_, ?_⟩
  all_goals rw [dijkstraPathDistanceVector_makeEdgeWeightMap]
  · rintro v ⟨q, hq⟩
    have hread : ((List.range g.numVertices).map
        (dijkstra Q g.outEdges EdgeT.target fn g.numVertices vstart).distance)[v]? =
        some ((dijkstra Q g.outEdges EdgeT.target fn g.numVertices vstart).distance v) := by
      rw [List.getElem?_map, List.getElem?_range (Graph.path_lt hends hstart hq), Option.map_some]
    refine ⟨_, hread, ?_, ?_⟩
    · rcases hdistance v with ⟨p, hp, hsum, hleast⟩ | ⟨-, hnone⟩
      · rw [hsum]
        refine ⟨⟨p, hp, rfl⟩, ?_⟩
        rintro _ ⟨p', hp', rfl⟩
        exact hleast p' hp'
      · exact absurd hq (hnone q)
    · obtain ⟨p, hp⟩ := htree hq
      rw [hp.sum (dijkstraInv_dijkstra hfit Q g.numVertices).start.2]
      exact .of_treePath hends hstart hfit hp
  · intro v hv hnone
    rcases hdistance v with ⟨p, hp, -, -⟩ | ⟨hinfinite, -⟩
    · exact absurd hp (hnone p)
    · rw [List.getElem?_map, List.getElem?_range hv, Option.map_some, hinfinite]

end

/-- Weights for the edges of `parallelGraph`, zeros among them. -/
def parallelWeight (e : EdgeT) : UInt64 := [5, 2, 0, 1, 0].getD e.2 0

theorem dijkstraPathDistanceVector_leastSums_parallelGraph :
    (makeEdgeWeightMap parallelGraph parallelWeight).toList.Perm
        (parallelGraph.edgeRange.map fun e => (e, parallelWeight e)) ∧
      LeastSums parallelGraph 0 parallelWeight (dijkstraPathDistanceVector .first parallelGraph 0
        (makeEdgeWeightMap parallelGraph parallelWeight)) := by
  have hends : ∀ e ∈ parallelGraph.edges, e.target < parallelGraph.numVertices := by decide
  have hweights : ∀ e ∈ parallelGraph.edgeRange, value (parallelWeight e) ≤ 5 := by decide
  refine dijkstraPathDistanceVector_leastSums .first hends (by decide) ?_
  exact .of_le (target_mem_range hends) (by decide) (by decide)
    (fun _ e _ => Int.natCast_nonneg (parallelWeight e).toNat)
    (fun _ e he => hweights e (Graph.mem_outEdges.mp he).1) (by decide)

/-- An edge and a loop at its end. -/
def heavyLoop : Graph 0 where
  vertices := [{}, {}]
  edges := [⟨0, 1, .child⟩, ⟨1, 1, .child⟩]

/-- The loop takes a sum beyond the maximum. -/
def heavyWeight (e : EdgeT) : UInt64 := if e.2 = 0 then 2 else 0xFFFFFFFFFFFFFFFE

lemma heavyLoop_target : ∀ e ∈ heavyLoop.edgeRange, EdgeT.target e = 1 := by decide

/-- The only simple path with edges is the one edge. -/
lemma heavyLoop_simple {p : List EdgeT} {v : VertexT} (hp : heavyLoop.Path 0 p v)
    (hsimple : IsSimple EdgeT.target 0 p) : pathSum heavyWeight p < value (maximum : UInt64) := by
  cases hp with
  | nil => decide
  | @snoc p u e hp he =>
      have hmem := (Graph.mem_outEdges.mp he).1
      cases hp with
      | nil =>
          have hfirst : ∀ e ∈ heavyLoop.outEdges 0,
              pathSum heavyWeight [e] < value (maximum : UInt64) := by decide
          exact hfirst e he
      | @snoc p u e' _ he' =>
          -- the end of the first edge would come twice
          refine absurd ?_ (isSimple_concat.mp hsimple).2
          rw [heavyLoop_target e hmem, List.map_append, ← List.cons_append]
          exact List.mem_append_right _ (List.mem_singleton.mpr
            (heavyLoop_target e' (Graph.mem_outEdges.mp he').1).symm)

/-- No path to the vertex with the loop has a sum below 2. -/
lemma heavyLoop_pathSum {p : List EdgeT} {v : VertexT} (hp : heavyLoop.Path 0 p v) :
    0 ≤ pathSum heavyWeight p ∧ (v = 1 → 2 ≤ pathSum heavyWeight p) := by
  have hweight : ∀ e ∈ heavyLoop.edgeRange, 2 ≤ value (heavyWeight e) := by decide
  induction hp with
  | nil => exact ⟨le_rfl, fun h => by cases h⟩
  | @snoc p u e _ he ih =>
      have hlast := hweight e (Graph.mem_outEdges.mp he).1
      rw [pathSum_concat]
      exact ⟨by omega, fun _ => by omega⟩

/-- The sums along simple paths stay below the maximum, but adding the loop to the distance 2
of its vertex gives 0, so that the vertex becomes its own predecessor. -/
theorem not_leastSums_heavyLoop :
    ¬ ∀ (Q : ExtractMin VertexT UInt64) (g : Graph 0) (vstart : VertexT) (fn : EdgeT → UInt64),
      (∀ e ∈ g.edges, e.source < g.numVertices ∧ e.target < g.numVertices) →
      vstart < g.numVertices → (∀ e ∈ g.edgeRange, 0 ≤ value (fn e)) →
      (∀ p v, g.Path vstart p v → IsSimple EdgeT.target vstart p →
        pathSum fn p < value (maximum : UInt64)) →
      (makeEdgeWeightMap g fn).toList.Perm (g.edgeRange.map fun e => (e, fn e)) ∧
        LeastSums g vstart fn (dijkstraPathDistanceVector Q g vstart (makeEdgeWeightMap g fn)) := by
  intro h
  have hpath : heavyLoop.Path 0 [(⟨0, 1, .child⟩, 0)] 1 :=
    .snoc (p := []) .nil (show ((⟨0, 1, .child⟩, 0) : EdgeT) ∈ _ by decide)
  have hrun : (dijkstra .first heavyLoop.outEdges EdgeT.target heavyWeight heavyLoop.numVertices
      0).distance 1 = 0 := by decide +kernel
  obtain ⟨-, hsums⟩ := h .first heavyLoop 0 heavyWeight (by decide) (by decide)
    (fun e _ => Int.natCast_nonneg (heavyWeight e).toNat) fun p v => heavyLoop_simple
  obtain ⟨d, hd, ⟨⟨p, hp, hleast⟩, -⟩, -⟩ := hsums.reachable 1 ⟨_, hpath⟩
  rw [dijkstraPathDistanceVector_makeEdgeWeightMap, List.getElem?_map,
    List.getElem?_range (by decide), Option.map_some, hrun, Option.some.injEq] at hd
  have htwo := (heavyLoop_pathSum hp).2 rfl
  rw [hleast, ← hd, value_zero] at htwo
  exact absurd htwo (by decide)

/-! ### Weights and hops -/

section

variable {T : Type} [LT T] [Add T] [Zero T] [ArithmeticType T] {g : Graph n} {fn : EdgeT → T}
  {lo hi : ℤ}

/-- The sum along a path is between multiples of the number of its edges. -/
lemma pathSum_between (hlo : ∀ e ∈ g.edgeRange, lo ≤ value (fn e))
    (hhi : ∀ e ∈ g.edgeRange, value (fn e) ≤ hi) {u v : VertexT} {p : List EdgeT}
    (hp : g.Path u p v) : lo * p.length ≤ pathSum fn p ∧ pathSum fn p ≤ hi * p.length := by
  induction hp with
  | nil => simp
  | @snoc p w e _ he ih =>
      have hmem := (Graph.mem_outEdges.mp he).1
      have hle := hlo e hmem
      have hge := hhi e hmem
      rw [pathSum_concat, List.length_append, List.length_singleton]
      push_cast
      constructor
      · calc lo * (p.length + 1) = lo * p.length + lo := by ring
          _ ≤ pathSum fn p + value (fn e) := add_le_add ih.1 hle
      · calc pathSum fn p + value (fn e) ≤ hi * p.length + hi := add_le_add ih.2 hge
          _ = hi * (p.length + 1) := by ring

/-- **Weighted distances and numbers of hops**: where the weights are between `lo` and `hi`,
`dijkstra_path_distance_vector` is between `lo` and `hi` times `bfs_distance_vector` and
its predecessors lead back along a path with this sum. So with one weight for all edges it
is a multiple of the number of hops. A vertex that is not reached has the maximum in one
vector, and zero in the other. -/
theorem dijkstra_between_hops [DecidableLT T] [DecidableEq T] (Q : ExtractMin VertexT T)
    (hends : ∀ e ∈ g.edges, e.target < g.numVertices) {vstart : VertexT}
    (hstart : vstart < g.numVertices) (hpos : 0 ≤ lo)
    (hlo : ∀ e ∈ g.edgeRange, lo ≤ value (fn e)) (hhi : ∀ e ∈ g.edgeRange, value (fn e) ≤ hi)
    (hle : lo ≤ hi) (hmax : g.numVertices * hi < value (maximum : T)) {v : VertexT}
    (hv : v < g.numVertices) :
    ∃ d hops, (dijkstraPathDistanceVector Q g vstart (makeEdgeWeightMap g fn)).2[v]? = some d ∧
      (bfsDistances g vstart)[v]? = some hops ∧
      ((∃ p, g.Path vstart p v) → lo * hops ≤ value d ∧ value d ≤ hi * hops ∧
        FollowsBack g fn (dijkstraPathDistanceVector Q g vstart (makeEdgeWeightMap g fn)).1
          vstart v (value d)) ∧
      ((∀ p, ¬ g.Path vstart p v) → d = maximum ∧ hops = 0) := by
  have hvs := target_mem_range hends
  have hs := Finset.mem_range.mpr hstart
  have hfit : SumsFit g.outEdges EdgeT.target fn vstart := by
    refine .of_le hvs hs (hpos.trans hle) (fun u e he => ?_) (fun u e he => ?_) ?_
    · exact hpos.trans (hlo e (Graph.mem_outEdges.mp he).1)
    · exact hhi e (Graph.mem_outEdges.mp he).1
    · rwa [Finset.card_range]
  have hdistance := dijkstra_distance hvs hs hfit Q v
  have htree := fun {q v} => dijkstra_tree hvs hs hfit Q (q := q) (v := v)
  rw [Finset.card_range] at hdistance htree
  rw [dijkstraPathDistanceVector_makeEdgeWeightMap]
  simp only [List.getElem?_map, List.getElem?_range hv, Option.map_some, Option.some.injEq]
  rcases bfsDistances_spec hends hstart hv with ⟨q, hq, hhops⟩ | ⟨hnone, hhops⟩
  · obtain ⟨p, hp, hsum, hleast⟩ := hdistance.resolve_right fun h => h.2 q hq.1
    refine ⟨_, _, rfl, hhops, fun _ => ⟨?_, ?_, ?_⟩, fun hnone => absurd hq.1 (hnone q)⟩
    · -- no path has fewer edges than `q`
      calc lo * q.length ≤ lo * p.length :=
            mul_le_mul_of_nonneg_left (by exact_mod_cast hq.2 p hp) hpos
        _ ≤ pathSum fn p := (pathSum_between hlo hhi hp).1
        _ = _ := hsum.symm
    · calc _ = pathSum fn p := hsum
        _ ≤ pathSum fn q := hleast q hq.1
        _ ≤ hi * q.length := (pathSum_between hlo hhi hq.1).2
    · obtain ⟨r, hr⟩ := htree hq.1
      rw [hr.sum (dijkstraInv_dijkstra hfit Q g.numVertices).start.2]
      exact .of_treePath hends hstart hfit hr
  · refine ⟨_, _, rfl, hhops, fun ⟨p, hp⟩ => absurd hp (hnone p), fun _ => ⟨?_, rfl⟩⟩
    exact (hdistance.resolve_left fun ⟨p, hp, _⟩ => hnone p hp).1

/-- The weights of `parallelGraph` are up to 5. -/
theorem dijkstra_between_hops_parallelGraph :
    ∃ d hops, (dijkstraPathDistanceVector .first parallelGraph 0
        (makeEdgeWeightMap parallelGraph parallelWeight)).2[2]? = some d ∧
      (bfsDistances parallelGraph 0)[2]? = some hops ∧
      ((∃ p, parallelGraph.Path 0 p 2) → 0 * hops ≤ value d ∧ value d ≤ 5 * hops ∧
        FollowsBack parallelGraph parallelWeight (dijkstraPathDistanceVector .first parallelGraph 0
          (makeEdgeWeightMap parallelGraph parallelWeight)).1 0 2 (value d)) ∧
      ((∀ p, ¬ parallelGraph.Path 0 p 2) → d = maximum ∧ hops = 0) :=
  dijkstra_between_hops .first (by decide) (by decide) le_rfl (by decide) (by decide) (by decide)
    (by decide) (by decide)

end

end Yloc
